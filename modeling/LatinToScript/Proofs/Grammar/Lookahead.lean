import LatinToScript.Proofs.Grammar.Acceptance

/-!
# One token ahead

Where a thing ends depends on the next token at most. For the grammar this is `DerivesStatement.of_next`:
of the tokens behind a statement only the first one counts. For productions it is `LooksOneAhead`: a
thing that is read in front of some tokens is read in front of all others that start with a token of the
same kind.
-/

namespace LatinToScript

/-! ## The grammar -/

/-- Whether a declaration ends depends on the kind of the next token only. -/
lemma EndsDeclaration.of_next {ending rest more} (ed : EndsDeclaration ending rest)
    (next : rest.head? = more.head?) : EndsDeclaration ending more := by
  cases ed with
  | semicolon => exact .semicolon
  | brace =>
    obtain ⟨_, rfl⟩ := List.head?_eq_some_iff.mp next.symm
    exact .brace
  | finish =>
    rw [List.head?_eq_none_iff.mp next.symm]
    exact .finish

/-- A declaration depends on the next token only. -/
lemma DerivesDeclaration.of_next {ks rest more d} (dv : DerivesDeclaration ks rest d)
    (next : rest.head? = more.head?) : DerivesDeclaration ks more d := by
  cases dv with
  | declare dvs ends => exact .declare dvs (ends.of_next next)

mutual

/-- A statement depends on the next token only. -/
lemma DerivesStatement.of_next {ks rest more s} :
    DerivesStatement ks rest s → rest.head? = more.head? → DerivesStatement ks more s
  | .control dx db, _ => .control dx (DerivesBlock.of_any db)
  | .declaration dv, next => .declaration (dv.of_next next)
  | .binding dv, _ => .binding dv
  | .block dv, _ => .block (DerivesBlock.of_any dv)
  | .literal dv, _ => .literal dv
  | .paren dv, _ => .paren dv

/-- A block ends in its brace, so nothing behind it counts. -/
lemma DerivesBlock.of_any {ks rest more body} :
    DerivesBlock ks rest body → DerivesBlock ks more body
  | .braces dvs => .braces (DerivesStatements.of_next dvs rfl)

/-- Statements depend on the next token only. -/
lemma DerivesStatements.of_next {ks rest more ss} :
    DerivesStatements ks rest ss → rest.head? = more.head? → DerivesStatements ks more ss
  | .nil, _ => .nil
  | .semicolon dvs, next => .semicolon (DerivesStatements.of_next dvs next)
  | .cons dv dvs, next => by
    apply DerivesStatements.cons _ (DerivesStatements.of_next dvs next)
    apply DerivesStatement.of_next dv
    rw [List.head?_append, List.head?_append, next]

end

/-! ## Productions -/

namespace Grammar

variable {α : Type} {room : Nat}

/-- What is read depends on its own tokens and on the kind of the next one. -/
def LooksOneAhead {Fits : List Token → List Token → Prop}
    (read : (ts : List Token) → Except ParseError (α × { rest : List Token // Fits ts rest })) : Prop :=
  ∀ ⦃front rest more a⦄, Reads (read (front ++ rest)) a rest →
    (kinds rest).head? = (kinds more).head? → Reads (read (front ++ more)) a more

/-- An operand does not look ahead at all. -/
lemma looksOneAhead_operand : LooksOneAhead (operand room) := by
  intro front rest more x rd _
  obtain ⟨_, eq, dv, nw⟩ := reads_operand_iff.mp rd
  obtain rfl := List.append_cancel_right eq
  exact reads_operand_iff.mpr ⟨front, rfl, dv, nw⟩

/-- An expression looks at the next token, which may be an operator. -/
lemma looksOneAhead_expression : LooksOneAhead (expression room) := by
  intro front rest more x rd next
  rw [reads_expression_iff] at rd ⊢
  rcases rd with ⟨ro, no⟩ | ⟨left, o, mid, word, right, rl, ko, rr, rfl⟩
  · rw [NoOperatorNext, next] at no
    exact .inl ⟨looksOneAhead_operand ro next, no⟩
  · obtain ⟨fr, rfl, _⟩ := reads_operand_iff.mp rr
    obtain ⟨fl, eq, _⟩ := reads_operand_iff.mp rl
    rw [← List.cons_append, ← List.append_assoc] at eq
    obtain rfl := List.append_cancel_right eq
    rw [List.append_assoc, List.cons_append] at rl ⊢
    refine .inr ⟨left, o, fr ++ more, word, right, ?_, ko, looksOneAhead_operand rr next, rfl⟩
    exact looksOneAhead_operand rl rfl

/-- A declarator looks as far ahead as its value. -/
lemma looksOneAhead_declarator : LooksOneAhead (declarator room) := by
  intro front rest more d rd next
  obtain ⟨t, c, mid, n, value, eq, kt, kc, rv, rfl⟩ := reads_declarator_iff.mp rd
  obtain ⟨fv, rfl, _⟩ := derives_of_reads_expression rv
  rw [← List.cons_append, ← List.cons_append] at eq
  obtain rfl := List.append_cancel_right eq
  have rv' := looksOneAhead_expression rv next
  exact reads_declarator_iff.mpr ⟨t, c, fv ++ more, n, value, rfl, kt, kc, rv', rfl⟩

/-- A declaration looks at the next token, which may be a closing brace. -/
lemma looksOneAhead_declaration {binding : Binding} {position : Position} :
    LooksOneAhead (declaration room binding position) := by
  intro front rest more d rd next
  obtain ⟨_, eq, dv, nw⟩ := reads_declaration_iff_derives.mp rd
  obtain rfl := List.append_cancel_right eq
  exact reads_declaration_iff_derives.mpr ⟨front, rfl, dv.of_next next, nw⟩

/-- A block ends with its own brace and does not look further. -/
lemma looksOneAhead_block {owner : BlockOwner} {opening : Position} :
    LooksOneAhead (block room owner opening) := by
  intro front rest more body rd _
  obtain ⟨_, eq, dv, nw⟩ := (readsBlocks_block room).mp rd
  obtain rfl := List.append_cancel_right eq
  exact (readsBlocks_block room).mpr ⟨front, rfl, dv.of_any, nw⟩

/-- A control statement ends with its block and does not look further. -/
lemma looksOneAhead_controlled {control : Control} {position : Position} :
    LooksOneAhead (controlled (block room) room control position) := by
  rintro front rest more ⟨test, body⟩ rd next
  obtain ⟨o, mid, rx, ko, rb⟩ := reads_controlled_iff.mp rd
  obtain ⟨fb, rfl, _⟩ := (readsBlocks_block room).mp rb
  obtain ⟨fx, eq, _⟩ := derives_of_reads_expression rx
  rw [← List.cons_append, ← List.append_assoc] at eq
  obtain rfl := List.append_cancel_right eq
  rw [List.append_assoc, List.cons_append] at rx ⊢
  refine reads_controlled_iff.mpr ⟨o, fb ++ more, ?_, ko, looksOneAhead_block rb next⟩
  exact looksOneAhead_expression rx rfl

/-- A statement looks at one token behind it and at no more. -/
lemma looksOneAhead_statement : LooksOneAhead (statement room) := by
  intro front rest more s rs next
  cases front with
  | nil =>
    exact absurd rs.length_lt (Nat.lt_irrefl _)
  | cons t front =>
    apply reads_statementWith_iff.mpr
    rw [List.cons_append] at rs ⊢
    cases reads_statementWith_iff.mp rs with
    | control kt rc => exact .control kt (looksOneAhead_controlled rc next)
    | declaration kt rd => exact .declaration kt (looksOneAhead_declaration rd next)
    | binding kt rd =>
      refine .binding kt ?_
      rw [← List.cons_append] at rd ⊢
      exact looksOneAhead_declarator rd next
    | block kt rb => exact .block kt (looksOneAhead_block rb next)
    | value start ro =>
      refine .value start ?_
      rw [← List.cons_append] at ro ⊢
      exact looksOneAhead_operand ro next

end Grammar

end LatinToScript
