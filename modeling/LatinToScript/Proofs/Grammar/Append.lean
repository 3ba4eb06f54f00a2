import LatinToScript.Proofs.Grammar.Failure
import LatinToScript.Proofs.Grammar.Lookahead

/-!
# Statements one after the other

Where tokens end in a semicolon, whatever comes after them is read as if it stood alone
(`Grammar.statements_append`). A statement of such tokens either leaves some of them, and then these
decide where it ends, or it takes them all, and then it is a declaration that takes the last
semicolon for its own end.
-/

namespace LatinToScript

/-! ## Tokens that end in a semicolon -/

/-- A block does not end in a semicolon. -/
lemma DerivesBlock.not_ended {ks rest body} (dv : DerivesBlock ks rest body) : ¬ Ended ks := by
  cases dv with
  | braces _ =>
    intro ended
    rw [← List.cons_append, Ended, List.getLast?_concat] at ended
    cases ended

/-- A production that stays in front of the last semicolon does not take it. -/
lemma Grammar.InFront.not_ended {α : Type} {production : Production α} {ts : List Token} {a : α}
    (inf : InFront production) (rd : Reads (production ts) a []) : ¬ Ended (kinds ts) := by
  intro ended
  exact absurd rfl (inf.ended ended rd).ne_nil

/-- All kinds are the kinds of some tokens. -/
lemma exists_kinds_eq (ks : List TokenKind) : ∃ ts, kinds ts = ks := by
  refine ⟨ks.map (⟨·, .start⟩), ?_⟩
  rw [kinds, List.map_map]
  exact List.map_id ks

/-- An operand does not end in a semicolon. -/
lemma DerivesOperand.not_ended {ks x} (dv : DerivesOperand ks x) : ¬ Ended ks := by
  obtain ⟨ts, rfl⟩ := exists_kinds_eq ks
  have rd := Grammar.reads_operand_iff.mpr ⟨ts, (List.append_nil ts).symm, dv, nestedWithin_length _⟩
  exact (Grammar.inFront_operand _).not_ended rd

/-- A declarator does not end in a semicolon. -/
lemma DerivesDeclarator.not_ended {ks d} (dv : DerivesDeclarator ks d) : ¬ Ended ks := by
  obtain ⟨ts, rfl⟩ := exists_kinds_eq ks
  have rd : Reads (Grammar.declarator _ (ts ++ [])) d [] :=
    Grammar.reads_declarator_of_derives dv (nestedWithin_length _) nofun
  rw [List.append_nil] at rd
  exact (Grammar.inFront_declarator _).not_ended rd

/-- Declarators do not end in a semicolon, as the last one of them does not. -/
lemma DerivesDeclarators.not_ended {ks ds} (dv : DerivesDeclarators ks ds) : ¬ Ended ks := by
  induction dv with
  | one dv => exact dv.not_ended
  | @cons ks ls d ds _ dvs ih =>
    intro ended
    obtain ⟨n, ls', rfl⟩ := dvs.starts
    exact ih (ended.of_append (List.cons_ne_nil _ _))

/-- Only declarations end in a semicolon, and then it does not matter what follows. -/
lemma DerivesStatement.exists_declaration {ks rest s} (dv : DerivesStatement ks rest s)
    (ended : Ended ks) :
    ∃ binding ls d, ks = .keyword (.declare binding) :: ls ∧ s = .declaration d ∧
      ∀ more, DerivesDeclaration ks more d := by
  cases dv with
  | @control ks ls _ control _ _ _ _ _ db =>
    have some : ls ≠ [] := by
      rintro rfl
      cases db
    have last := (show Ended (.keyword (.control control) :: ks ++ ls) from ended).of_append some
    exact absurd last db.not_ended
  | declaration dd =>
    cases dd with
    | declare dds ends =>
      refine ⟨_, _, _, rfl, rfl, ?_⟩
      cases ends with
      | semicolon =>
        intro more
        exact .declare dds .semicolon
      | brace =>
        rw [List.append_nil] at ended
        exact absurd (ended.of_cons nofun) dds.not_ended
      | finish =>
        rw [List.append_nil] at ended
        exact absurd (ended.of_cons nofun) dds.not_ended
  | binding dd => exact absurd ended dd.not_ended
  | block db => exact absurd ended db.not_ended
  | literal dl => exact absurd ended (DerivesOperand.literal dl).not_ended
  | paren dp => exact absurd ended (DerivesOperand.paren dp).not_ended

namespace Grammar

variable {room : Nat} {ts us rest : List Token}

/-- A statement of tokens that end in a semicolon is the same with more tokens behind them. -/
lemma reads_statement_append {s : Statement} (rd : Reads (statement room ts) s rest)
    (ended : Ended (kinds ts)) : Reads (statement room (ts ++ us)) s (rest ++ us) := by
  obtain ⟨front, rfl, dv, nw⟩ := (readsStatements_statement room).sound rd
  cases rest with
  | nil =>
    -- A declaration that has its semicolon is read whatever comes next, be it an operator.
    rw [List.append_nil] at ended ⊢
    obtain ⟨binding, ls, d, eqf, rfl, derives⟩ := dv.exists_declaration ended
    obtain ⟨t, others, rfl, kt, rfl⟩ := kinds_eq_cons_iff.mp eqf
    rw [kinds_cons, kt, nestedWithin_cons_iff rfl rfl] at nw
    rw [kinds_cons, kt] at derives
    have reads : Reads (declaration room binding t.position (others ++ us)) d us :=
      reads_declaration_iff_derives.mpr ⟨others, rfl, derives (kinds us), nw⟩
    exact reads_statementWith_iff.mpr (.declaration kt reads)
  | cons t rest =>
    rw [List.append_assoc]
    exact looksOneAhead_statement rd rfl

/-- What comes after a semicolon is read as if it stood alone. -/
lemma statements_append {ss : List Statement} (eq : statements room ts = .ok ss)
    (last : ts ≠ [] → Ended (kinds ts)) :
    statements room (ts ++ us) = (statements room us).map (ss ++ ·) := by
  obtain ⟨length, len⟩ : ∃ n, ts.length = n := ⟨_, rfl⟩
  induction length using Nat.strongRecOn generalizing ts ss with
  | _ length ih =>
  subst len
  rcases statements_eq_ok_iff.mp eq with ⟨rfl, rfl⟩ | ⟨t, ts, rfl, kt, eqs⟩ |
    ⟨t, others, rfl, _, s, mid, ss, rd, eqs, rfl⟩
  · rw [List.nil_append]
    cases statements room us <;> rfl
  · rw [List.cons_append, statements_semicolon kt]
    apply ih ts.length (Nat.lt_succ_self _) eqs _ rfl
    intro some
    have ended : Ended ([t.kind] ++ kinds ts) := last (List.cons_ne_nil _ _)
    exact ended.of_append (mt kinds_eq_nil_iff.mp some)
  · have ended := last (List.cons_ne_nil _ _)
    have rest : statements room (mid ++ us) = (statements room us).map (ss ++ ·) := by
      apply ih mid.length rd.length_lt eqs _ rfl
      intro some
      obtain ⟨front, eqf, _, _⟩ := (readsStatements_statement room).sound rd
      rw [eqf, kinds_append] at ended
      exact ended.of_append (mt kinds_eq_nil_iff.mp some)
    rw [statements_of_reads (reads_statement_append rd ended), rest]
    cases statements room us <;> rfl

/-- One more semicolon changes nothing. -/
lemma statements_concat_semicolon {ss : List Statement} {t : Token} (eq : statements room ts = .ok ss)
    (ended : Ended (kinds ts)) (kt : t.kind = .semicolon) : statements room (ts ++ [t]) = .ok ss := by
  have none : statements room [t] = .ok [] := by
    rw [statements_semicolon kt]
    exact statements_eq_ok_iff.mpr (.inl ⟨rfl, rfl⟩)
  rw [statements_append eq fun _ => ended, none]
  exact congrArg Except.ok (List.append_nil ss)

end Grammar

end LatinToScript
