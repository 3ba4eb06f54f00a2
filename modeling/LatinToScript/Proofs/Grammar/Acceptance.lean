import LatinToScript.Proofs.Grammar.Nesting
import LatinToScript.Proofs.Grammar.StatementProduction
import Mathlib.Data.Set.Subsingleton

/-!
# Parsing accepts the grammar

Each production reads exactly the tokens that the grammar derives, within the room that is left for
brackets. Productions of expressions are greedy: they read what the grammar derives only where no
operator comes next. `Program.ofTokens_eq_ok_iff_derives` says it for whole programs, and that no token
list derives two programs.
-/

namespace LatinToScript

/-- A literal is one token, which is no bracket. -/
lemma DerivesLiteral.single {ks x} (dv : DerivesLiteral ks x) :
    ∃ k, ks = [k] ∧ k.isOpening = false := by
  cases dv <;> exact ⟨_, rfl, rfl⟩

/-- Inside the parentheses of a relation there is one level less room. -/
lemma nestedWithin_paren_iff {room word ks ls} (nk : Nested ks) (nl : Nested ls) :
    NestedWithin (room + 1)
        (.opening .parenthesis :: (ks ++ .operator word :: (ls ++ [.closing .parenthesis]))) ↔
      NestedWithin room ks ∧ NestedWithin room ls := by
  have inner : Nested (ks ++ .operator word :: ls) := nk.append (.plain rfl rfl nl)
  rw [show ks ++ .operator word :: (ls ++ [.closing .parenthesis]) =
      (ks ++ .operator word :: ls) ++ [.closing .parenthesis] by simp,
    inner.within_enclosed_iff, nk.within_append_iff, nestedWithin_cons_iff rfl rfl]

namespace Grammar

variable {room : Nat} {ts rest front : List Token}

/-! ## Expressions -/

/-- The room decreases with each parenthesis, so the induction is on it. -/
lemma reads_operand_iff {x : Expression} :
    Reads (operand room ts) x rest ↔
      ∃ front, ts = front ++ rest ∧ DerivesOperand (kinds front) x ∧
        NestedWithin room (kinds front) := by
  induction room using Nat.strongRecOn generalizing ts x rest with
  | _ room ih =>
  constructor
  · intro rd
    cases ts with
    | nil => exact absurd rd not_reads_operand_nil
    | cons t us =>
      rcases reads_operand_cons_iff.mp rd with
        ⟨lit, rfl⟩ | ⟨n, kt, rfl, rfl⟩ | ⟨kt, r, rfl, rp⟩
      · obtain ⟨k, eq, op⟩ := lit.single
        cases eq
        exact ⟨[t], rfl, .literal lit, nestedWithin_single op⟩
      · refine ⟨[t], rfl, ?_, ?_⟩
        · rw [kinds_cons, kt]
          exact .name
        · rw [kinds_cons, kt]
          exact nestedWithin_single rfl
      · -- Both operands are read with one level less room, so the induction covers them.
        obtain ⟨left, o, mid, word, right, c, rl, ko, rr, kc, rfl⟩ :=
          reads_parenthesized_iff.mp rp
        obtain ⟨fl, rfl, dl, wl⟩ := (ih r (Nat.lt_succ_self r)).mp rl
        obtain ⟨fr, rfl, dr, wr⟩ := (ih r (Nat.lt_succ_self r)).mp rr
        have eq : kinds (t :: (fl ++ o :: (fr ++ [c]))) = .opening .parenthesis ::
            (kinds fl ++ .operator word :: (kinds fr ++ [.closing .parenthesis])) := by
          simp [kt, ko, kc]
        refine ⟨t :: (fl ++ o :: (fr ++ [c])), by simp, ?_, ?_⟩
        · rw [eq]
          exact .paren (.relation dl dr)
        · rw [eq, nestedWithin_paren_iff dl.nested dr.nested]
          exact ⟨wl, wr⟩
  · rintro ⟨front, rfl, dv, nw⟩
    generalize eq : kinds front = ks at dv nw
    cases dv with
    | literal lit =>
      obtain ⟨k, rfl, _⟩ := lit.single
      obtain ⟨t, rfl, rfl⟩ := kinds_eq_singleton_iff.mp eq
      exact reads_operand_cons_iff.mpr (.inl ⟨lit, rfl⟩)
    | name =>
      obtain ⟨t, rfl, kt⟩ := kinds_eq_singleton_iff.mp eq
      exact reads_operand_cons_iff.mpr (.inr (.inl ⟨_, kt, rfl, rfl⟩))
    | paren dv =>
      cases dv with
      | relation dl dr =>
        obtain ⟨t, _, rfl, kt, eql⟩ := kinds_eq_cons_iff.mp eq
        obtain ⟨fl, _, rfl, rfl, eqo⟩ := kinds_eq_append_iff.mp eql
        obtain ⟨o, _, rfl, ko, eqr⟩ := kinds_eq_cons_iff.mp eqo
        obtain ⟨fr, _, rfl, rfl, eqc⟩ := kinds_eq_append_iff.mp eqr
        obtain ⟨c, rfl, kc⟩ := kinds_eq_singleton_iff.mp eqc
        cases room with
        | zero => exact absurd nw not_nestedWithin_zero
        | succ r =>
          obtain ⟨wl, wr⟩ := (nestedWithin_paren_iff dl.nested dr.nested).mp nw
          rw [List.cons_append, reads_operand_cons_iff]
          refine .inr (.inr ⟨kt, r, rfl, reads_parenthesized_iff.mpr ?_⟩)
          refine ⟨_, o, fr ++ c :: rest, _, _, c, ?_, ko, ?_, kc, rfl⟩
          · exact (ih r (Nat.lt_succ_self r)).mpr ⟨fl, by simp, dl, wl⟩
          · exact (ih r (Nat.lt_succ_self r)).mpr ⟨fr, rfl, dr, wr⟩

/-- What is read as an expression is derived as one. -/
lemma derives_of_reads_expression {x : Expression} (rd : Reads (expression room ts) x rest) :
    ∃ front, ts = front ++ rest ∧ DerivesExpression (kinds front) x ∧
      NestedWithin room (kinds front) := by
  rcases reads_expression_iff.mp rd with ⟨ro, _⟩ | ⟨left, o, mid, word, right, rl, ko, rr, rfl⟩
  · obtain ⟨front, rfl, dv, nw⟩ := reads_operand_iff.mp ro
    exact ⟨front, rfl, .operand dv, nw⟩
  · obtain ⟨fl, rfl, dl, wl⟩ := reads_operand_iff.mp rl
    obtain ⟨fr, rfl, dr, wr⟩ := reads_operand_iff.mp rr
    refine ⟨fl ++ o :: fr, by simp, ?_, ?_⟩
    · rw [kinds_append, kinds_cons, ko]
      exact .relation dl dr
    · rw [kinds_append, kinds_cons, ko, dl.nested.within_append_iff, nestedWithin_cons_iff rfl rfl]
      exact ⟨wl, wr⟩

/-- What is derived as an expression is read as one, where no operator comes next. -/
lemma reads_expression_of_derives {x : Expression}
    (dv : DerivesExpression (kinds front) x)
    (nw : NestedWithin room (kinds front))
    (no : NoOperatorNext (kinds rest)) :
    Reads (expression room (front ++ rest)) x rest := by
  rw [reads_expression_iff]
  generalize eq : kinds front = ks at dv nw
  cases dv with
  | operand dv =>
    subst eq
    exact .inl ⟨reads_operand_iff.mpr ⟨front, rfl, dv, nw⟩, no⟩
  | relation dl dr =>
    obtain ⟨fl, _, rfl, rfl, eqr⟩ := kinds_eq_append_iff.mp eq
    obtain ⟨o, fr, rfl, ko, rfl⟩ := kinds_eq_cons_iff.mp eqr
    obtain ⟨wl, wr⟩ := dl.nested.within_append_iff.mp nw
    rw [nestedWithin_cons_iff rfl rfl] at wr
    refine .inr ⟨_, o, fr ++ rest, _, _, ?_, ko, ?_, rfl⟩
    · exact reads_operand_iff.mpr ⟨fl, by simp, dl, wl⟩
    · exact reads_operand_iff.mpr ⟨fr, rfl, dr, wr⟩

/-! ## Declarations -/

/-- What is read as a declarator is derived as one. -/
lemma derives_of_reads_declarator {d : Declarator} (rd : Reads (declarator room ts) d rest) :
    ∃ front, ts = front ++ rest ∧ DerivesDeclarator (kinds front) d ∧
      NestedWithin room (kinds front) := by
  obtain ⟨t, c, mid, n, value, rfl, kt, kc, rv, rfl⟩ := reads_declarator_iff.mp rd
  obtain ⟨front, rfl, dv, nw⟩ := derives_of_reads_expression rv
  refine ⟨t :: c :: front, rfl, ?_, ?_⟩
  · rw [kinds_cons, kinds_cons, kt, kc]
    exact .bind dv
  · rw [kinds_cons, kinds_cons, kt, kc, nestedWithin_cons_iff rfl rfl, nestedWithin_cons_iff rfl rfl]
    exact nw

/-- What is derived as a declarator is read as one, where no operator comes next. -/
lemma reads_declarator_of_derives {d : Declarator}
    (dv : DerivesDeclarator (kinds front) d)
    (nw : NestedWithin room (kinds front))
    (no : NoOperatorNext (kinds rest)) :
    Reads (declarator room (front ++ rest)) d rest := by
  generalize eq : kinds front = ks at dv nw
  cases dv with
  | bind dv =>
    obtain ⟨t, _, rfl, kt, eqc⟩ := kinds_eq_cons_iff.mp eq
    obtain ⟨c, mid, rfl, kc, rfl⟩ := kinds_eq_cons_iff.mp eqc
    rw [nestedWithin_cons_iff rfl rfl, nestedWithin_cons_iff rfl rfl] at nw
    rw [reads_declarator_iff]
    exact ⟨t, c, mid ++ rest, _, _, rfl, kt, kc, reads_expression_of_derives dv nw no, rfl⟩

end Grammar

/-- No operator comes next where a declaration ends. -/
lemma EndsDeclaration.noOperatorNext {ending rest} (ed : EndsDeclaration ending rest) :
    Grammar.NoOperatorNext (ending ++ rest) := by
  intro word
  cases ed <;> simp

/-- What ends a declaration nests within every bound. -/
lemma EndsDeclaration.within {limit ending rest} (ed : EndsDeclaration ending rest) :
    NestedWithin limit ending := by
  cases ed with
  | semicolon => exact nestedWithin_single rfl
  | brace => exact nestedWithin_nil
  | finish => exact nestedWithin_nil

/-- Declarators start with a name. -/
lemma DerivesDeclarators.starts {ks ds} (dv : DerivesDeclarators ks ds) :
    ∃ n ls, ks = .name n :: ls := by
  cases dv with
  | one dv => cases dv; exact ⟨_, _, rfl⟩
  | cons dv _ => cases dv; exact ⟨_, _, rfl⟩

/-- There is at least one declarator. -/
lemma DerivesDeclarators.ne_nil {ks ds} (dv : DerivesDeclarators ks ds) : ds ≠ [] := by
  cases dv <;> exact List.cons_ne_nil _ _

namespace Grammar

variable {room : Nat} {ts rest front ending : List Token}

/-- What is read as declarators and their end is derived as such, or there are none. -/
lemma derives_of_reads_declarators {ds : List Declarator}
    (rd : Reads (declarators room ts) ds rest) (some : ds ≠ []) :
    ∃ front ending, ts = front ++ (ending ++ rest) ∧ DerivesDeclarators (kinds front) ds ∧
      EndsDeclaration (kinds ending) (kinds rest) ∧ NestedWithin room (kinds front) := by
  induction ds generalizing ts with
  | nil => exact absurd rfl some
  | cons d ds ih =>
    rcases reads_declarators_iff.mp rd with ⟨eq, _⟩ | ⟨d', mid, ds', rd, rds, eq⟩
    · cases eq
    · cases eq
      obtain ⟨front, rfl, dv, nw⟩ := derives_of_reads_declarator rd
      cases ds with
      | nil =>
        rcases reads_declarators_iff.mp rds with ⟨_, ending, rfl, ends⟩ | ⟨_, _, _, _, _, eq⟩
        · exact ⟨front, ending, rfl, .one dv, ends, nw⟩
        · cases eq
      | cons d' ds' =>
        obtain ⟨more, ending, rfl, dvs, ends, nws⟩ := ih rds (List.cons_ne_nil _ _)
        refine ⟨front ++ more, ending, by simp, ?_, ends, ?_⟩
        · rw [kinds_append]
          exact .cons dv dvs
        · rw [kinds_append, dv.nested.within_append_iff]
          exact ⟨nw, nws⟩

/-- What is derived as declarators is read as such where a declaration ends. -/
lemma reads_declarators_of_derives {ds : List Declarator}
    (dv : DerivesDeclarators (kinds front) ds)
    (ends : EndsDeclaration (kinds ending) (kinds rest))
    (nw : NestedWithin room (kinds front)) :
    Reads (declarators room (front ++ (ending ++ rest))) ds rest := by
  have done : Reads (declarators room (ending ++ rest)) [] rest :=
    reads_declarators_iff.mpr (.inl ⟨rfl, ending, rfl, ends⟩)
  generalize eq : kinds front = ks at dv nw
  induction dv generalizing front with
  | one dv =>
    subst eq
    refine reads_declarators_iff.mpr (.inr ⟨_, ending ++ rest, [], ?_, done, rfl⟩)
    apply reads_declarator_of_derives dv nw
    rw [kinds_append]
    exact ends.noOperatorNext
  | cons dv dvs ih =>
    obtain ⟨first, more, rfl, rfl, rfl⟩ := kinds_eq_append_iff.mp eq
    obtain ⟨wf, wm⟩ := dv.nested.within_append_iff.mp nw
    rw [List.append_assoc]
    refine reads_declarators_iff.mpr (.inr ⟨_, more ++ (ending ++ rest), _, ?_, ih rfl wm, rfl⟩)
    apply reads_declarator_of_derives dv wf
    obtain ⟨n, ls, eqm⟩ := dvs.starts
    rw [kinds_append, eqm]
    intro word next
    cases next

/-- Exactly what is derived as a declaration is read as one after its keyword. -/
lemma reads_declaration_iff_derives {binding : Binding} {position : Position} {d : Declaration} :
    Reads (declaration room binding position ts) d rest ↔
      ∃ front, ts = front ++ rest ∧
        DerivesDeclaration (.keyword (.declare binding) :: kinds front) (kinds rest) d ∧
        NestedWithin room (kinds front) := by
  rw [reads_declaration_iff]
  constructor
  · rintro ⟨ds, rd, some, rfl⟩
    obtain ⟨front, ending, rfl, dv, ends, nw⟩ := derives_of_reads_declarators rd some
    refine ⟨front ++ ending, by simp, ?_, ?_⟩
    · rw [kinds_append]
      exact .declare dv ends
    · rw [kinds_append, dv.nested.within_append_iff]
      exact ⟨nw, ends.within⟩
  · rintro ⟨front, rfl, dv, nw⟩
    generalize eq : kinds front = ks at dv nw
    cases dv with
    | declare dv ends =>
      obtain ⟨first, ending, rfl, rfl, rfl⟩ := kinds_eq_append_iff.mp eq
      rw [List.append_assoc]
      obtain ⟨wf, _⟩ := dv.nested.within_append_iff.mp nw
      exact ⟨_, reads_declarators_of_derives dv ends wf, dv.ne_nil, rfl⟩

end Grammar

/-! ## Statements -/

/-- Statements start with a token that can start one. -/
lemma DerivesStatement.starts {ks rest s} (dv : DerivesStatement ks rest s) :
    ∃ k ls, ks = k :: ls ∧ Grammar.startsStatement k = true := by
  cases dv with
  | control _ _ => exact ⟨_, _, rfl, rfl⟩
  | declaration dv => cases dv; exact ⟨_, _, rfl, rfl⟩
  | binding dv => cases dv; exact ⟨_, _, rfl, rfl⟩
  | block dv => cases dv; exact ⟨_, _, rfl, rfl⟩
  | literal dv => cases dv <;> exact ⟨_, _, rfl, rfl⟩
  | paren dv => cases dv; exact ⟨_, _, rfl, rfl⟩

/-- Statements keep operators away from the front. -/
lemma DerivesStatements.noOperatorNext {ks rest ss} (dv : DerivesStatements ks rest ss)
    (no : Grammar.NoOperatorNext rest) : Grammar.NoOperatorNext (ks ++ rest) := by
  cases dv with
  | nil => exact no
  | semicolon _ =>
    intro word next
    cases next
  | cons dv _ =>
    obtain ⟨k, ls, rfl, start⟩ := dv.starts
    intro word next
    cases next
    cases start

namespace Grammar

variable {room : Nat} {ts rest front : List Token}

/-- A production reads the statements of the grammar, greedily. -/
structure ReadsStatements (room : Nat) (read : Production Statement) : Prop where
  sound : ∀ {ts s rest}, Reads (read ts) s rest →
    ∃ front, ts = front ++ rest ∧ DerivesStatement (kinds front) (kinds rest) s ∧
      NestedWithin room (kinds front)
  complete : ∀ {front s rest}, DerivesStatement (kinds front) (kinds rest) s →
    NestedWithin room (kinds front) → NoOperatorNext (kinds rest) →
    Reads (read (front ++ rest)) s rest

/-- A production reads the blocks of the grammar after their opening braces. -/
def ReadsBlocks (room : Nat) (read : BlockOwner → Position → Production (List Statement)) : Prop :=
  ∀ {owner opening ts body rest}, Reads (read owner opening ts) body rest ↔
    ∃ front, ts = front ++ rest ∧
      DerivesBlock (.opening .brace :: kinds front) (kinds rest) body ∧
      NestedWithin room (.opening .brace :: kinds front)

/-- A derived statement starts neither with a closing brace nor with a semicolon. -/
lemma head_of_derives_statement {s : Statement} {ks : List TokenKind}
    (dv : DerivesStatement (kinds front) ks s) :
    ∃ t us, front = t :: us ∧ t.kind ≠ .closing .brace ∧ t.kind ≠ .semicolon := by
  obtain ⟨k, ls, eq, start⟩ := dv.starts
  obtain ⟨t, us, rfl, rfl, _⟩ := kinds_eq_cons_iff.mp eq
  refine ⟨t, us, rfl, ?_, ?_⟩
  · intro kt
    rw [kt] at start
    cases start
  · intro kt
    rw [kt] at start
    cases start

/-- A derived block starts with an opening brace. -/
lemma head_of_derives_block {body : List Statement} {ks : List TokenKind}
    (dv : DerivesBlock (kinds front) ks body) :
    ∃ t us, front = t :: us ∧ t.kind = .opening .brace := by
  generalize eq : kinds front = ls at dv
  cases dv with
  | braces _ =>
    obtain ⟨t, us, rfl, kt, _⟩ := kinds_eq_cons_iff.mp eq
    exact ⟨t, us, rfl, kt⟩

/-- The statements of a block are read up to its closing brace. Each one shortens the tokens, so the
induction is on their number. -/
lemma ReadsStatements.reads_blockBody_iff {read : Production Statement} {owner : BlockOwner}
    {opening : Position} {body : List Statement} (rs : ReadsStatements room read) :
    Reads (blockBody read owner opening ts) body rest ↔
      ∃ front c, ts = front ++ c :: rest ∧ c.kind = .closing .brace ∧
        DerivesStatements (kinds front) (kinds (c :: rest)) body ∧
        NestedWithin room (kinds front) := by
  obtain ⟨length, len⟩ : ∃ n, ts.length = n := ⟨_, rfl⟩
  induction length using Nat.strongRecOn generalizing ts body with
  | _ length ih =>
  subst len
  rw [Grammar.reads_blockBody_iff]
  constructor
  · rintro (⟨c, rfl, kc, rfl⟩ | ⟨t, us, rfl, kt, rb⟩ | ⟨t, us, rfl, _, _, s, mid, ss, rd, rb, rfl⟩)
    · exact ⟨[], c, rfl, kc, .nil, nestedWithin_nil⟩
    · obtain ⟨front, c, rfl, kc, dv, nw⟩ := (ih _ (Nat.lt_succ_self _) rfl).mp rb
      refine ⟨t :: front, c, rfl, kc, ?_, ?_⟩
      · rw [kinds_cons, kt]
        exact .semicolon dv
      · rw [kinds_cons, kt, nestedWithin_cons_iff rfl rfl]
        exact nw
    · obtain ⟨front, c, rfl, kc, dvs, nws⟩ := (ih _ rd.length_lt rfl).mp rb
      obtain ⟨first, eq, dv, nw⟩ := rs.sound rd
      refine ⟨first ++ front, c, by rw [eq, List.append_assoc], kc, ?_, ?_⟩
      · rw [kinds_append] at dv ⊢
        exact .cons dv dvs
      · rw [kinds_append, dv.nested.within_append_iff]
        exact ⟨nw, nws⟩
  · rintro ⟨front, c, rfl, kc, dv, nw⟩
    generalize eq : kinds front = ks at dv nw
    generalize eqr : kinds (c :: rest) = ls at dv
    cases dv with
    | nil =>
      obtain rfl := kinds_eq_nil_iff.mp eq
      exact .inl ⟨c, rfl, kc, rfl⟩
    | semicolon dv =>
      obtain ⟨t, us, rfl, kt, rfl⟩ := kinds_eq_cons_iff.mp eq
      rw [nestedWithin_cons_iff rfl rfl] at nw
      subst eqr
      refine .inr (.inl ⟨t, us ++ c :: rest, rfl, kt, ?_⟩)
      exact (ih _ (Nat.lt_succ_self _) rfl).mpr ⟨us, c, rfl, kc, dv, nw⟩
    | cons dv dvs =>
      obtain ⟨first, more, rfl, rfl, rfl⟩ := kinds_eq_append_iff.mp eq
      subst eqr
      obtain ⟨wf, wm⟩ := dv.nested.within_append_iff.mp nw
      rw [← kinds_append] at dv
      -- No statement starts with an operator, so the first one ends where it is derived to end.
      have rd := rs.complete dv wf (by
        rw [kinds_append]
        apply dvs.noOperatorNext
        intro word next
        rw [kinds_cons, kc] at next
        cases next)
      obtain ⟨t, us, rfl, nobrace, nosemi⟩ := head_of_derives_statement dv
      rw [List.append_assoc]
      refine .inr (.inr ⟨t, us ++ (more ++ c :: rest), rfl, nobrace, nosemi, _, _, _, rd, ?_, rfl⟩)
      refine (ih _ ?_ rfl).mpr ⟨more, c, rfl, kc, dvs, wm⟩
      simp only [List.length_append, List.length_cons]
      omega

/-- What is read as a lone value is derived as a literal or as a relation in parentheses. -/
lemma derives_of_reads_value {t : Token} {us : List Token} {x : Expression}
    (start : startsValue t.kind = true) (rd : Reads (operand room (t :: us)) x rest) :
    ∃ front, t :: us = front ++ rest ∧
      DerivesStatement (kinds front) (kinds rest) (.expression x) ∧
      NestedWithin room (kinds front) := by
  obtain ⟨front, eq, dv, nw⟩ := reads_operand_iff.mp rd
  refine ⟨front, eq, ?_, nw⟩
  generalize eqk : kinds front = ks at dv
  cases dv with
  | literal dv => exact .literal dv
  | name =>
    obtain ⟨t', rfl, kt⟩ := kinds_eq_singleton_iff.mp eqk
    cases eq
    rw [kt] at start
    cases start
  | paren dv => exact .paren dv

/-- Statements are read when the blocks inside them are. -/
lemma ReadsBlocks.statementWith {read : BlockOwner → Position → Production (List Statement)}
    (rb : ReadsBlocks room read) : ReadsStatements room (statementWith read room) where
  sound := by
    intro ts s rest reads
    cases reads_statementWith_iff.mp reads with
    | @control t _ _ _ _ _ kt rc =>
      obtain ⟨o, mid, rx, ko, rd⟩ := reads_controlled_iff.mp rc
      obtain ⟨fx, rfl, dx, wx⟩ := derives_of_reads_expression rx
      obtain ⟨fb, rfl, db, wb⟩ := rb.mp rd
      refine ⟨t :: (fx ++ o :: fb), by simp, ?_, ?_⟩
      · rw [kinds_cons, kinds_append, kinds_cons, kt, ko]
        exact .control dx db
      · rw [kinds_cons, kinds_append, kinds_cons, kt, ko, nestedWithin_cons_iff rfl rfl,
          dx.nested.within_append_iff]
        exact ⟨wx, wb⟩
    | @declaration t _ _ _ _ kt rd =>
      obtain ⟨front, rfl, dv, nw⟩ := reads_declaration_iff_derives.mp rd
      refine ⟨t :: front, rfl, ?_, ?_⟩
      · rw [kinds_cons, kt]
        exact .declaration dv
      · rw [kinds_cons, kt, nestedWithin_cons_iff rfl rfl]
        exact nw
    | binding _ rd =>
      obtain ⟨front, eq, dv, nw⟩ := derives_of_reads_declarator rd
      exact ⟨front, eq, .binding dv, nw⟩
    | @block t _ _ _ kt rd =>
      obtain ⟨front, rfl, dv, nw⟩ := rb.mp rd
      refine ⟨t :: front, rfl, ?_, ?_⟩
      · rw [kinds_cons, kt]
        exact .block dv
      · rw [kinds_cons, kt]
        exact nw
    | value start rx => exact derives_of_reads_value start rx
  complete := by
    intro front s rest dv nw no
    rw [reads_statementWith_iff]
    generalize eq : kinds front = ks at dv nw
    generalize eqr : kinds rest = ls at dv
    cases dv with
    | control dx db =>
      subst eqr
      obtain ⟨t, _, rfl, kt, eqx⟩ := kinds_eq_cons_iff.mp eq
      obtain ⟨fx, fo, rfl, rfl, rfl⟩ := kinds_eq_append_iff.mp eqx
      rw [nestedWithin_cons_iff rfl rfl] at nw
      obtain ⟨wx, wb⟩ := dx.nested.within_append_iff.mp nw
      -- The block starts with a brace, so the condition is read as far as it goes.
      obtain ⟨o, fb, rfl, ko⟩ := head_of_derives_block db
      rw [kinds_cons, ko] at db wb
      rw [List.cons_append]
      refine .control kt ?_
      refine reads_controlled_iff.mpr ⟨o, fb ++ rest, ?_, ko, rb.mpr ⟨fb, rfl, db, wb⟩⟩
      rw [List.append_assoc]
      apply reads_expression_of_derives dx wx
      intro word next
      rw [List.cons_append, kinds_cons, ko] at next
      cases next
    | declaration dv =>
      subst eqr
      cases dv with
      | declare ds ends =>
        obtain ⟨t, us, rfl, kt, eqd⟩ := kinds_eq_cons_iff.mp eq
        rw [nestedWithin_cons_iff rfl rfl] at nw
        rw [List.cons_append]
        refine .declaration kt ?_
        refine reads_declaration_iff_derives.mpr ⟨us, rfl, ?_, ?_⟩
        · rw [eqd]
          exact .declare ds ends
        · rw [eqd]
          exact nw
    | binding dv =>
      subst eq
      have rd := reads_declarator_of_derives dv nw no
      obtain ⟨t, c, mid, n, value, eq, kt, _⟩ := reads_declarator_iff.mp rd
      rw [eq] at rd ⊢
      exact .binding kt rd
    | block dv =>
      subst eq eqr
      obtain ⟨t, us, rfl, kt⟩ := head_of_derives_block dv
      rw [kinds_cons, kt] at dv nw
      exact .block kt (rb.mpr ⟨us, rfl, dv, nw⟩)
    | @literal _ _ x dv =>
      have rx : Reads (operand room (front ++ rest)) x rest := by
        subst eq
        exact reads_operand_iff.mpr ⟨front, rfl, .literal dv, nw⟩
      obtain ⟨k, rfl, _⟩ := dv.single
      obtain ⟨t, rfl, rfl⟩ := kinds_eq_singleton_iff.mp eq
      refine .value ?_ rx
      generalize t.kind = k at dv
      cases dv <;> rfl
    | @paren _ _ x dv =>
      have rx : Reads (operand room (front ++ rest)) x rest := by
        subst eq
        exact reads_operand_iff.mpr ⟨front, rfl, .paren dv, nw⟩
      cases dv with
      | relation _ _ =>
        obtain ⟨t, us, rfl, kt, _⟩ := kinds_eq_cons_iff.mp eq
        refine .value ?_ rx
        rw [kt]
        rfl

/-- Blocks are read. The room decreases with each brace, so the induction is on it. -/
lemma readsBlocks_block (room : Nat) : ReadsBlocks room (block room) := by
  induction room with
  | zero =>
    intro owner opening ts body rest
    rw [reads_block_iff]
    constructor
    · rintro ⟨r, eq, _⟩
      cases eq
    · rintro ⟨front, _, _, nw⟩
      exact absurd nw not_nestedWithin_zero
  | succ room ih =>
    intro owner opening ts body rest
    have rs : ReadsStatements room (statement room) := ReadsBlocks.statementWith ih
    rw [reads_block_iff]
    constructor
    · rintro ⟨_, eq, rd⟩
      cases eq
      obtain ⟨front, c, rfl, kc, dv, nw⟩ := rs.reads_blockBody_iff.mp rd
      refine ⟨front ++ [c], by simp, ?_, ?_⟩
      · rw [kinds_cons, kc] at dv
        rw [kinds_append, kinds_cons, kc]
        exact .braces dv
      · rw [kinds_append, kinds_cons, kc]
        exact dv.nested.within_enclosed_iff.mpr nw
    · rintro ⟨front, rfl, dv, nw⟩
      refine ⟨room, rfl, rs.reads_blockBody_iff.mpr ?_⟩
      generalize eq : kinds front = ks at dv nw
      cases dv with
      | braces dv =>
        obtain ⟨inner, _, rfl, rfl, eqc⟩ := kinds_eq_append_iff.mp eq
        obtain ⟨c, rfl, kc⟩ := kinds_eq_singleton_iff.mp eqc
        refine ⟨inner, c, by simp, kc, ?_, dv.nested.within_enclosed_iff.mp nw⟩
        rw [kinds_cons, kc]
        exact dv

/-- Statements are read. -/
lemma readsStatements_statement (room : Nat) : ReadsStatements room (statement room) :=
  ReadsBlocks.statementWith (readsBlocks_block room)

/-! ## Programs -/

/-- A semicolon in front of statements does not matter. -/
lemma statements_semicolon {t : Token} (kt : t.kind = .semicolon) :
    statements room (t :: ts) = statements room ts := by
  rw [statements.eq_def]
  dsimp only
  rw [kt]

/-- A statement that is read is the first one, and the others are read behind it. -/
lemma statements_of_reads {s : Statement} (rd : Reads (statement room ts) s rest) :
    statements room ts = (statements room rest).map (s :: ·) := by
  obtain ⟨front, rfl, dv, _⟩ := (readsStatements_statement room).sound rd
  obtain ⟨t, others, rfl, _, nosemi⟩ := head_of_derives_statement dv
  cases eq : statements room rest with
  | ok ss => exact statements_eq_ok_iff.mpr (.inr (.inr ⟨t, _, rfl, nosemi, s, rest, ss, rd, eq, rfl⟩))
  | error e => exact statements_eq_error_iff.mpr (.inr ⟨t, _, rfl, nosemi, .inr ⟨s, rest, rd, eq⟩⟩)

/-- Exactly what is derived as statements is read as such up to the end. -/
lemma statements_eq_ok_iff_derives {ss : List Statement} :
    statements room ts = .ok ss ↔
      DerivesStatements (kinds ts) [] ss ∧ NestedWithin room (kinds ts) := by
  have rs := readsStatements_statement room
  obtain ⟨length, len⟩ : ∃ n, ts.length = n := ⟨_, rfl⟩
  induction length using Nat.strongRecOn generalizing ts ss with
  | _ length ih =>
  subst len
  rw [statements_eq_ok_iff]
  constructor
  · rintro (⟨rfl, rfl⟩ | ⟨t, us, rfl, kt, eq⟩ | ⟨t, us, rfl, _, s, mid, ss', rd, eq, rfl⟩)
    · exact ⟨.nil, nestedWithin_nil⟩
    · obtain ⟨dv, nw⟩ := (ih _ (Nat.lt_succ_self _) rfl).mp eq
      rw [kinds_cons, kt, nestedWithin_cons_iff rfl rfl]
      exact ⟨.semicolon dv, nw⟩
    · obtain ⟨dvs, nws⟩ := (ih _ rd.length_lt rfl).mp eq
      obtain ⟨front, eqf, dv, nw⟩ := rs.sound rd
      rw [eqf, kinds_append, dv.nested.within_append_iff]
      refine ⟨.cons ?_ dvs, nw, nws⟩
      rw [List.append_nil]
      exact dv
  · rintro ⟨dv, nw⟩
    generalize eq : kinds ts = ks at dv nw
    generalize eqr : ([] : List TokenKind) = ls at dv
    cases dv with
    | nil =>
      obtain rfl := kinds_eq_nil_iff.mp eq
      exact .inl ⟨rfl, rfl⟩
    | semicolon dv =>
      subst eqr
      obtain ⟨t, us, rfl, kt, rfl⟩ := kinds_eq_cons_iff.mp eq
      rw [nestedWithin_cons_iff rfl rfl] at nw
      exact .inr (.inl ⟨t, us, rfl, kt, (ih _ (Nat.lt_succ_self _) rfl).mpr ⟨dv, nw⟩⟩)
    | cons dv dvs =>
      subst eqr
      obtain ⟨first, more, rfl, rfl, rfl⟩ := kinds_eq_append_iff.mp eq
      obtain ⟨wf, wm⟩ := dv.nested.within_append_iff.mp nw
      -- As inside a block, the first statement ends where the next one or a semicolon starts.
      have no : NoOperatorNext (kinds more ++ []) := dvs.noOperatorNext nofun
      rw [List.append_nil] at dv no
      have rd := rs.complete dv wf no
      obtain ⟨t, us, rfl, _, nosemi⟩ := head_of_derives_statement dv
      refine .inr (.inr ⟨t, us ++ more, rfl, nosemi, _, _, _, rd, ?_, rfl⟩)
      exact (ih _ rd.length_lt rfl).mpr ⟨dvs, wm⟩

end Grammar

/-- Tokens are a program if its statements are read from all of them. -/
lemma Program.ofTokens_eq_ok_iff_statements {ts : List Token} {p : Program} :
    Program.ofTokens ts = .ok p ↔ Grammar.statements nestingLimit ts = .ok p.body := by
  unfold Program.ofTokens Program.ofTokensWithin
  cases Grammar.statements nestingLimit ts with
  | error e => exact ⟨nofun, nofun⟩
  | ok ss =>
    constructor
    · rintro ⟨⟩
      rfl
    · rintro ⟨⟩
      rfl

/-- Tokens that are no program within a limit have the fault of their statements. -/
lemma Program.ofTokensWithin_eq_error_iff {limit : Nat} {ts : List Token} {e : ParseError} :
    Program.ofTokensWithin limit ts = .error e ↔ Grammar.statements limit ts = .error e := by
  unfold Program.ofTokensWithin
  cases Grammar.statements limit ts with
  | error f =>
    constructor
    · rintro ⟨⟩
      rfl
    · rintro ⟨⟩
      rfl
  | ok ss => exact ⟨nofun, nofun⟩

/-- Tokens that are no program have the fault of their statements. -/
lemma Program.ofTokens_eq_error_iff_statements {ts : List Token} {e : ParseError} :
    Program.ofTokens ts = .error e ↔ Grammar.statements nestingLimit ts = .error e :=
  Program.ofTokensWithin_eq_error_iff

/-- Exactly the programs that the grammar derives within a limit are parsed within it. -/
lemma Program.ofTokensWithin_eq_ok_iff {limit : Nat} {ts : List Token} {p : Program} :
    Program.ofTokensWithin limit ts = .ok p ↔
      DerivesProgram (kinds ts) p ∧ NestedWithin limit (kinds ts) := by
  rw [DerivesProgram, ← Grammar.statements_eq_ok_iff_derives, Program.ofTokensWithin]
  constructor
  · intro eq
    split at eq
    · cases eq
    · rename_i eqs
      cases eq
      exact eqs
  · intro eq
    rw [eq]

/-- A token list derives at most one program, however deep its brackets are nested. -/
lemma DerivesProgram.unique {ts : List Token} {p q : Program}
    (dp : DerivesProgram (kinds ts) p) (dq : DerivesProgram (kinds ts) q) : p = q := by
  -- With enough room the parser reads both programs, and it has one answer.
  have nw := nestedWithin_length (kinds ts)
  have okp := Program.ofTokensWithin_eq_ok_iff.mpr ⟨dp, nw⟩
  have okq := Program.ofTokensWithin_eq_ok_iff.mpr ⟨dq, nw⟩
  rw [okp] at okq
  exact Except.ok.inj okq

/-- A token list is parsed as a program exactly when the grammar derives the program from it and at
no point more than 256 blocks and parentheses are open. No token list derives two programs. -/
theorem Program.ofTokens_eq_ok_iff_derives (ts : List Token) :
    (∀ p, Program.ofTokens ts = .ok p ↔
      DerivesProgram (kinds ts) p ∧ NestedWithin 256 (kinds ts)) ∧
    {p | DerivesProgram (kinds ts) p}.Subsingleton := by
  refine ⟨?_, ?_⟩
  · intro p
    exact Program.ofTokensWithin_eq_ok_iff
  · intro p dp q dq
    exact DerivesProgram.unique dp dq

end LatinToScript
