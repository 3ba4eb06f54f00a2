import LatinToScript.Program.Parse
import LatinToScript.Proofs.Grammar.Derivation
import LatinToScript.Proofs.Token.Balance
import Mathlib.Tactic.Common

/-!
# What productions read, and how they fail

For each production two equivalences: when it reads a thing and leaves some tokens (`reads_*_iff`),
and when it fails with a fault (`*_eq_error_iff`). Productions carry the bound on the tokens that they
leave in their types; `Reads` takes it away, so that nothing after this module has to unfold a
production.
-/

namespace LatinToScript

/-- A result is a success with the thing `a` and the tokens `rest` left. -/
def Reads {α : Type} {Fits : List Token → Prop}
    (result : Except ParseError (α × { rest : List Token // Fits rest })) (a : α)
    (rest : List Token) : Prop :=
  ∃ fits, result = .ok (a, ⟨rest, fits⟩)

/-- A production leaves fewer tokens than it gets. -/
lemma Reads.length_lt {α : Type} {ts rest : List Token} {a : α}
    {result : Except ParseError (α × Rest ts)} (rd : Reads result a rest) :
    rest.length < ts.length := by
  obtain ⟨fits, _⟩ := rd
  exact fits

/-! ## Combinators -/

namespace Production

variable {α β : Type} {ts rest : List Token} {e : ParseError}

/-- One token is read if it is there and fits. -/
lemma reads_token_iff {read : Token → Except ParseError α} {a : α} :
    Reads (token read ts) a rest ↔ ∃ t, ts = t :: rest ∧ read t = .ok a := by
  cases ts with
  | nil => simp [Reads, token]
  | cons t ts =>
    cases eq : read t with
    | error e => simp [Reads, token, eq]
    | ok b =>
      simp only [Reads, token, eq, Except.ok.injEq, Prod.mk.injEq, Subtype.mk.injEq,
        List.cons.injEq]
      constructor
      · rintro ⟨_, rfl, rfl⟩
        exact ⟨t, ⟨rfl, rfl⟩, eq⟩
      · rintro ⟨_, ⟨rfl, rfl⟩, eq'⟩
        rw [eq] at eq'
        exact ⟨Nat.lt_succ_self _, Except.ok.inj eq', rfl⟩

/-- One token is at fault if it is missing or does not fit. -/
lemma token_eq_error_iff {read : Token → Except ParseError α} :
    token read ts = .error e ↔
      (ts = [] ∧ e = .unexpectedEnd) ∨ ∃ t us, ts = t :: us ∧ read t = .error e := by
  cases ts with
  | nil => simp [token, eq_comm]
  | cons t ts =>
    cases eq : read t with
    | error e' => simp [token, eq]
    | ok b => simp [token, eq]

/-- A value of two productions is read if each of them reads its part. -/
lemma reads_andThen_iff {first : Production α} {second : α → Production β} {b : β} :
    Reads (first.andThen second ts) b rest ↔
      ∃ a mid, Reads (first ts) a mid ∧ Reads (second a mid) b rest := by
  rw [andThen]
  constructor
  · rintro ⟨fits, eq⟩
    split at eq
    · cases eq
    · rename_i a mid eqa
      split at eq
      · cases eq
      · rename_i b' rest' eqb
        cases eq
        exact ⟨a, mid.val, ⟨mid.property, eqa⟩, ⟨rest'.property, eqb⟩⟩
  · rintro ⟨a, mid, ⟨fitsa, eqa⟩, ⟨fitsb, eqb⟩⟩
    refine ⟨Nat.lt_trans fitsb fitsa, ?_⟩
    simp only [eqa, eqb]

/-- The fault of two productions is that of the first one, or that of the second one behind it. -/
lemma andThen_eq_error_iff {first : Production α} {second : α → Production β} :
    first.andThen second ts = .error e ↔
      first ts = .error e ∨ ∃ a mid, Reads (first ts) a mid ∧ second a mid = .error e := by
  rw [andThen]
  constructor
  · intro eq
    split at eq
    · rename_i eqa
      cases eq
      exact .inl eqa
    · rename_i a mid eqa
      split at eq
      · rename_i eqb
        cases eq
        exact .inr ⟨a, mid.val, ⟨mid.property, eqa⟩, eqb⟩
      · cases eq
  · rintro (eqa | ⟨a, mid, ⟨fitsa, eqa⟩, eqb⟩)
    · simp only [eqa]
    · simp only [eqa, eqb]

/-- A changed value is read from the same tokens. -/
lemma reads_map_iff {f : α → β} {production : Production α} {b : β} :
    Reads (production.map f ts) b rest ↔ ∃ a, Reads (production ts) a rest ∧ b = f a := by
  rw [map]
  constructor
  · rintro ⟨fits, eq⟩
    split at eq
    · cases eq
    · rename_i a rest' eqa
      cases eq
      exact ⟨a, ⟨fits, eqa⟩, rfl⟩
  · rintro ⟨a, ⟨fits, eqa⟩, rfl⟩
    refine ⟨fits, ?_⟩
    simp only [eqa]

/-- A change of the value leaves the fault. -/
lemma map_eq_error_iff {f : α → β} {production : Production α} :
    production.map f ts = .error e ↔ production ts = .error e := by
  rw [map]
  cases production ts <;> simp

/-- A production takes one token, of the kind `kind a` for some `a`, and finds fault with every other
one. -/
structure AsksFor (production : Production α) (kind : α → TokenKind) (expectation : Expectation) :
    Prop where
  reads_iff : ∀ {ts a rest}, Reads (production ts) a rest ↔ ∃ t, ts = t :: rest ∧ t.kind = kind a
  error_iff : ∀ {ts e}, production ts = .error e ↔
    (ts = [] ∧ e = .unexpectedEnd) ∨
      ∃ t us, ts = t :: us ∧ (∀ a, t.kind ≠ kind a) ∧ e = .expected expectation t.kind t.position

/-- One token is asked for when it is read if it is of the kind, and complained about if not. -/
lemma asksFor_token {read : Token → Except ParseError α} {kind : α → TokenKind}
    {expectation : Expectation}
    (ok : ∀ t a, read t = .ok a ↔ t.kind = kind a)
    (error : ∀ t e, read t = .error e ↔
      (∀ a, t.kind ≠ kind a) ∧ e = .expected expectation t.kind t.position) :
    AsksFor (token read) kind expectation where
  reads_iff := by simp only [reads_token_iff, ok, implies_true]
  error_iff := by simp only [token_eq_error_iff, error, implies_true]

end Production

namespace Grammar

open Production

variable {ts rest : List Token} {e : ParseError} {room : Nat}

/-! ## Single tokens -/

/-- An operator is asked for by its word. -/
lemma asksFor_operator : AsksFor operator .operator .operator := by
  apply asksFor_token
  all_goals
    rintro ⟨kind, position⟩ x
    cases kind <;> simp [eq_comm]

/-- The end of a pair of parentheses is asked for. -/
lemma asksFor_closingParenthesis :
    AsksFor closingParenthesis (fun _ => .closing .parenthesis) .closingParenthesis := by
  apply asksFor_token
  all_goals
    rintro ⟨kind, position⟩ x
    rcases kind with _ | _ | _ | _ | _ | _ | _ | _ | _ | _ | ⟨_ | _⟩ <;> simp [eq_comm]

/-- The name of a declarator is asked for. -/
lemma asksFor_boundName : AsksFor boundName .name .name := by
  apply asksFor_token
  all_goals
    rintro ⟨kind, position⟩ x
    cases kind <;> simp [eq_comm]

/-- The word between a name and its value is asked for. -/
lemma asksFor_copula : AsksFor copula (fun _ => .copula) .copula := by
  apply asksFor_token
  all_goals
    rintro ⟨kind, position⟩ x
    cases kind <;> simp [eq_comm]

/-! ## Expressions -/

/-- Behind an opening parenthesis stand two operands with an operator between them, and the closing one. -/
lemma reads_parenthesized_iff {operand : Production Expression} {x : Expression} :
    Reads (parenthesized operand ts) x rest ↔
      ∃ left t mid word right c,
        Reads (operand ts) left (t :: mid) ∧ t.kind = .operator word ∧
        Reads (operand mid) right (c :: rest) ∧ c.kind = .closing .parenthesis ∧
        x = .relation left word right := by
  simp only [parenthesized, reads_andThen_iff, reads_map_iff, asksFor_operator.reads_iff,
    asksFor_closingParenthesis.reads_iff]
  constructor
  · rintro ⟨left, _, rl, word, mid, ⟨t, rfl, kt⟩, right, _, rr, _, ⟨c, rfl, kc⟩, rfl⟩
    exact ⟨left, t, mid, word, right, c, rl, kt, rr, kc, rfl⟩
  · rintro ⟨left, t, mid, word, right, c, rl, kt, rr, kc, rfl⟩
    exact ⟨left, _, rl, word, mid, ⟨t, rfl, kt⟩, right, _, rr, (), ⟨c, rfl, kc⟩, rfl⟩

/-- The fault in parentheses is that of the first of their four parts that has one. -/
lemma parenthesized_eq_error_iff {operand : Production Expression} :
    parenthesized operand ts = .error e ↔
      operand ts = .error e ∨
      ∃ left us, Reads (operand ts) left us ∧
        (operator us = .error e ∨
        ∃ t mid word, us = t :: mid ∧ t.kind = .operator word ∧
          (operand mid = .error e ∨
          ∃ right vs, Reads (operand mid) right vs ∧ closingParenthesis vs = .error e)) := by
  simp only [parenthesized, andThen_eq_error_iff, map_eq_error_iff, asksFor_operator.reads_iff]
  constructor
  · rintro (ef | ⟨left, us, rl, eo | ⟨word, mid, ⟨t, rfl, kt⟩, er⟩⟩)
    · exact .inl ef
    · exact .inr ⟨left, us, rl, .inl eo⟩
    · exact .inr ⟨left, _, rl, .inr ⟨t, mid, word, rfl, kt, er⟩⟩
  · rintro (ef | ⟨left, us, rl, eo | ⟨t, mid, word, rfl, kt, er⟩⟩)
    · exact .inl ef
    · exact .inr ⟨left, us, rl, .inl eo⟩
    · exact .inr ⟨left, _, rl, .inr ⟨word, mid, ⟨t, rfl, kt⟩, er⟩⟩

/-- A token that an operand can start with. -/
def startsOperand : TokenKind → Bool
  | .number _ | .text _ | .boolean _ | .null | .name _ | .opening .parenthesis => true
  | _ => false

/-- Without tokens there is no operand. -/
lemma not_reads_operand_nil {x : Expression} : ¬ Reads (operand room []) x rest := by
  rintro ⟨_, eq⟩
  cases room <;> cases eq

/-- An operand is a literal, a name, or a relation in parentheses for which there is room. -/
lemma reads_operand_cons_iff {t : Token} {x : Expression} :
    Reads (operand room (t :: ts)) x rest ↔
      (DerivesLiteral [t.kind] x ∧ rest = ts) ∨
      (∃ n, t.kind = .name n ∧ x = .name n ∧ rest = ts) ∨
      (t.kind = .opening .parenthesis ∧
        ∃ r, room = r + 1 ∧ Reads (parenthesized (operand r) ts) x rest) := by
  rw [operand.eq_def]
  dsimp only
  constructor
  · rintro ⟨fits, eq⟩
    split at eq
    case h_1 kt => cases eq; rw [kt]; exact .inl ⟨.number, rfl⟩
    case h_2 kt => cases eq; rw [kt]; exact .inl ⟨.text, rfl⟩
    case h_3 kt => cases eq; rw [kt]; exact .inl ⟨.boolean, rfl⟩
    case h_4 kt => cases eq; rw [kt]; exact .inl ⟨.null, rfl⟩
    case h_5 kt => cases eq; exact .inr (.inl ⟨_, kt, rfl, rfl⟩)
    case h_6 kt =>
      cases room with
      | zero => cases eq
      | succ r =>
        dsimp only at eq
        split at eq
        · cases eq
        · rename_i rest' eq'
          cases eq
          exact .inr (.inr ⟨kt, r, rfl, rest'.property, eq'⟩)
    case h_7 => cases eq
  · rintro (⟨lit, rfl⟩ | ⟨n, kt, rfl, rfl⟩ | ⟨kt, r, rfl, fits, eq⟩)
    · generalize kt : t.kind = k at lit
      cases lit <;> exact ⟨Nat.lt_succ_self _, rfl⟩
    · rw [kt]
      exact ⟨Nat.lt_succ_self _, rfl⟩
    · rw [kt]
      refine ⟨Nat.lt_succ_of_lt fits, ?_⟩
      dsimp only
      rw [eq]

/-- How an operand fails. -/
inductive OperandFails : Nat → List Token → ParseError → Prop where
  /-- There is no token. -/
  | finished {room : Nat} :
    OperandFails room [] .unexpectedEnd
  /-- No operand starts with the token. -/
  | start {room t us} :
    startsOperand t.kind = false →
    OperandFails room (t :: us) (.expected .expression t.kind t.position)
  /-- There is no room for a parenthesis. -/
  | deep {t us} :
    t.kind = .opening .parenthesis →
    OperandFails 0 (t :: us) (.nestingTooDeep t.position)
  /-- The fault is in a parenthesis. -/
  | inside {room t us e} :
    t.kind = .opening .parenthesis →
    parenthesized (operand room) us = .error e →
    OperandFails (room + 1) (t :: us) e

/-- Operands fail in these ways and in no other. -/
lemma operand_eq_error_iff : operand room ts = .error e ↔ OperandFails room ts e := by
  rw [operand.eq_def]
  constructor
  · intro eq
    cases ts with
    | nil =>
      cases eq
      exact .finished
    | cons t us =>
      dsimp only at eq
      split at eq
      case h_6 kt =>
        cases room with
        | zero =>
          cases eq
          exact .deep kt
        | succ r =>
          dsimp only at eq
          split at eq
          · rename_i eqp
            cases eq
            exact .inside kt eqp
          · cases eq
      case h_7 nonum notext nobool nonull noname noparen =>
        cases eq
        apply OperandFails.start
        generalize t.kind = k at *
        unfold startsOperand
        split <;> simp_all
      all_goals cases eq
  · intro fails
    cases fails with
    | finished => rfl
    | @start _ t _ start =>
      dsimp only
      generalize t.kind = k at start
      split
      case h_7 => rfl
      all_goals cases start
    | deep kt =>
      dsimp only
      rw [kt]
    | inside kt eqp =>
      dsimp only
      rw [kt]
      dsimp only
      rw [eqp]

/-- No operator comes next. -/
def NoOperatorNext (ks : List TokenKind) : Prop :=
  ∀ word, ks.head? ≠ some (.operator word)

/-- An expression is one operand without an operator behind it, or two with one between them. -/
lemma reads_expression_iff {x : Expression} :
    Reads (expression room ts) x rest ↔
      (Reads (operand room ts) x rest ∧ NoOperatorNext (kinds rest)) ∨
      ∃ left t mid word right,
        Reads (operand room ts) left (t :: mid) ∧ t.kind = .operator word ∧
        Reads (operand room mid) right rest ∧ x = .relation left word right := by
  rw [expression]
  constructor
  · rintro ⟨fits, eq⟩
    split at eq
    · cases eq
    · rename_i left shorter eql
      cases eq
      refine .inl ⟨⟨shorter, eql⟩, ?_⟩
      intro word next
      cases next
    · rename_i left t mid shorter eql
      split at eq
      · rename_i word kt
        split at eq
        · cases eq
        · rename_i right rest' eqr
          cases eq
          exact .inr ⟨left, t, mid, word, right, ⟨shorter, eql⟩, kt, ⟨rest'.property, eqr⟩, rfl⟩
      · rename_i other
        cases eq
        refine .inl ⟨⟨shorter, eql⟩, ?_⟩
        intro word next
        exact other word (Option.some.inj next)
  · rintro (⟨⟨fits, eq⟩, no⟩ | ⟨left, t, mid, word, right, ⟨fitsl, eql⟩, kt, ⟨fitsr, eqr⟩, rfl⟩)
    · refine ⟨fits, ?_⟩
      rw [eq]
      cases rest with
      | nil => rfl
      | cons t mid =>
        dsimp only
        split
        · rename_i word kt
          exact absurd (congrArg some kt) (no word)
        · rfl
    · refine ⟨Nat.lt_trans fitsr (Nat.lt_of_succ_lt fitsl), ?_⟩
      rw [eql]
      dsimp only
      rw [kt]
      dsimp only
      rw [eqr]

/-- The fault of an expression is that of its first operand, or that of the second one behind an operator. -/
lemma expression_eq_error_iff :
    expression room ts = .error e ↔
      operand room ts = .error e ∨
      ∃ left t mid word,
        Reads (operand room ts) left (t :: mid) ∧ t.kind = .operator word ∧
        operand room mid = .error e := by
  rw [expression]
  constructor
  · intro eq
    split at eq
    · rename_i eqo
      cases eq
      exact .inl eqo
    · cases eq
    · rename_i left t mid shorter eql
      split at eq
      · rename_i word kt
        split at eq
        · rename_i eqr
          cases eq
          exact .inr ⟨left, t, mid, word, ⟨shorter, eql⟩, kt, eqr⟩
        · cases eq
      · cases eq
  · rintro (eqo | ⟨left, t, mid, word, ⟨fitsl, eql⟩, kt, eqr⟩)
    · rw [eqo]
    · rw [eql]
      dsimp only
      rw [kt]
      dsimp only
      rw [eqr]

/-! ## Declarations -/

/-- A declarator is a name, the word behind it and a value. -/
lemma reads_declarator_iff {d : Declarator} :
    Reads (declarator room ts) d rest ↔
      ∃ t c mid n value,
        ts = t :: c :: mid ∧ t.kind = .name n ∧ c.kind = .copula ∧
        Reads (expression room mid) value rest ∧ d = ⟨n, value⟩ := by
  simp only [declarator, reads_andThen_iff, reads_map_iff, asksFor_boundName.reads_iff,
    asksFor_copula.reads_iff]
  constructor
  · rintro ⟨n, _, ⟨t, rfl, kt⟩, _, mid, ⟨c, rfl, kc⟩, value, rv, rfl⟩
    exact ⟨t, c, mid, n, value, rfl, kt, kc, rv, rfl⟩
  · rintro ⟨t, c, mid, n, value, rfl, kt, kc, rv, rfl⟩
    exact ⟨n, _, ⟨t, rfl, kt⟩, (), mid, ⟨c, rfl, kc⟩, value, rv, rfl⟩

/-- The fault of a declarator is that of the first of its three parts that has one. -/
lemma declarator_eq_error_iff :
    declarator room ts = .error e ↔
      boundName ts = .error e ∨
      ∃ t us n, ts = t :: us ∧ t.kind = .name n ∧
        (copula us = .error e ∨
        ∃ c mid, us = c :: mid ∧ c.kind = .copula ∧ expression room mid = .error e) := by
  simp only [declarator, andThen_eq_error_iff, map_eq_error_iff, asksFor_boundName.reads_iff,
    asksFor_copula.reads_iff]
  constructor
  · rintro (en | ⟨n, us, ⟨t, rfl, kt⟩, ec | ⟨_, mid, ⟨c, rfl, kc⟩, ev⟩⟩)
    · exact .inl en
    · exact .inr ⟨t, us, n, rfl, kt, .inl ec⟩
    · exact .inr ⟨t, _, n, rfl, kt, .inr ⟨c, mid, rfl, kc, ev⟩⟩
  · rintro (en | ⟨t, us, n, rfl, kt, ec | ⟨c, mid, rfl, kc, ev⟩⟩)
    · exact .inl en
    · exact .inr ⟨n, us, ⟨t, rfl, kt⟩, .inl ec⟩
    · exact .inr ⟨n, _, ⟨t, rfl, kt⟩, .inr ⟨(), mid, ⟨c, rfl, kc⟩, ev⟩⟩

/-- Declarators go on until the declaration ends. -/
lemma reads_declarators_iff {ds : List Declarator} :
    Reads (declarators room ts) ds rest ↔
      (ds = [] ∧ ∃ ending, ts = ending ++ rest ∧ EndsDeclaration (kinds ending) (kinds rest)) ∨
      ∃ d mid ds', Reads (declarator room ts) d mid ∧ Reads (declarators room mid) ds' rest ∧
        ds = d :: ds' := by
  rw [declarators.eq_def]
  cases ts with
  | nil =>
    constructor
    · rintro ⟨_, eq⟩
      cases eq
      exact .inl ⟨rfl, [], rfl, .finish⟩
    · rintro (⟨rfl, ending, eq, _⟩ | ⟨d, mid, ds', rd, _⟩)
      · obtain ⟨rfl, rfl⟩ := List.append_eq_nil_iff.mp eq.symm
        exact ⟨Nat.le_refl _, rfl⟩
      · obtain ⟨t, c, us, n, value, eq, _⟩ := reads_declarator_iff.mp rd
        cases eq
  | cons t us =>
    dsimp only
    constructor
    · rintro ⟨_, eq⟩
      split at eq
      · rename_i kt
        cases eq
        refine .inl ⟨rfl, [t], rfl, ?_⟩
        rw [kinds_cons, kt]
        exact .semicolon
      · rename_i kt
        cases eq
        refine .inl ⟨rfl, [], rfl, ?_⟩
        rw [kinds_cons, kt]
        exact .brace
      · split at eq
        · cases eq
        · rename_i d mid eqd
          split at eq
          · cases eq
          · rename_i ds' rest' eqs
            cases eq
            exact .inr ⟨d, mid.val, ds', ⟨mid.property, eqd⟩, ⟨rest'.property, eqs⟩, rfl⟩
    · rintro (⟨rfl, ending, eq, ends⟩ | ⟨d, mid, ds', rd, ⟨fitss, eqs⟩, rfl⟩)
      · generalize ke : kinds ending = es at ends
        generalize kr : kinds rest = rs at ends
        cases ends with
        | semicolon =>
          obtain ⟨t', rfl, kt⟩ := List.map_eq_singleton_iff.mp ke
          cases eq
          rw [kt]
          exact ⟨Nat.le_succ _, rfl⟩
        | brace =>
          obtain rfl := List.map_eq_nil_iff.mp ke
          cases eq
          rw [kinds_cons, List.cons.injEq] at kr
          rw [kr.1]
          exact ⟨Nat.le_refl _, rfl⟩
        | finish =>
          obtain rfl := List.map_eq_nil_iff.mp ke
          cases eq
          cases kr
      · -- a declarator starts with a name, so neither end of a declaration comes first
        have rd' := rd
        obtain ⟨fitsd, eqd⟩ := rd
        obtain ⟨t', c, mid', n, value, eq, kt, _⟩ := reads_declarator_iff.mp rd'
        cases eq
        refine ⟨Nat.le_trans fitss (Nat.le_of_lt fitsd), ?_⟩
        rw [kt]
        dsimp only
        rw [eqd]
        dsimp only
        rw [eqs]

/-- There are no declarators where a semicolon comes next, which is taken, or a closing brace or the end. -/
lemma reads_declarators_nil_iff :
    Reads (declarators room ts) [] rest ↔
      (∃ t, ts = t :: rest ∧ t.kind = .semicolon) ∨
      ts = rest ∧ ∀ t, ts.head? = some t → t.kind = .closing .brace := by
  rw [reads_declarators_iff]
  constructor
  · rintro (⟨_, ending, rfl, ends⟩ | ⟨_, _, _, _, _, eq⟩)
    · generalize eqe : kinds ending = es at ends
      generalize eqr : kinds rest = rs at ends
      cases ends with
      | semicolon =>
        obtain ⟨t, rfl, kt⟩ := kinds_eq_singleton_iff.mp eqe
        exact .inl ⟨t, rfl, kt⟩
      | brace =>
        obtain rfl := kinds_eq_nil_iff.mp eqe
        obtain ⟨t, vs, rfl, kt, _⟩ := kinds_eq_cons_iff.mp eqr
        refine .inr ⟨rfl, ?_⟩
        rintro _ ⟨⟩
        exact kt
      | finish =>
        obtain rfl := kinds_eq_nil_iff.mp eqe
        obtain rfl := kinds_eq_nil_iff.mp eqr
        exact .inr ⟨rfl, nofun⟩
    · cases eq
  · rintro (⟨t, rfl, kt⟩ | ⟨rfl, next⟩)
    · refine .inl ⟨rfl, [t], rfl, ?_⟩
      rw [kinds_cons, kt]
      exact .semicolon
    · refine .inl ⟨rfl, [], rfl, ?_⟩
      cases ts with
      | nil => exact .finish
      | cons t ts =>
        rw [kinds_cons, next t rfl]
        exact .brace

/-- The fault of declarators is that of one of them, at a token that does not end the declaration. -/
lemma declarators_eq_error_iff :
    declarators room ts = .error e ↔
      (∃ t us, ts = t :: us ∧ t.kind ≠ .semicolon ∧ t.kind ≠ .closing .brace ∧
        declarator room ts = .error e) ∨
      ∃ d mid, Reads (declarator room ts) d mid ∧ declarators room mid = .error e := by
  rw [declarators.eq_def]
  cases ts with
  | nil =>
    constructor
    · intro eq
      cases eq
    · rintro (⟨t, us, eq, _⟩ | ⟨d, mid, rd, _⟩)
      · cases eq
      · obtain ⟨t, c, us, n, value, eq, _⟩ := reads_declarator_iff.mp rd
        cases eq
  | cons t us =>
    dsimp only
    constructor
    · intro eq
      split at eq
      · cases eq
      · cases eq
      · rename_i nosemi nobrace
        split at eq
        · rename_i eqd
          cases eq
          exact .inl ⟨t, us, rfl, nosemi, nobrace, eqd⟩
        · rename_i d mid eqd
          split at eq
          · rename_i eqs
            cases eq
            exact .inr ⟨d, mid.val, ⟨mid.property, eqd⟩, eqs⟩
          · cases eq
    · rintro (⟨_, _, eq, nosemi, nobrace, eqd⟩ | ⟨d, mid, rd, eqs⟩)
      · cases eq
        split
        · rename_i kt
          exact absurd kt nosemi
        · rename_i kt
          exact absurd kt nobrace
        · rw [eqd]
      · have rd' := rd
        obtain ⟨fitsd, eqd⟩ := rd
        obtain ⟨t', c, mid', n, value, eq, kt, _⟩ := reads_declarator_iff.mp rd'
        cases eq
        rw [kt]
        dsimp only
        rw [eqd]
        dsimp only
        rw [eqs]

/-- A declaration has at least one declarator. -/
lemma reads_declaration_iff {binding : Binding} {position : Position} {d : Declaration} :
    Reads (declaration room binding position ts) d rest ↔
      ∃ ds, Reads (declarators room ts) ds rest ∧ ds ≠ [] ∧ d = ⟨.latin binding, ds⟩ := by
  rw [declaration]
  constructor
  · rintro ⟨fits, eq⟩
    split at eq
    · cases eq
    · cases eq
    · rename_i x xs rest' eqs
      cases eq
      exact ⟨x :: xs, ⟨fits, eqs⟩, List.cons_ne_nil _ _, rfl⟩
  · rintro ⟨ds, ⟨fits, eqs⟩, some, rfl⟩
    refine ⟨fits, ?_⟩
    rw [eqs]
    cases ds with
    | nil => exact absurd rfl some
    | cons x xs => rfl

/-- The fault of a declaration is that of a declarator, or that there is none. -/
lemma declaration_eq_error_iff {binding : Binding} {position : Position} :
    declaration room binding position ts = .error e ↔
      declarators room ts = .error e ∨
      ∃ rest, Reads (declarators room ts) [] rest ∧ e = .emptyDeclaration position := by
  rw [declaration]
  constructor
  · intro eq
    split at eq
    · rename_i eqs
      cases eq
      exact .inl eqs
    · rename_i rest eqs
      cases eq
      exact .inr ⟨rest.val, ⟨rest.property, eqs⟩, rfl⟩
    · cases eq
  · rintro (eqs | ⟨rest, ⟨fits, eqs⟩, rfl⟩)
    · rw [eqs]
    · rw [eqs]

end Grammar

end LatinToScript
