import LatinToScript.Proofs.Grammar.Acceptance
import LatinToScript.Proofs.Token.Alike

/-!
# Parsing two token lists in step

Productions look at the kinds of tokens only; a place is copied into a fault and does nothing else. Where a
statement may start, semicolons are skipped. So let two token lists keep in step: token by token they are of
the same kind at related places, except that behind a semicolon or a brace the second list may have one
semicolon more (`InStep`). Then a production reads the same thing from both and leaves tokens that are
still in step, or it has the same fault at related places (`Uniform`). For each production this follows from
what it reads and how it fails; `Grammar.statements_inStep` says it for whole token lists.
-/

namespace LatinToScript

variable {r : Position → Position → Prop} {rel : List Token → List Token → Prop}

/-- The same fault at related places, or both at the end of the tokens. -/
inductive ParseError.Alike (r : Position → Position → Prop) : ParseError → ParseError → Prop where
  | unexpectedEnd :
    ParseError.Alike r .unexpectedEnd .unexpectedEnd
  | unexpectedToken {found p q} :
    r p q →
    ParseError.Alike r (.unexpectedToken found p) (.unexpectedToken found q)
  | expected {expectation found p q} :
    r p q →
    ParseError.Alike r (.expected expectation found p) (.expected expectation found q)
  | missingCondition {control p q} :
    r p q →
    ParseError.Alike r (.missingCondition control p) (.missingCondition control q)
  | missingOpeningBrace {p q} :
    r p q →
    ParseError.Alike r (.missingOpeningBrace p) (.missingOpeningBrace q)
  | missingClosingBrace {owner p q} :
    r p q →
    ParseError.Alike r (.missingClosingBrace owner p) (.missingClosingBrace owner q)
  | emptyDeclaration {p q} :
    r p q →
    ParseError.Alike r (.emptyDeclaration p) (.emptyDeclaration q)
  | nestingTooDeep {p q} :
    r p q →
    ParseError.Alike r (.nestingTooDeep p) (.nestingTooDeep q)

/-- A fault is alike itself, if every place is related to itself. -/
lemma ParseError.Alike.refl (rel : ∀ p, r p p) (e : ParseError) : ParseError.Alike r e e := by
  cases e with
  | unexpectedEnd => exact .unexpectedEnd
  | unexpectedToken => exact .unexpectedToken (rel _)
  | expected => exact .expected (rel _)
  | missingCondition => exact .missingCondition (rel _)
  | missingOpeningBrace => exact .missingOpeningBrace (rel _)
  | missingClosingBrace => exact .missingClosingBrace (rel _)
  | emptyDeclaration => exact .emptyDeclaration (rel _)
  | nestingTooDeep => exact .nestingTooDeep (rel _)

/-- A fault with a place is alike only to one with a related place. -/
lemma ParseError.Alike.exists_rel {e f : ParseError} {p : Position} (alike : ParseError.Alike r e f)
    (eq : e.position? = some p) : ∃ q, r p q := by
  cases alike with
  | unexpectedEnd => cases eq
  | unexpectedToken rel | expected rel | missingCondition rel | missingOpeningBrace rel
  | missingClosingBrace rel | emptyDeclaration rel | nestingTooDeep rel =>
    cases eq
    exact ⟨_, rel⟩

/-- Whether no expression goes on behind a token: it ends a statement, or it starts or ends a block. -/
def TokenKind.isSeparator : TokenKind → Bool
  | .semicolon | .opening .brace | .closing .brace => true
  | _ => false

/-- Related tokens, the second ones perhaps with one more semicolon in front. -/
def Behind (rel : List Token → List Token → Prop) (ts us : List Token) : Prop :=
  rel ts us ∨ ∃ t vs, us = t :: vs ∧ t.kind = .semicolon ∧ rel ts vs

/-- Related tokens are of the same kinds at related places, up to semicolons behind separators. -/
structure InStep (r : Position → Position → Prop) (rel : List Token → List Token → Prop) : Prop where
  nil : ∀ {us}, rel [] us → us = []
  cons : ∀ {t ts us}, rel (t :: ts) us →
    ∃ u vs, us = u :: vs ∧ Token.Alike r t u ∧ Behind rel ts vs ∧
      (t.kind.isSeparator = false → rel ts vs)

namespace InStep

variable {ts us : List Token} {t : Token} {k : TokenKind}

/-- A token of a kind that is no separator, and the tokens behind it. -/
lemma plain (step : InStep r rel) (alike : rel (t :: ts) us) (kt : t.kind = k)
    (other : k.isSeparator = false) :
    ∃ u vs, us = u :: vs ∧ Token.Alike r t u ∧ u.kind = k ∧ rel ts vs := by
  obtain ⟨u, vs, rfl, head, _, tail⟩ := step.cons alike
  exact ⟨u, vs, rfl, head, head.kind ▸ kt, tail (kt ▸ other)⟩

/-- A token of any kind, and the tokens behind it. -/
lemma any (step : InStep r rel) (alike : rel (t :: ts) us) (kt : t.kind = k) :
    ∃ u vs, us = u :: vs ∧ Token.Alike r t u ∧ u.kind = k ∧ Behind rel ts vs := by
  obtain ⟨u, vs, rfl, head, behind, _⟩ := step.cons alike
  exact ⟨u, vs, rfl, head, head.kind ▸ kt, behind⟩

/-- The next tokens are of the same kind. -/
lemma head_eq (step : InStep r rel) (alike : rel ts us) : (kinds ts).head? = (kinds us).head? := by
  cases ts with
  | nil => rw [step.nil alike]
  | cons t ts =>
    obtain ⟨u, vs, rfl, head, _⟩ := step.cons alike
    exact congrArg some head.kind

end InStep

namespace Grammar

open Production

variable {α β : Type} {ts us : List Token} {p q : Position} {room : Nat}

/-- The first result is also the second one, up to places, and the tokens left are related. -/
structure ReadingsAlike (r : Position → Position → Prop) (left : List Token → List Token → Prop)
    {Fits Fits' : List Token → Prop}
    (result : Except ParseError (α × { rest : List Token // Fits rest }))
    (other : Except ParseError (α × { rest : List Token // Fits' rest })) : Prop where
  reads : ∀ {a rest}, Reads result a rest → ∃ rest', Reads other a rest' ∧ left rest rest'
  fault : ∀ {e}, result = .error e → ∃ f, other = .error f ∧ ParseError.Alike r e f

/-- A production that gives like results for related tokens. -/
def Uniform (r : Position → Position → Prop) (rel left : List Token → List Token → Prop)
    (production : Production α) : Prop :=
  ∀ ⦃ts us⦄, rel ts us → ReadingsAlike r left (production ts) (production us)

/-! ## Expressions -/

/-- A production that asks for one token is uniform, unless it asks for a separator. -/
lemma uniform_of_asksFor (step : InStep r rel) {production : Production α} {kind : α → TokenKind}
    {expectation : Expectation} (asks : AsksFor production kind expectation)
    (other : ∀ a, (kind a).isSeparator = false) : Uniform r rel rel production := by
  intro ts us alike
  constructor
  · intro a rest rd
    obtain ⟨t, rfl, kt⟩ := asks.reads_iff.mp rd
    obtain ⟨u, vs, rfl, _, ku, tail⟩ := step.plain alike kt (other a)
    exact ⟨vs, asks.reads_iff.mpr ⟨u, rfl, ku⟩, tail⟩
  · intro e eq
    rcases asks.error_iff.mp eq with ⟨rfl, rfl⟩ | ⟨t, ts, rfl, other, rfl⟩
    · obtain rfl := step.nil alike
      exact ⟨_, asks.error_iff.mpr (.inl ⟨rfl, rfl⟩), .unexpectedEnd⟩
    · obtain ⟨u, vs, rfl, head, _⟩ := step.cons alike
      rw [head.kind] at other ⊢
      exact ⟨_, asks.error_iff.mpr (.inr ⟨u, vs, rfl, other, rfl⟩), .expected head.position⟩

/-- Two uniform productions are uniform one after the other. -/
lemma Uniform.andThen {mid left : List Token → List Token → Prop} {first : Production α}
    {second : α → Production β} (uf : Uniform r rel mid first)
    (us : ∀ a, Uniform r mid left (second a)) : Uniform r rel left (first.andThen second) := by
  intro ts vs alike
  constructor
  · intro b rest rd
    obtain ⟨a, mid, rf, rs⟩ := reads_andThen_iff.mp rd
    obtain ⟨mid', rf', alikem⟩ := (uf alike).reads rf
    obtain ⟨rest', rs', aliker⟩ := (us a alikem).reads rs
    exact ⟨rest', reads_andThen_iff.mpr ⟨a, mid', rf', rs'⟩, aliker⟩
  · intro e eq
    rcases andThen_eq_error_iff.mp eq with eqf | ⟨a, mid, rf, eqs⟩
    · obtain ⟨f, eqf', alikee⟩ := (uf alike).fault eqf
      exact ⟨f, andThen_eq_error_iff.mpr (.inl eqf'), alikee⟩
    · obtain ⟨mid', rf', alikem⟩ := (uf alike).reads rf
      obtain ⟨f, eqs', alikee⟩ := (us a alikem).fault eqs
      exact ⟨f, andThen_eq_error_iff.mpr (.inr ⟨a, mid', rf', eqs'⟩), alikee⟩

/-- A production stays uniform when its value is changed. -/
lemma Uniform.map {left : List Token → List Token → Prop} {production : Production α}
    (un : Uniform r rel left production) (g : α → β) : Uniform r rel left (production.map g) := by
  intro ts us alike
  constructor
  · intro b rest rd
    obtain ⟨a, ra, rfl⟩ := reads_map_iff.mp rd
    obtain ⟨rest', ra', aliker⟩ := (un alike).reads ra
    exact ⟨rest', reads_map_iff.mpr ⟨a, ra', rfl⟩, aliker⟩
  · intro e eq
    obtain ⟨f, eqf, alikee⟩ := (un alike).fault (map_eq_error_iff.mp eq)
    exact ⟨f, map_eq_error_iff.mpr eqf, alikee⟩

/-- What stands in parentheses is uniform if operands are. -/
lemma Uniform.parenthesized (step : InStep r rel) {operand : Production Expression}
    (un : Uniform r rel rel operand) : Uniform r rel rel (parenthesized operand) :=
  un.andThen fun _ =>
    (uniform_of_asksFor step asksFor_operator fun _ => rfl).andThen fun _ =>
      un.andThen fun _ =>
        (uniform_of_asksFor step asksFor_closingParenthesis fun _ => rfl).map _

/-- Operands are uniform. -/
lemma uniform_operand (step : InStep r rel) (room : Nat) : Uniform r rel rel (operand room) := by
  induction room using Nat.strongRecOn with
  | _ room ih =>
  intro ts us alike
  constructor
  · intro x rest rd
    cases ts with
    | nil => exact absurd rd not_reads_operand_nil
    | cons t ts =>
      rcases reads_operand_cons_iff.mp rd with ⟨dv, rfl⟩ | ⟨n, kt, rfl, rfl⟩ | ⟨kt, room, rfl, rp⟩
      · have other : t.kind.isSeparator = false := by
          generalize t.kind = k at dv
          cases dv <;> rfl
        obtain ⟨u, vs, rfl, head, _, tail⟩ := step.plain alike rfl other
        rw [head.kind] at dv
        exact ⟨vs, reads_operand_cons_iff.mpr (.inl ⟨dv, rfl⟩), tail⟩
      · obtain ⟨u, vs, rfl, _, ku, tail⟩ := step.plain alike kt rfl
        exact ⟨vs, reads_operand_cons_iff.mpr (.inr (.inl ⟨n, ku, rfl, rfl⟩)), tail⟩
      · obtain ⟨u, vs, rfl, _, ku, tail⟩ := step.plain alike kt rfl
        obtain ⟨rest', rp', aliker⟩ :=
          ((ih room (Nat.lt_succ_self room)).parenthesized step tail).reads rp
        exact ⟨rest', reads_operand_cons_iff.mpr (.inr (.inr ⟨ku, room, rfl, rp'⟩)), aliker⟩
  · intro e eq
    cases operand_eq_error_iff.mp eq with
    | finished =>
      obtain rfl := step.nil alike
      exact ⟨_, operand_eq_error_iff.mpr .finished, .unexpectedEnd⟩
    | start nostart =>
      obtain ⟨u, vs, rfl, head, _⟩ := step.cons alike
      rw [head.kind] at nostart ⊢
      exact ⟨_, operand_eq_error_iff.mpr (.start nostart), .expected head.position⟩
    | deep kt =>
      obtain ⟨u, vs, rfl, head, ku, _⟩ := step.plain alike kt rfl
      exact ⟨_, operand_eq_error_iff.mpr (.deep ku), .nestingTooDeep head.position⟩
    | @inside room _ _ _ kt eqp =>
      obtain ⟨u, vs, rfl, _, ku, tail⟩ := step.plain alike kt rfl
      obtain ⟨f, eqf, alikee⟩ := ((ih room (Nat.lt_succ_self room)).parenthesized step tail).fault eqp
      exact ⟨f, operand_eq_error_iff.mpr (.inside ku eqf), alikee⟩

/-- Expressions are uniform, as related tokens agree on whether an operator comes next. -/
lemma uniform_expression (step : InStep r rel) (room : Nat) : Uniform r rel rel (expression room) := by
  intro ts us alike
  have operand := uniform_operand step room
  constructor
  · intro x rest rd
    rcases reads_expression_iff.mp rd with ⟨ro, no⟩ | ⟨left, t, mid, word, right, rl, kt, rr, rfl⟩
    · obtain ⟨rest', ro', aliker⟩ := (operand alike).reads ro
      rw [NoOperatorNext, step.head_eq aliker] at no
      exact ⟨rest', reads_expression_iff.mpr (.inl ⟨ro', no⟩), aliker⟩
    · obtain ⟨_, rl', alikel⟩ := (operand alike).reads rl
      obtain ⟨u, mid', rfl, _, ku, alikem⟩ := step.plain alikel kt rfl
      obtain ⟨rest', rr', aliker⟩ := (operand alikem).reads rr
      exact ⟨rest', reads_expression_iff.mpr (.inr ⟨left, u, mid', word, right, rl', ku, rr', rfl⟩),
        aliker⟩
  · intro e eq
    rcases expression_eq_error_iff.mp eq with eqo | ⟨left, t, mid, word, rl, kt, eqr⟩
    · obtain ⟨f, eqf, alikee⟩ := (operand alike).fault eqo
      exact ⟨f, expression_eq_error_iff.mpr (.inl eqf), alikee⟩
    · obtain ⟨_, rl', alikel⟩ := (operand alike).reads rl
      obtain ⟨u, mid', rfl, _, ku, alikem⟩ := step.plain alikel kt rfl
      obtain ⟨f, eqf, alikee⟩ := (operand alikem).fault eqr
      exact ⟨f, expression_eq_error_iff.mpr (.inr ⟨left, u, mid', word, rl', ku, eqf⟩), alikee⟩

/-! ## Declarations -/

/-- Declarators are uniform. -/
lemma uniform_declarator (step : InStep r rel) (room : Nat) : Uniform r rel rel (declarator room) :=
  (uniform_of_asksFor step asksFor_boundName fun _ => rfl).andThen fun _ =>
    (uniform_of_asksFor step asksFor_copula fun _ => rfl).andThen fun _ =>
      (uniform_expression step room).map _

/-- Declarators are read alike, but behind their semicolon one more may be left. -/
lemma declarators_alike (step : InStep r rel) (alike : rel ts us) :
    ReadingsAlike r (Behind rel) (declarators room ts) (declarators room us) := by
  constructor
  · intro ds rest rd
    induction ds generalizing ts us with
    | nil =>
      rcases reads_declarators_nil_iff.mp rd with ⟨t, rfl, kt⟩ | ⟨rfl, next⟩
      · obtain ⟨u, vs, rfl, _, ku, tail⟩ := step.any alike kt
        exact ⟨vs, reads_declarators_nil_iff.mpr (.inl ⟨u, rfl, ku⟩), tail⟩
      · refine ⟨us, reads_declarators_nil_iff.mpr (.inr ⟨rfl, ?_⟩), .inl alike⟩
        intro u nextu
        cases ts with
        | nil =>
          rw [step.nil alike] at nextu
          cases nextu
        | cons t ts =>
          obtain ⟨_, vs, rfl, _, ku, _⟩ := step.any alike (next t rfl)
          cases nextu
          exact ku
    | cons d ds ih =>
      rcases reads_declarators_iff.mp rd with ⟨eq, _⟩ | ⟨d', mid, ds', rd, rds, eq⟩
      · cases eq
      · cases eq
        obtain ⟨mid', rd', alikem⟩ := (uniform_declarator step room alike).reads rd
        obtain ⟨rest', rds', aliker⟩ := ih alikem rds
        exact ⟨rest', reads_declarators_iff.mpr (.inr ⟨d, mid', ds, rd', rds', rfl⟩), aliker⟩
  · intro e eq
    obtain ⟨length, len⟩ : ∃ n, ts.length = n := ⟨_, rfl⟩
    induction length using Nat.strongRecOn generalizing ts us with
    | _ length ih =>
    subst len
    rcases declarators_eq_error_iff.mp eq with ⟨t, ts, rfl, nosemi, nobrace, eqd⟩ | ⟨d, mid, rd, eqs⟩
    · obtain ⟨f, eqf, alikee⟩ := (uniform_declarator step room alike).fault eqd
      obtain ⟨u, vs, rfl, head, _⟩ := step.cons alike
      rw [head.kind] at nosemi nobrace
      exact ⟨f, declarators_eq_error_iff.mpr (.inl ⟨u, vs, rfl, nosemi, nobrace, eqf⟩), alikee⟩
    · obtain ⟨mid', rd', alikem⟩ := (uniform_declarator step room alike).reads rd
      obtain ⟨f, eqf, alikee⟩ := ih mid.length rd.length_lt alikem eqs rfl
      exact ⟨f, declarators_eq_error_iff.mpr (.inr ⟨d, mid', rd', eqf⟩), alikee⟩

/-- Declarations are read alike, and an empty one is a fault at a related place. -/
lemma declaration_alike (step : InStep r rel) {binding : Binding} (near : r p q) (alike : rel ts us) :
    ReadingsAlike r (Behind rel) (declaration room binding p ts) (declaration room binding q us) := by
  constructor
  · intro d rest rd
    obtain ⟨ds, rds, some, rfl⟩ := reads_declaration_iff.mp rd
    obtain ⟨rest', rds', aliker⟩ := (declarators_alike step alike).reads rds
    exact ⟨rest', reads_declaration_iff.mpr ⟨ds, rds', some, rfl⟩, aliker⟩
  · intro e eq
    rcases declaration_eq_error_iff.mp eq with eqs | ⟨rest, rds, rfl⟩
    · obtain ⟨f, eqf, alikee⟩ := (declarators_alike step alike).fault eqs
      exact ⟨f, declaration_eq_error_iff.mpr (.inl eqf), alikee⟩
    · obtain ⟨rest', rds', _⟩ := (declarators_alike step alike).reads rds
      exact ⟨_, declaration_eq_error_iff.mpr (.inr ⟨rest', rds', rfl⟩), .emptyDeclaration near⟩

/-! ## Statements -/

/-- Productions of blocks that give like results for related places and tokens. -/
def UniformBlocks (r : Position → Position → Prop) (rel : List Token → List Token → Prop)
    (read : BlockOwner → Position → Production (List Statement)) : Prop :=
  ∀ owner ⦃p q ts us⦄, r p q → Behind rel ts us →
    ReadingsAlike r (Behind rel) (read owner p ts) (read owner q us)

section Statements

variable {read : BlockOwner → Position → Production (List Statement)}

/-- Tests and blocks of control statements are read alike if blocks are. -/
lemma UniformBlocks.controlled (step : InStep r rel) (ub : UniformBlocks r rel read) {control : Control}
    (near : r p q) (alike : rel ts us) :
    ReadingsAlike r (Behind rel) (controlled read room control p ts)
      (controlled read room control q us) := by
  have test := uniform_expression step room alike
  constructor
  · rintro ⟨x, body⟩ rest rd
    obtain ⟨t, mid, rx, kt, rb⟩ := reads_controlled_iff.mp rd
    obtain ⟨_, rx', alikex⟩ := test.reads rx
    obtain ⟨u, mid', rfl, head, ku, alikem⟩ := step.any alikex kt
    obtain ⟨rest', rb', aliker⟩ := (ub (.control control) head.position alikem).reads rb
    exact ⟨rest', reads_controlled_iff.mpr ⟨u, mid', rx', ku, rb'⟩, aliker⟩
  · intro e eq
    cases controlled_eq_error_iff.mp eq with
    | test eqx =>
      obtain ⟨f, eqf, alikee⟩ := test.fault eqx
      exact ⟨f, controlled_eq_error_iff.mpr (.test eqf), alikee⟩
    | noRelation rx norelation =>
      obtain ⟨mid', rx', _⟩ := test.reads rx
      exact ⟨_, controlled_eq_error_iff.mpr (.noRelation rx' norelation), .missingCondition near⟩
    | finished rx =>
      obtain ⟨_, rx', alikex⟩ := test.reads rx
      obtain rfl := step.nil alikex
      exact ⟨_, controlled_eq_error_iff.mpr (.finished rx'), .unexpectedEnd⟩
    | noBlock rx other =>
      obtain ⟨_, rx', alikex⟩ := test.reads rx
      obtain ⟨u, mid', rfl, head, _⟩ := step.cons alikex
      rw [head.kind] at other
      exact ⟨_, controlled_eq_error_iff.mpr (.noBlock rx' other), .missingOpeningBrace head.position⟩
    | block rx kt eqb =>
      obtain ⟨_, rx', alikex⟩ := test.reads rx
      obtain ⟨u, mid', rfl, head, ku, alikem⟩ := step.any alikex kt
      obtain ⟨f, eqf, alikee⟩ := (ub (.control control) head.position alikem).fault eqb
      exact ⟨f, controlled_eq_error_iff.mpr (.block rx' ku eqf), alikee⟩

/-- Statements are uniform if blocks are, up to a semicolon behind them. -/
lemma UniformBlocks.statementWith (step : InStep r rel) (ub : UniformBlocks r rel read) :
    Uniform r rel (Behind rel) (statementWith read room) := by
  intro ts us alike
  constructor
  · intro s rest rs
    cases reads_statementWith_iff.mp rs with
    | control kt rc =>
      obtain ⟨u, vs, rfl, head, ku, tail⟩ := step.plain alike kt rfl
      obtain ⟨rest', rc', aliker⟩ := (ub.controlled step head.position tail).reads rc
      exact ⟨rest', reads_statementWith_iff.mpr (.control ku rc'), aliker⟩
    | declaration kt rd =>
      obtain ⟨u, vs, rfl, head, ku, tail⟩ := step.plain alike kt rfl
      obtain ⟨rest', rd', aliker⟩ := (declaration_alike step head.position tail).reads rd
      exact ⟨rest', reads_statementWith_iff.mpr (.declaration ku rd'), aliker⟩
    | binding kt rd =>
      obtain ⟨rest', rd', aliker⟩ := (uniform_declarator step room alike).reads rd
      obtain ⟨u, vs, rfl, _, ku, _⟩ := step.plain alike kt rfl
      exact ⟨rest', reads_statementWith_iff.mpr (.binding ku rd'), .inl aliker⟩
    | block kt rb =>
      obtain ⟨u, vs, rfl, head, ku, tail⟩ := step.any alike kt
      obtain ⟨rest', rb', aliker⟩ := (ub .bare head.position tail).reads rb
      exact ⟨rest', reads_statementWith_iff.mpr (.block ku rb'), aliker⟩
    | value start ro =>
      obtain ⟨rest', ro', aliker⟩ := (uniform_operand step room alike).reads ro
      obtain ⟨u, vs, rfl, head, _⟩ := step.cons alike
      rw [head.kind] at start
      exact ⟨rest', reads_statementWith_iff.mpr (.value start ro'), .inl aliker⟩
  · intro e eq
    cases statementWith_eq_error_iff.mp eq with
    | finished =>
      obtain rfl := step.nil alike
      exact ⟨_, statementWith_eq_error_iff.mpr .finished, .unexpectedEnd⟩
    | control kt eqc =>
      obtain ⟨u, vs, rfl, head, ku, tail⟩ := step.plain alike kt rfl
      obtain ⟨f, eqf, alikee⟩ := (ub.controlled step head.position tail).fault eqc
      exact ⟨f, statementWith_eq_error_iff.mpr (.control ku eqf), alikee⟩
    | declaration kt eqd =>
      obtain ⟨u, vs, rfl, head, ku, tail⟩ := step.plain alike kt rfl
      obtain ⟨f, eqf, alikee⟩ := (declaration_alike step head.position tail).fault eqd
      exact ⟨f, statementWith_eq_error_iff.mpr (.declaration ku eqf), alikee⟩
    | binding kt eqd =>
      obtain ⟨f, eqf, alikee⟩ := (uniform_declarator step room alike).fault eqd
      obtain ⟨u, vs, rfl, _, ku, _⟩ := step.plain alike kt rfl
      exact ⟨f, statementWith_eq_error_iff.mpr (.binding ku eqf), alikee⟩
    | block kt eqb =>
      obtain ⟨u, vs, rfl, head, ku, tail⟩ := step.any alike kt
      obtain ⟨f, eqf, alikee⟩ := (ub .bare head.position tail).fault eqb
      exact ⟨f, statementWith_eq_error_iff.mpr (.block ku eqf), alikee⟩
    | value start eqo =>
      obtain ⟨f, eqf, alikee⟩ := (uniform_operand step room alike).fault eqo
      obtain ⟨u, vs, rfl, head, _⟩ := step.cons alike
      rw [head.kind] at start
      exact ⟨f, statementWith_eq_error_iff.mpr (.value start eqf), alikee⟩
    | start nostart =>
      obtain ⟨u, vs, rfl, head, _⟩ := step.cons alike
      rw [head.kind] at nostart ⊢
      exact ⟨_, statementWith_eq_error_iff.mpr (.start nostart), .unexpectedToken head.position⟩

/-- One more semicolon in front is skipped. -/
lemma readingsAlike_blockBody_semicolon {statement : Production Statement} {owner : BlockOwner}
    {left : List Token → List Token → Prop} {t : Token} (kt : t.kind = .semicolon)
    (alike : ReadingsAlike r left (blockBody statement owner p ts) (blockBody statement owner q us)) :
    ReadingsAlike r left (blockBody statement owner p ts) (blockBody statement owner q (t :: us)) := by
  constructor
  · intro body rest rd
    obtain ⟨rest', rd', aliker⟩ := alike.reads rd
    exact ⟨rest', reads_blockBody_iff.mpr (.inr (.inl ⟨t, us, rfl, kt, rd'⟩)), aliker⟩
  · intro e eq
    obtain ⟨f, eqf, alikee⟩ := alike.fault eq
    exact ⟨f, blockBody_eq_error_iff.mpr (.semicolon kt eqf), alikee⟩

/-- Each statement shortens the tokens, so the induction is on their number. -/
lemma Uniform.blockBody (step : InStep r rel) {statement : Production Statement}
    (un : Uniform r rel (Behind rel) statement) {owner : BlockOwner} (near : r p q)
    (behind : Behind rel ts us) :
    ReadingsAlike r (Behind rel) (blockBody statement owner p ts) (blockBody statement owner q us) := by
  obtain ⟨length, len⟩ : ∃ n, ts.length = n := ⟨_, rfl⟩
  induction length using Nat.strongRecOn generalizing ts us with
  | _ length ih =>
  subst len
  suffices inStep : ∀ {us}, rel ts us → ReadingsAlike r (Behind rel)
      (Grammar.blockBody statement owner p ts) (Grammar.blockBody statement owner q us) by
    rcases behind with alike | ⟨t, vs, rfl, kt, alike⟩
    · exact inStep alike
    · exact readingsAlike_blockBody_semicolon kt (inStep alike)
  intro us alike
  constructor
  · intro body rest rd
    rcases reads_blockBody_iff.mp rd with ⟨t, rfl, kt, rfl⟩ | ⟨t, ts, rfl, kt, rb⟩ |
      ⟨t, ts, rfl, nobrace, nosemi, s, mid, ss, rs, rb, rfl⟩
    · obtain ⟨u, vs, rfl, _, ku, tail⟩ := step.any alike kt
      exact ⟨vs, reads_blockBody_iff.mpr (.inl ⟨u, rfl, ku, rfl⟩), tail⟩
    · obtain ⟨u, vs, rfl, _, ku, tail⟩ := step.any alike kt
      obtain ⟨rest', rb', aliker⟩ := (ih ts.length (Nat.lt_succ_self _) tail rfl).reads rb
      exact ⟨rest', reads_blockBody_iff.mpr (.inr (.inl ⟨u, vs, rfl, ku, rb'⟩)), aliker⟩
    · obtain ⟨mid', rs', alikem⟩ := (un alike).reads rs
      obtain ⟨rest', rb', aliker⟩ := (ih mid.length rs.length_lt alikem rfl).reads rb
      obtain ⟨u, vs, rfl, head, _⟩ := step.cons alike
      rw [head.kind] at nobrace nosemi
      exact ⟨rest', reads_blockBody_iff.mpr
        (.inr (.inr ⟨u, vs, rfl, nobrace, nosemi, s, mid', ss, rs', rb', rfl⟩)), aliker⟩
  · intro e eq
    cases blockBody_eq_error_iff.mp eq with
    | finished =>
      obtain rfl := step.nil alike
      exact ⟨_, blockBody_eq_error_iff.mpr .finished, .missingClosingBrace near⟩
    | @semicolon _ ts _ kt eqb =>
      obtain ⟨u, vs, rfl, _, ku, tail⟩ := step.any alike kt
      obtain ⟨f, eqf, alikee⟩ := (ih ts.length (Nat.lt_succ_self _) tail rfl).fault eqb
      exact ⟨f, blockBody_eq_error_iff.mpr (.semicolon ku eqf), alikee⟩
    | first nobrace nosemi eqs =>
      obtain ⟨f, eqf, alikee⟩ := (un alike).fault eqs
      obtain ⟨u, vs, rfl, head, _⟩ := step.cons alike
      rw [head.kind] at nobrace nosemi
      exact ⟨f, blockBody_eq_error_iff.mpr (.first nobrace nosemi eqf), alikee⟩
    | @later _ _ _ mid _ nobrace nosemi rs eqb =>
      obtain ⟨mid', rs', alikem⟩ := (un alike).reads rs
      obtain ⟨f, eqf, alikee⟩ := (ih mid.length rs.length_lt alikem rfl).fault eqb
      obtain ⟨u, vs, rfl, head, _⟩ := step.cons alike
      rw [head.kind] at nobrace nosemi
      exact ⟨f, blockBody_eq_error_iff.mpr (.later nobrace nosemi rs' eqf), alikee⟩

/-- Blocks are uniform at any depth. -/
lemma uniformBlocks_block (step : InStep r rel) (room : Nat) : UniformBlocks r rel (block room) := by
  induction room with
  | zero =>
    intro owner p q ts us near alike
    constructor
    · intro body rest rd
      obtain ⟨room, eq, _⟩ := reads_block_iff.mp rd
      cases eq
    · intro e eq
      rcases block_eq_error_iff.mp eq with ⟨_, rfl⟩ | ⟨room, eqr, _⟩
      · exact ⟨_, block_eq_error_iff.mpr (.inl ⟨rfl, rfl⟩), .nestingTooDeep near⟩
      · cases eqr
  | succ room ih =>
    intro owner p q ts us near alike
    exact Uniform.blockBody step (ih.statementWith step) near alike

/-- Statements are uniform, up to a semicolon behind them. -/
lemma uniform_statement (step : InStep r rel) (room : Nat) :
    Uniform r rel (Behind rel) (statement room) :=
  (uniformBlocks_block step room).statementWith step

/-- Tokens that keep in step are the same statements, or they have the same fault at related places. -/
lemma statements_inStep (step : InStep r rel) (behind : Behind rel ts us) :
    ResultsAlike (ParseError.Alike r) Eq (statements room ts) (statements room us) := by
  obtain ⟨length, len⟩ : ∃ n, ts.length = n := ⟨_, rfl⟩
  induction length using Nat.strongRecOn generalizing ts us with
  | _ length ih =>
  subst len
  suffices inStep : ∀ {us}, rel ts us →
      ResultsAlike (ParseError.Alike r) Eq (statements room ts) (statements room us) by
    rcases behind with alike | ⟨t, vs, rfl, kt, alike⟩
    · exact inStep alike
    · rw [statements_semicolon kt]
      exact inStep alike
  intro us alike
  cases ts with
  | nil =>
    obtain rfl := step.nil alike
    rw [statements_eq_ok_iff.mpr (.inl ⟨rfl, rfl⟩)]
    exact .ok rfl
  | cons t ts =>
    obtain ⟨u, vs, rfl, head, behind, _⟩ := step.cons alike
    by_cases kt : t.kind = .semicolon
    · rw [statements_semicolon kt, statements_semicolon (head.kind ▸ kt)]
      exact ih ts.length (Nat.lt_succ_self _) behind rfl
    · have ku : u.kind ≠ .semicolon := head.kind ▸ kt
      have reading := uniform_statement step room alike
      cases eq : statement room (t :: ts) with
      | ok result =>
        obtain ⟨s, mid, short⟩ := result
        have rs : Reads (statement room (t :: ts)) s mid := ⟨short, eq⟩
        obtain ⟨mid', rs', alikem⟩ := reading.reads rs
        rw [statements_of_reads rs, statements_of_reads rs']
        exact (ih mid.length short alikem rfl).map (congrArg _)
      | error e =>
        obtain ⟨f, eqf, alikee⟩ := reading.fault eq
        rw [statements_eq_error_iff.mpr (.inr ⟨t, ts, rfl, kt, .inl eq⟩),
          statements_eq_error_iff.mpr (.inr ⟨u, vs, rfl, ku, .inl eqf⟩)]
        exact .error alikee

end Statements

end Grammar

end LatinToScript
