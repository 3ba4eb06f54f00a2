import LatinToScript.Proofs.Grammar.Production

/-!
# What the productions of statements read, and how they fail

The same two equivalences for blocks, control statements, statements and whole programs. Where there are many
ways to read or to fail, an inductive relation has one constructor for each of them: `StatementReads`,
`StatementFails`, `ControlledFails` and `BlockBodyFails`. The equivalences for `blockBody`, `controlled` and
`statementWith` hold for any production of statements or blocks inside.
-/

namespace LatinToScript.Grammar

open Production

variable {ts rest : List Token} {e : ParseError} {room : Nat}

section Statements

variable {read : Production Statement} {owner : BlockOwner} {opening : Position}

/-- Inside a block stands its end, or a semicolon, or a statement, and what is behind them. -/
lemma reads_blockBody_iff {body : List Statement} :
    Reads (blockBody read owner opening ts) body rest ↔
      (∃ t, ts = t :: rest ∧ t.kind = .closing .brace ∧ body = []) ∨
      (∃ t us, ts = t :: us ∧ t.kind = .semicolon ∧
        Reads (blockBody read owner opening us) body rest) ∨
      ∃ t us, ts = t :: us ∧ t.kind ≠ .closing .brace ∧ t.kind ≠ .semicolon ∧
        ∃ s mid ss, Reads (read ts) s mid ∧ Reads (blockBody read owner opening mid) ss rest ∧
          body = s :: ss := by
  rw [blockBody.eq_def]
  cases ts with
  | nil => simp [Reads]
  | cons t us =>
    dsimp only
    constructor
    · rintro ⟨fits, eq⟩
      split at eq
      · rename_i kt
        cases eq
        exact .inl ⟨t, rfl, kt, rfl⟩
      · rename_i kt
        split at eq
        · cases eq
        · rename_i ss rest' eqs
          cases eq
          exact .inr (.inl ⟨t, us, rfl, kt, rest'.property, eqs⟩)
      · rename_i nobrace nosemi
        split at eq
        · cases eq
        · rename_i s mid eqs
          split at eq
          · cases eq
          · rename_i ss rest' eqss
            cases eq
            exact .inr (.inr ⟨t, us, rfl, nobrace, nosemi, s, mid.val, ss, ⟨mid.property, eqs⟩,
              ⟨rest'.property, eqss⟩, rfl⟩)
    · rintro (⟨_, eq, kt, rfl⟩ | ⟨_, _, eq, kt, fits, eqs⟩ |
        ⟨_, _, eq, nobrace, nosemi, s, mid, ss, ⟨fits, eqs⟩, ⟨fitss, eqss⟩, rfl⟩)
      · cases eq
        rw [kt]
        exact ⟨Nat.lt_succ_self _, rfl⟩
      · cases eq
        rw [kt]
        refine ⟨Nat.lt_succ_of_lt fits, ?_⟩
        dsimp only
        rw [eqs]
      · cases eq
        refine ⟨Nat.lt_trans fitss fits, ?_⟩
        split
        · rename_i kt
          exact absurd kt nobrace
        · rename_i kt
          exact absurd kt nosemi
        · rw [eqs]
          dsimp only
          rw [eqss]

/-- How the statements of a block fail. -/
inductive BlockBodyFails (read : Production Statement) (owner : BlockOwner) (opening : Position) :
    List Token → ParseError → Prop where
  /-- The block is not closed. -/
  | finished :
    BlockBodyFails read owner opening [] (.missingClosingBrace owner opening)
  /-- The fault is behind a semicolon. -/
  | semicolon {t us e} :
    t.kind = .semicolon →
    blockBody read owner opening us = .error e →
    BlockBodyFails read owner opening (t :: us) e
  /-- The fault is in the first statement. -/
  | first {t us e} :
    t.kind ≠ .closing .brace →
    t.kind ≠ .semicolon →
    read (t :: us) = .error e →
    BlockBodyFails read owner opening (t :: us) e
  /-- The fault is behind the first statement. -/
  | later {t us s mid e} :
    t.kind ≠ .closing .brace →
    t.kind ≠ .semicolon →
    Reads (read (t :: us)) s mid →
    blockBody read owner opening mid = .error e →
    BlockBodyFails read owner opening (t :: us) e

/-- The statements of a block fail in these ways and in no other. -/
lemma blockBody_eq_error_iff :
    blockBody read owner opening ts = .error e ↔ BlockBodyFails read owner opening ts e := by
  rw [blockBody.eq_def]
  constructor
  · intro eq
    cases ts with
    | nil =>
      cases eq
      exact .finished
    | cons t us =>
      dsimp only at eq
      split at eq
      · cases eq
      · rename_i kt
        split at eq
        · rename_i eqs
          cases eq
          exact .semicolon kt eqs
        · cases eq
      · rename_i nobrace nosemi
        split at eq
        · rename_i eqs
          cases eq
          exact .first nobrace nosemi eqs
        · rename_i s mid eqs
          split at eq
          · rename_i eqss
            cases eq
            exact .later nobrace nosemi ⟨mid.property, eqs⟩ eqss
          · cases eq
  · intro fails
    cases fails with
    | finished => rfl
    | semicolon kt eqs =>
      dsimp only
      rw [kt]
      dsimp only
      rw [eqs]
    | first nobrace nosemi eqs =>
      dsimp only
      split
      · rename_i kt
        exact absurd kt nobrace
      · rename_i kt
        exact absurd kt nosemi
      · rw [eqs]
    | later nobrace nosemi rd eqss =>
      obtain ⟨_, eqs⟩ := rd
      dsimp only
      split
      · rename_i kt
        exact absurd kt nobrace
      · rename_i kt
        exact absurd kt nosemi
      · rw [eqs]
        dsimp only
        rw [eqss]

variable {readBlock : BlockOwner → Position → Production (List Statement)}

/-- Behind the keyword of a control statement stand a relation and a block. -/
lemma reads_controlled_iff {control : Control} {position : Position} {test : Relation}
    {body : List Statement} :
    Reads (controlled readBlock room control position ts) (test, body) rest ↔
      ∃ t mid, Reads (expression room ts) test.toExpression (t :: mid) ∧
        t.kind = .opening .brace ∧ Reads (readBlock (.control control) t.position mid) body rest := by
  rw [controlled]
  constructor
  · rintro ⟨fits, eq⟩
    split at eq
    · cases eq
    · cases eq
    · rename_i left word right t mid shorter eqx
      split at eq
      · rename_i kt
        split at eq
        · cases eq
        · rename_i body' rest' eqb
          cases eq
          exact ⟨t, mid, ⟨shorter, eqx⟩, kt, rest'.property, eqb⟩
      · cases eq
    · cases eq
  · rintro ⟨t, mid, ⟨fitsx, eqx⟩, kt, fitsb, eqb⟩
    refine ⟨Nat.lt_trans fitsb (Nat.lt_of_succ_lt fitsx), ?_⟩
    rw [eqx]
    dsimp only [Relation.toExpression]
    rw [kt]
    dsimp only
    rw [eqb]

/-- How a control statement fails behind its keyword. -/
inductive ControlledFails (readBlock : BlockOwner → Position → Production (List Statement)) (room : Nat)
    (control : Control) (position : Position) (ts : List Token) : ParseError → Prop where
  /-- The fault is in the test. -/
  | test {e : ParseError} :
    expression room ts = .error e →
    ControlledFails readBlock room control position ts e
  /-- The test is no relation. -/
  | noRelation {x mid} :
    Reads (expression room ts) x mid →
    (∀ test : Relation, x ≠ test.toExpression) →
    ControlledFails readBlock room control position ts (.missingCondition control position)
  /-- There is no token behind the test. -/
  | finished {test : Relation} :
    Reads (expression room ts) test.toExpression [] →
    ControlledFails readBlock room control position ts .unexpectedEnd
  /-- The token behind the test opens no block. -/
  | noBlock {test : Relation} {t mid} :
    Reads (expression room ts) test.toExpression (t :: mid) →
    t.kind ≠ .opening .brace →
    ControlledFails readBlock room control position ts (.missingOpeningBrace t.position)
  /-- The fault is in the block. -/
  | block {test : Relation} {t mid e} :
    Reads (expression room ts) test.toExpression (t :: mid) →
    t.kind = .opening .brace →
    readBlock (.control control) t.position mid = .error e →
    ControlledFails readBlock room control position ts e

/-- Control statements fail in these ways and in no other. -/
lemma controlled_eq_error_iff {control : Control} {position : Position} :
    controlled readBlock room control position ts = .error e ↔
      ControlledFails readBlock room control position ts e := by
  rw [controlled]
  constructor
  · intro eq
    split at eq
    · rename_i eqx
      cases eq
      exact .test eqx
    · rename_i left word right shorter eqx
      cases eq
      have rx : Reads (expression room ts) (Relation.toExpression ⟨left, word, right⟩) [] := ⟨shorter, eqx⟩
      exact .finished rx
    · rename_i left word right t mid shorter eqx
      have rx : Reads (expression room ts) (Relation.toExpression ⟨left, word, right⟩) (t :: mid) :=
        ⟨shorter, eqx⟩
      split at eq
      · rename_i kt
        split at eq
        · rename_i eqb
          cases eq
          exact .block rx kt eqb
        · cases eq
      · rename_i kt
        cases eq
        exact .noBlock rx kt
    · rename_i result atEnd inFront eqx
      obtain ⟨x, mid, shorter⟩ := result
      cases eq
      refine .noRelation ⟨shorter, eqx⟩ ?_
      rintro ⟨left, word, right⟩ rfl
      cases mid with
      | nil => exact atEnd _ _ _ _ rfl
      | cons t mid => exact inFront _ _ _ _ _ _ rfl
  · intro fails
    cases fails with
    | test eqx => rw [eqx]
    | @noRelation x _ rx no =>
      obtain ⟨_, eqx⟩ := rx
      rw [eqx]
      cases x with
      | relation left word right => exact absurd rfl (no ⟨left, word, right⟩)
      | _ => rfl
    | finished rx =>
      obtain ⟨_, eqx⟩ := rx
      rw [eqx]
      rfl
    | noBlock rx other =>
      obtain ⟨_, eqx⟩ := rx
      rw [eqx]
      dsimp only [Relation.toExpression]
      split
      · rename_i kt
        exact absurd kt other
      · rfl
    | block rx kt eqb =>
      obtain ⟨_, eqx⟩ := rx
      rw [eqx]
      dsimp only [Relation.toExpression]
      rw [kt]
      dsimp only
      rw [eqb]

/-- A token that a lone value can start with: a literal, or an opening parenthesis. -/
def startsValue : TokenKind → Bool
  | .number _ | .text _ | .boolean _ | .null | .opening .parenthesis => true
  | _ => false

/-- A token that a statement can start with. -/
def startsStatement : TokenKind → Bool
  | .keyword _ | .name _ | .opening .brace => true
  | k => startsValue k

/-- What a statement is read as, by its first token, and what is left. -/
inductive StatementReads (readBlock : BlockOwner → Position → Production (List Statement)) (room : Nat) :
    List Token → Statement → List Token → Prop where
  | control {t us control test body rest} :
    t.kind = .keyword (.control control) →
    Reads (controlled readBlock room control t.position us) (test, body) rest →
    StatementReads readBlock room (t :: us) (control.statement test body) rest
  | declaration {t us binding d rest} :
    t.kind = .keyword (.declare binding) →
    Reads (Grammar.declaration room binding t.position us) d rest →
    StatementReads readBlock room (t :: us) (.declaration d) rest
  | binding {t us n d rest} :
    t.kind = .name n →
    Reads (declarator room (t :: us)) d rest →
    StatementReads readBlock room (t :: us) (.binding d) rest
  | block {t us body rest} :
    t.kind = .opening .brace →
    Reads (readBlock .bare t.position us) body rest →
    StatementReads readBlock room (t :: us) (.block body) rest
  | value {t us x rest} :
    startsValue t.kind = true →
    Reads (operand room (t :: us)) x rest →
    StatementReads readBlock room (t :: us) (.expression x) rest

/-- Statements are read in these ways and in no other. -/
lemma reads_statementWith_iff {s : Statement} :
    Reads (statementWith readBlock room ts) s rest ↔ StatementReads readBlock room ts s rest := by
  constructor
  · rintro ⟨fits, eq⟩
    cases ts with
    | nil => cases eq
    | cons t us =>
      rw [statementWith] at eq
      split at eq
      · rename_i control kt
        split at eq
        · cases eq
        · rename_i test body rest' eqc
          cases eq
          have rc : StatementReads readBlock room (t :: us) (control.statement test body) rest'.val :=
            .control kt ⟨rest'.property, eqc⟩
          cases control <;> exact rc
      · rename_i binding kt
        split at eq
        · cases eq
        · rename_i d rest' eqd
          cases eq
          exact .declaration kt ⟨rest'.property, eqd⟩
      · rename_i n kt
        obtain ⟨d, rd, rfl⟩ := reads_map_iff.mp ⟨fits, eq⟩
        exact .binding kt rd
      · rename_i kt
        split at eq
        · cases eq
        · rename_i body rest' eqb
          cases eq
          exact .block kt ⟨rest'.property, eqb⟩
      case h_10 => cases eq
      all_goals
        rename_i kt
        obtain ⟨x, rx, rfl⟩ := reads_map_iff.mp ⟨fits, eq⟩
        exact .value (by rw [kt]; rfl) rx
  · intro reads
    cases reads with
    | @control _ _ control _ _ _ kt rc =>
      obtain ⟨fits, eqc⟩ := rc
      rw [statementWith, kt]
      refine ⟨Nat.lt_succ_of_lt fits, ?_⟩
      dsimp only
      rw [eqc]
      cases control <;> rfl
    | declaration kt rd =>
      obtain ⟨fits, eqd⟩ := rd
      rw [statementWith, kt]
      refine ⟨Nat.lt_succ_of_le fits, ?_⟩
      dsimp only
      rw [eqd]
    | binding kt rd =>
      rw [statementWith, kt]
      exact reads_map_iff.mpr ⟨_, rd, rfl⟩
    | block kt rb =>
      obtain ⟨fits, eqb⟩ := rb
      rw [statementWith, kt]
      refine ⟨Nat.lt_succ_of_lt fits, ?_⟩
      dsimp only
      rw [eqb]
    | @value t us x _ start rx =>
      have rs : Reads ((operand room).map Statement.expression (t :: us)) (.expression x) rest :=
        reads_map_iff.mpr ⟨x, rx, rfl⟩
      rw [statementWith]
      generalize t.kind = k at start
      unfold startsValue at start
      split at start
      case h_6 => cases start
      all_goals exact rs

/-- How a statement fails, by its first token. -/
inductive StatementFails (readBlock : BlockOwner → Position → Production (List Statement)) (room : Nat) :
    List Token → ParseError → Prop where
  | finished :
    StatementFails readBlock room [] .unexpectedEnd
  | control {t us control e} :
    t.kind = .keyword (.control control) →
    controlled readBlock room control t.position us = .error e →
    StatementFails readBlock room (t :: us) e
  | declaration {t us binding e} :
    t.kind = .keyword (.declare binding) →
    Grammar.declaration room binding t.position us = .error e →
    StatementFails readBlock room (t :: us) e
  | binding {t us n e} :
    t.kind = .name n →
    declarator room (t :: us) = .error e →
    StatementFails readBlock room (t :: us) e
  | block {t us e} :
    t.kind = .opening .brace →
    readBlock .bare t.position us = .error e →
    StatementFails readBlock room (t :: us) e
  | value {t us e} :
    startsValue t.kind = true →
    operand room (t :: us) = .error e →
    StatementFails readBlock room (t :: us) e
  /-- No statement starts with the token. -/
  | start {t us} :
    startsStatement t.kind = false →
    StatementFails readBlock room (t :: us) (.unexpectedToken t.kind t.position)

/-- Statements fail in these ways and in no other. -/
lemma statementWith_eq_error_iff :
    statementWith readBlock room ts = .error e ↔ StatementFails readBlock room ts e := by
  constructor
  · intro eq
    cases ts with
    | nil =>
      cases eq
      exact .finished
    | cons t us =>
      rw [statementWith] at eq
      split at eq
      · rename_i control kt
        split at eq
        · rename_i eqc
          cases eq
          exact .control kt eqc
        · cases eq
      · rename_i binding kt
        split at eq
        · rename_i eqd
          cases eq
          exact .declaration kt eqd
        · cases eq
      · rename_i n kt
        exact .binding kt (map_eq_error_iff.mp eq)
      · rename_i kt
        split at eq
        · rename_i eqb
          cases eq
          exact .block kt eqb
        · cases eq
      case h_10 =>
        cases eq
        apply StatementFails.start
        generalize t.kind = k at *
        rcases k with ⟨_ | _⟩ | _ | _ | _ | _ | _ | _ | _ | _ | ⟨_ | _⟩ | _ <;>
          simp_all [startsStatement, startsValue]
      all_goals
        rename_i kt
        exact .value (by rw [kt]; rfl) (map_eq_error_iff.mp eq)
  · intro fails
    cases fails with
    | finished => rfl
    | control kt eqc =>
      rw [statementWith, kt]
      dsimp only
      rw [eqc]
    | declaration kt eqd =>
      rw [statementWith, kt]
      dsimp only
      rw [eqd]
    | binding kt eqd =>
      rw [statementWith, kt]
      exact map_eq_error_iff.mpr eqd
    | block kt eqb =>
      rw [statementWith, kt]
      dsimp only
      rw [eqb]
    | @value t us _ start eqo =>
      have eqs : (operand room).map Statement.expression (t :: us) = .error e :=
        map_eq_error_iff.mpr eqo
      rw [statementWith]
      generalize t.kind = k at start
      unfold startsValue at start
      split at start
      case h_6 => cases start
      all_goals exact eqs
    | @start t us start =>
      rw [statementWith]
      generalize t.kind = k at start
      split
      case h_10 => rfl
      all_goals cases start

end Statements

/-- A block is read if there is room for it, and its statements with one level less. -/
lemma reads_block_iff {owner : BlockOwner} {opening : Position} {body : List Statement} :
    Reads (block room owner opening ts) body rest ↔
      ∃ r, room = r + 1 ∧ Reads (blockBody (statement r) owner opening ts) body rest := by
  cases room with
  | zero => simp [Reads, block]
  | succ r =>
    rw [block]
    constructor
    · intro rd
      exact ⟨r, rfl, rd⟩
    · rintro ⟨_, eq, rd⟩
      cases eq
      exact rd

/-- The fault of a block is that there is no room for it, or a fault inside. -/
lemma block_eq_error_iff {owner : BlockOwner} {opening : Position} :
    block room owner opening ts = .error e ↔
      (room = 0 ∧ e = .nestingTooDeep opening) ∨
      ∃ r, room = r + 1 ∧ blockBody (statement r) owner opening ts = .error e := by
  cases room with
  | zero => simp [block, eq_comm]
  | succ r =>
    rw [block]
    constructor
    · intro eq
      exact .inr ⟨r, rfl, eq⟩
    · rintro (⟨eq, _⟩ | ⟨_, eq, eqb⟩)
      · cases eq
      · cases eq
        exact eqb

/-- The statements of a program go on to the end of the tokens, with any semicolons between them. -/
lemma statements_eq_ok_iff {ss : List Statement} :
    statements room ts = .ok ss ↔
      (ts = [] ∧ ss = []) ∨
      (∃ t us, ts = t :: us ∧ t.kind = .semicolon ∧ statements room us = .ok ss) ∨
      ∃ t us, ts = t :: us ∧ t.kind ≠ .semicolon ∧
        ∃ s mid ss', Reads (statement room ts) s mid ∧ statements room mid = .ok ss' ∧
          ss = s :: ss' := by
  rw [statements.eq_def]
  cases ts with
  | nil => simp [eq_comm]
  | cons t us =>
    dsimp only
    constructor
    · intro eq
      split at eq
      · rename_i kt
        exact .inr (.inl ⟨t, us, rfl, kt, eq⟩)
      · rename_i nosemi
        split at eq
        · cases eq
        · rename_i s mid eqs
          split at eq
          · cases eq
          · rename_i ss' eqss
            cases eq
            exact .inr (.inr ⟨t, us, rfl, nosemi, s, mid.val, ss', ⟨mid.property, eqs⟩, eqss, rfl⟩)
    · rintro (⟨eq, _⟩ | ⟨_, _, eq, kt, eqs⟩ | ⟨_, _, eq, nosemi, s, mid, ss', ⟨fits, eqs⟩, eqss, rfl⟩)
      · cases eq
      · cases eq
        rw [kt]
        exact eqs
      · cases eq
        split
        · rename_i kt
          exact absurd kt nosemi
        · rw [eqs]
          dsimp only
          rw [eqss]

/-- The fault of the statements of a program is that of the first statement that has one. -/
lemma statements_eq_error_iff :
    statements room ts = .error e ↔
      (∃ t us, ts = t :: us ∧ t.kind = .semicolon ∧ statements room us = .error e) ∨
      ∃ t us, ts = t :: us ∧ t.kind ≠ .semicolon ∧
        (statement room ts = .error e ∨
        ∃ s mid, Reads (statement room ts) s mid ∧ statements room mid = .error e) := by
  rw [statements.eq_def]
  cases ts with
  | nil => simp
  | cons t us =>
    dsimp only
    constructor
    · intro eq
      split at eq
      · rename_i kt
        exact .inl ⟨t, us, rfl, kt, eq⟩
      · rename_i nosemi
        refine .inr ⟨t, us, rfl, nosemi, ?_⟩
        split at eq
        · rename_i eqs
          cases eq
          exact .inl eqs
        · rename_i s mid eqs
          split at eq
          · rename_i eqss
            cases eq
            exact .inr ⟨s, mid.val, ⟨mid.property, eqs⟩, eqss⟩
          · cases eq
    · rintro (⟨_, _, eq, kt, eqs⟩ | ⟨_, _, eq, nosemi, eqs | ⟨s, mid, ⟨fits, eqs⟩, eqss⟩⟩)
      · cases eq
        rw [kt]
        exact eqs
      · cases eq
        split
        · rename_i kt
          exact absurd kt nosemi
        · rw [eqs]
      · cases eq
        split
        · rename_i kt
          exact absurd kt nosemi
        · rw [eqs]
          dsimp only
          rw [eqss]

end LatinToScript.Grammar
