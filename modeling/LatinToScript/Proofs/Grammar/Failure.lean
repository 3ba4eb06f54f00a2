import LatinToScript.Compile
import LatinToScript.Proofs.Grammar.Acceptance
import LatinToScript.Proofs.Token.Source

/-!
# Faults have a place

Two faults are only found where there are no more tokens: `ParseError.unexpectedEnd`, the only one without
a place, and `ParseError.missingClosingBrace`. Neither is found in the tokens of a source.

Expressions and declarators never take a semicolon, so they leave the last one (`InFront`). Statements may
take it, but what they take is properly nested. The tokens after it therefore still close all the blocks
that are open (`Terminated`), and there are such tokens as long as a block is open.
-/

namespace LatinToScript

/-- A fault that is only found where there are no more tokens. -/
def ParseError.AtEnd : ParseError → Prop
  | .unexpectedEnd => True
  | .missingClosingBrace _ _ => True
  | _ => False

/-- Every other fault has a place. -/
lemma ParseError.isSome_position? {e : ParseError} (inside : ¬ e.AtEnd) : e.position?.isSome := by
  cases e with
  | unexpectedEnd => exact absurd trivial inside
  | _ => rfl

namespace Grammar

open Production

variable {α β : Type} {ts rest : List Token} {e : ParseError} {room depth : Nat}

/-! ## Expressions and declarators -/

/-- A production that stays in front of the last semicolon. -/
structure InFront (production : Production α) : Prop where
  fault : ∀ {ts e}, Ended (kinds ts) → production ts = .error e → ¬ e.AtEnd
  ended : ∀ {ts a rest}, Ended (kinds ts) → Reads (production ts) a rest → Ended (kinds rest)

/-- A single token other than a semicolon stands in front of the last semicolon. -/
lemma inFront_of_asksFor {production : Production α} {kind : α → TokenKind}
    {expectation : Expectation} (asks : AsksFor production kind expectation)
    (other : ∀ a, kind a ≠ .semicolon) : InFront production where
  fault := by
    intro ts e ended eq
    rcases asks.error_iff.mp eq with ⟨rfl, _⟩ | ⟨t, us, _, _, rfl⟩
    · exact absurd rfl ended.ne_nil
    · exact id
  ended := by
    intro ts a rest ended rd
    obtain ⟨t, rfl, kt⟩ := asks.reads_iff.mp rd
    rw [kinds_cons, kt] at ended
    exact ended.of_cons (other a)

/-- Two productions in a row stay in front of the last semicolon if each of them does. -/
lemma InFront.andThen {first : Production α} {second : α → Production β} (inf : InFront first)
    (ins : ∀ a, InFront (second a)) : InFront (first.andThen second) where
  fault := by
    intro ts e ended eq
    rcases andThen_eq_error_iff.mp eq with eqf | ⟨a, mid, rd, eqs⟩
    · exact inf.fault ended eqf
    · exact (ins a).fault (inf.ended ended rd) eqs
  ended := by
    intro ts b rest ended rd
    obtain ⟨a, mid, rf, rs⟩ := reads_andThen_iff.mp rd
    exact (ins a).ended (inf.ended ended rf) rs

/-- What is made of the result plays no part. -/
lemma InFront.map {production : Production α} (inp : InFront production) (f : α → β) :
    InFront (production.map f) where
  fault := by
    intro ts e ended eq
    exact inp.fault ended (map_eq_error_iff.mp eq)
  ended := by
    intro ts b rest ended rd
    obtain ⟨a, rd, _⟩ := reads_map_iff.mp rd
    exact inp.ended ended rd

/-- The rest of a parenthesis stays in front of the last semicolon. -/
lemma InFront.parenthesized {operand : Production Expression} (ino : InFront operand) :
    InFront (parenthesized operand) :=
  ino.andThen fun _ =>
    (inFront_of_asksFor asksFor_operator nofun).andThen fun _ =>
      ino.andThen fun _ =>
        (inFront_of_asksFor asksFor_closingParenthesis nofun).map _

/-- Operands stay in front of the last semicolon. -/
lemma inFront_operand (room : Nat) : InFront (operand room) := by
  induction room using Nat.strongRecOn with
  | _ room ih =>
  constructor
  · intro ts e ended eq
    cases operand_eq_error_iff.mp eq with
    | finished => exact absurd rfl ended.ne_nil
    | start _ => exact id
    | deep _ => exact id
    | @inside r _ _ _ kt eqp =>
      rw [kinds_cons, kt] at ended
      exact (ih r (Nat.lt_succ_self r)).parenthesized.fault (ended.of_cons nofun) eqp
  · intro ts x rest ended rd
    cases ts with
    | nil => exact absurd rd not_reads_operand_nil
    | cons t us =>
      rw [kinds_cons] at ended
      rcases reads_operand_cons_iff.mp rd with ⟨dv, rfl⟩ | ⟨n, kt, _, rfl⟩ | ⟨kt, r, rfl, rp⟩
      · apply ended.of_cons
        intro kt
        rw [kt] at dv
        cases dv
      · rw [kt] at ended
        exact ended.of_cons nofun
      · rw [kt] at ended
        exact (ih r (Nat.lt_succ_self r)).parenthesized.ended (ended.of_cons nofun) rp

/-- Expressions stay in front of the last semicolon. -/
lemma inFront_expression (room : Nat) : InFront (expression room) where
  fault := by
    intro ts e ended eq
    rcases expression_eq_error_iff.mp eq with eqo | ⟨left, t, mid, word, rl, kt, eqr⟩
    · exact (inFront_operand room).fault ended eqo
    · have endedl := (inFront_operand room).ended ended rl
      rw [kinds_cons, kt] at endedl
      exact (inFront_operand room).fault (endedl.of_cons nofun) eqr
  ended := by
    intro ts x rest ended rd
    rcases reads_expression_iff.mp rd with ⟨ro, _⟩ | ⟨left, t, mid, word, right, rl, kt, rr, _⟩
    · exact (inFront_operand room).ended ended ro
    · have endedl := (inFront_operand room).ended ended rl
      rw [kinds_cons, kt] at endedl
      exact (inFront_operand room).ended (endedl.of_cons nofun) rr

/-- Declarators stay in front of the last semicolon. -/
lemma inFront_declarator (room : Nat) : InFront (declarator room) :=
  (inFront_of_asksFor asksFor_boundName nofun).andThen fun _ =>
    (inFront_of_asksFor asksFor_copula nofun).andThen fun _ =>
      (inFront_expression room).map _

/-- The declarators of a declaration have no fault at the end. -/
lemma declarators_fault (ended : Ended (kinds ts)) (eq : declarators room ts = .error e) :
    ¬ e.AtEnd := by
  obtain ⟨length, len⟩ : ∃ n, ts.length = n := ⟨_, rfl⟩
  induction length using Nat.strongRecOn generalizing ts with
  | _ length ih =>
  subst len
  rcases declarators_eq_error_iff.mp eq with ⟨t, us, _, _, _, eqd⟩ | ⟨d, mid, rd, eqds⟩
  · exact (inFront_declarator room).fault ended eqd
  · exact ih mid.length rd.length_lt ((inFront_declarator room).ended ended rd) eqds rfl

/-! ## Statements -/

/-- The tokens close `depth` blocks besides those that they open, and the last one is a semicolon if
there is any. -/
structure Terminated (depth : Nat) (ks : List TokenKind) : Prop where
  last : ks ≠ [] → Ended ks
  braces : ks.count (.closing .brace) = ks.count (.opening .brace) + depth

/-- Properly nested tokens leave as many blocks to close as before. -/
lemma Terminated.of_append {ks ls : List TokenKind} (tm : Terminated depth (ks ++ ls))
    (nk : Nested ks) : Terminated depth ls where
  last := by
    intro some
    exact (tm.last (List.append_ne_nil_of_right_ne_nil ks some)).of_append some
  braces := by
    have braces := tm.braces
    rw [List.count_append, List.count_append, nk.count_eq] at braces
    omega

/-- So does a single token that is no bracket. -/
lemma Terminated.of_cons {k : TokenKind} {ks : List TokenKind} (tm : Terminated depth (k :: ks))
    (op : k.isOpening = false) (cl : k.isClosing = false) : Terminated depth ks := by
  rw [← List.singleton_append] at tm
  exact tm.of_append (.single op cl)

/-- After an opening brace there is one block more to close. -/
lemma Terminated.of_opening {ks : List TokenKind} (tm : Terminated depth (.opening .brace :: ks)) :
    Terminated (depth + 1) ks where
  last := by
    intro some
    exact (tm.last (List.cons_ne_nil _ _)).of_cons nofun
  braces := by
    have braces := tm.braces
    rw [List.count_cons_self, List.count_cons_of_ne (by decide)] at braces
    omega

/-- A production of blocks has no fault at the end of tokens that close the block. -/
def FaultsInside (read : BlockOwner → Position → Production (List Statement)) : Prop :=
  ∀ {depth owner opening ts e}, Terminated (depth + 1) (kinds ts) →
    read owner opening ts = .error e → ¬ e.AtEnd

/-- The test and the block of a control statement have no fault at the end. -/
lemma FaultsInside.controlled {read : BlockOwner → Position → Production (List Statement)}
    {control : Control} {position : Position} (fi : FaultsInside read)
    (tm : Terminated depth (kinds ts)) (some : ts ≠ [])
    (eq : controlled read room control position ts = .error e) : ¬ e.AtEnd := by
  have ended := tm.last (mt kinds_eq_nil_iff.mp some)
  cases controlled_eq_error_iff.mp eq with
  | test eqx => exact (inFront_expression room).fault ended eqx
  | noRelation _ _ => exact id
  | finished rx =>
    -- The test leaves the last semicolon, so the tokens cannot end behind it.
    exact absurd rfl ((inFront_expression room).ended ended rx).ne_nil
  | noBlock _ _ => exact id
  | block rx kt eqb =>
    obtain ⟨front, rfl, dv, _⟩ := derives_of_reads_expression rx
    rw [kinds_append, kinds_cons, kt] at tm
    exact fi (tm.of_append dv.nested).of_opening eqb

/-- Statements have no fault at the end if the blocks in them have none. -/
lemma FaultsInside.statementWith {read : BlockOwner → Position → Production (List Statement)}
    (fi : FaultsInside read) (tm : Terminated depth (kinds ts)) (some : ts ≠ [])
    (eq : statementWith read room ts = .error e) : ¬ e.AtEnd := by
  have ended := tm.last (mt kinds_eq_nil_iff.mp some)
  cases statementWith_eq_error_iff.mp eq with
  | finished => exact absurd rfl some
  | control kt eqc =>
    rw [kinds_cons, kt] at tm ended
    have some := mt kinds_eq_nil_iff.mpr (ended.of_cons nofun).ne_nil
    exact fi.controlled (tm.of_cons rfl rfl) some eqc
  | declaration kt eqd =>
    rw [kinds_cons, kt] at ended
    rcases declaration_eq_error_iff.mp eqd with eqds | ⟨_, _, rfl⟩
    · exact declarators_fault (ended.of_cons nofun) eqds
    · exact id
  | binding _ eqd => exact (inFront_declarator room).fault ended eqd
  | block kt eqb =>
    rw [kinds_cons, kt] at tm
    exact fi tm.of_opening eqb
  | value _ eqo => exact (inFront_operand room).fault ended eqo
  | start _ => exact id

/-- The statements of a block have no fault at the end if a single statement has none. -/
lemma ReadsStatements.blockBody_fault {read : Production Statement} {owner : BlockOwner}
    {opening : Position} (rs : ReadsStatements room read)
    (fs : ∀ {ts e}, Terminated (depth + 1) (kinds ts) → ts ≠ [] → read ts = .error e → ¬ e.AtEnd)
    (tm : Terminated (depth + 1) (kinds ts)) (eq : blockBody read owner opening ts = .error e) :
    ¬ e.AtEnd := by
  obtain ⟨length, len⟩ : ∃ n, ts.length = n := ⟨_, rfl⟩
  induction length using Nat.strongRecOn generalizing ts with
  | _ length ih =>
  subst len
  cases blockBody_eq_error_iff.mp eq with
  | finished =>
    -- A block is still open, so there must be a token to close it.
    have braces := tm.braces
    rw [kinds_nil, List.count_nil, List.count_nil] at braces
    omega
  | @semicolon _ us _ kt eqb =>
    rw [kinds_cons, kt] at tm
    exact ih us.length (Nat.lt_succ_self _) (tm.of_cons rfl rfl) eqb rfl
  | first _ _ eqs => exact fs tm (List.cons_ne_nil _ _) eqs
  | @later _ _ _ mid _ _ _ rd eqb =>
    obtain ⟨front, eqf, dv, _⟩ := rs.sound rd
    have short := rd.length_lt
    -- A statement may take the last semicolon, but no brace of a block around it.
    rw [eqf, kinds_append] at tm
    exact ih mid.length short (tm.of_append dv.nested) eqb rfl

/-- Blocks have no fault at the end of tokens that close them. -/
lemma faultsInside_block (room : Nat) : FaultsInside (block room) := by
  induction room with
  | zero =>
    intro depth owner opening ts e tm eq
    rcases block_eq_error_iff.mp eq with ⟨_, rfl⟩ | ⟨r, eqr, _⟩
    · exact id
    · cases eqr
  | succ room ih =>
    intro depth owner opening ts e tm eq
    rcases block_eq_error_iff.mp eq with ⟨eqr, _⟩ | ⟨r, eqr, eqb⟩
    · cases eqr
    · cases eqr
      exact (readsStatements_statement room).blockBody_fault ih.statementWith tm eqb

/-- Statements up to the end have no fault there. -/
lemma statements_fault (tm : Terminated depth (kinds ts)) (eq : statements room ts = .error e) :
    ¬ e.AtEnd := by
  obtain ⟨length, len⟩ : ∃ n, ts.length = n := ⟨_, rfl⟩
  induction length using Nat.strongRecOn generalizing ts with
  | _ length ih =>
  subst len
  rcases statements_eq_error_iff.mp eq with ⟨t, us, rfl, kt, eqs⟩ |
    ⟨t, us, rfl, _, eqs | ⟨s, mid, rd, eqs⟩⟩
  · rw [kinds_cons, kt] at tm
    exact ih us.length (Nat.lt_succ_self _) (tm.of_cons rfl rfl) eqs rfl
  · exact FaultsInside.statementWith (faultsInside_block room) tm (List.cons_ne_nil _ _) eqs
  · obtain ⟨front, eqf, dv, _⟩ := (readsStatements_statement room).sound rd
    have short := rd.length_lt
    rw [eqf, kinds_append] at tm
    exact ih mid.length short (tm.of_append dv.nested) eqs rfl

end Grammar

/-! ## Sources -/

/-- The tokens of a source have no fault at their end. -/
lemma Program.ofTokens_fault {source : String} {ts : List Token} {e : ParseError}
    (eqt : Token.ofSource source = .ok ts) (eq : Program.ofTokens ts = .error e) : ¬ e.AtEnd := by
  have tm : Grammar.Terminated 0 (kinds ts) := by
    refine ⟨fun _ => Token.ofSource_ended eqt, ?_⟩
    rw [Token.ofSource_count_eq eqt, Nat.add_zero]
  unfold Program.ofTokens Program.ofTokensWithin at eq
  split at eq
  · rename_i eqs
    cases eq
    exact Grammar.statements_fault tm eqs
  · cases eq

/-- A source that is not compiled has no tokens, or these are no program. -/
lemma compile_eq_error_iff {source : String} {e : CompileError} :
    compile source = .error e ↔
      (∃ error, Token.ofSource source = .error error ∧ e = .token error) ∨
      ∃ ts error, Token.ofSource source = .ok ts ∧ Program.ofTokens ts = .error error ∧
        e = .parse error := by
  unfold compile Program.ofSource
  constructor
  · intro eq
    split at eq
    · rename_i eqs
      cases eq
      split at eqs
      · rename_i error eqt
        cases eqs
        exact .inl ⟨error, eqt, rfl⟩
      · rename_i ts eqt
        split at eqs
        · rename_i error eqp
          cases eqs
          exact .inr ⟨ts, error, eqt, eqp, rfl⟩
        · cases eqs
    · cases eq
  · rintro (⟨error, eqt, rfl⟩ | ⟨ts, error, eqt, eqp, rfl⟩)
    · rw [eqt]
    · rw [eqt]
      dsimp only
      rw [eqp]

/-- The tokens of a source end in a semicolon, they have no fault at their end, and so every fault of a
source has a place. -/
theorem compile_error_located (source : String) :
    (∀ ts, Token.ofSource source = .ok ts →
      ts ≠ [] ∧ ts.getLast?.map Token.kind = some .semicolon ∧
      Program.ofTokens ts ≠ .error .unexpectedEnd ∧
      ∀ owner position, Program.ofTokens ts ≠ .error (.missingClosingBrace owner position)) ∧
    ∀ e, compile source = .error e → e.position?.isSome := by
  refine ⟨?_, ?_⟩
  · intro ts eqt
    have ended := Token.ofSource_ended eqt
    refine ⟨?_, ?_, ?_, ?_⟩
    · exact mt kinds_eq_nil_iff.mpr ended.ne_nil
    · rwa [Ended, kinds, List.getLast?_map] at ended
    · intro eq
      exact Program.ofTokens_fault eqt eq trivial
    · intro owner position eq
      exact Program.ofTokens_fault eqt eq trivial
  · intro e eq
    rcases compile_eq_error_iff.mp eq with ⟨error, _, rfl⟩ | ⟨ts, error, eqt, eqp, rfl⟩
    · rfl
    · exact ParseError.isSome_position? (Program.ofTokens_fault eqt eqp)

/-- A keyword alone has tokens, and its fault is the declaration without declarators. -/
theorem compile_error_located_keyword :
    (∃ ts, Token.ofSource "dico" = .ok ts ∧ ts ≠ [] ∧
      ts.getLast?.map Token.kind = some .semicolon ∧
      Program.ofTokens ts ≠ .error .unexpectedEnd ∧
      ∀ owner position, Program.ofTokens ts ≠ .error (.missingClosingBrace owner position)) ∧
    compile "dico" = .error (.parse (.emptyDeclaration .start)) ∧
    (CompileError.parse (.emptyDeclaration .start)).position?.isSome := by
  have eqt : Token.ofSource "dico" =
      .ok [⟨.keyword (.declare .dico), .start⟩, ⟨.semicolon, Position.start.advanceAll "dico".toList⟩] := by
    decide +kernel
  have eqc : compile "dico" = .error (.parse (.emptyDeclaration .start)) := by decide +kernel
  obtain ⟨ends, located⟩ := compile_error_located "dico"
  exact ⟨⟨_, eqt, ends _ eqt⟩, eqc, located _ eqc⟩

end LatinToScript
