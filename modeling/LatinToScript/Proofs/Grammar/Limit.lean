import LatinToScript.Proofs.Grammar.Acceptance
import Mathlib.Data.List.Induction
import Mathlib.Order.Bounds.Basic

/-!
# The limit of nesting

How many brackets may be open is an argument of the parser. `Program.ofTokensUnlimited` parses with as
much room as there are tokens, which is always enough. Less room makes one difference only: parsing may
stop at the first bracket that is one too many (`Overflow`).

Two runs of a production with different room are compared step by step. Both read the same, or both have
the same fault, or the run with less room stops at its overflow (`Widens`). In front of each step the
tokens that are already taken are properly nested, so they neither use up room nor give it back.
-/

namespace LatinToScript

/-! ## One bracket too many -/

/-- Behind some tokens stands an opening bracket for which there is no room, and it is the first one. -/
structure Overflow (room : Nat) (front : List Token) (t : Token) : Prop where
  opening : t.kind.isOpening = true
  full : openings (kinds front) = closings (kinds front) + room
  within : NestedWithin room (kinds front)

/-- A fault is that of the first bracket for which there is no room. -/
def TooDeep (room : Nat) (ts : List Token) (e : ParseError) : Prop :=
  ∃ front t rest, ts = front ++ t :: rest ∧ Overflow room front t ∧ e = .nestingTooDeep t.position

/-- A token that opens is an opening bracket. -/
lemma TokenKind.exists_opening {k : TokenKind} (op : k.isOpening = true) :
    ∃ bracket, k = .opening bracket := by
  cases k with
  | opening bracket => exact ⟨bracket, rfl⟩
  | _ => cases op

section TooDeep

variable {room : Nat} {front ts : List Token} {t : Token} {e : ParseError} {bracket : Bracket}

/-- Behind an overflow one bracket too many is open. -/
lemma Overflow.beyond (flow : Overflow room front t) :
    openings (kinds (front ++ [t])) = closings (kinds (front ++ [t])) + room + 1 := by
  obtain ⟨bracket, kt⟩ := TokenKind.exists_opening flow.opening
  have full := flow.full
  rw [kinds_append, kinds_cons, kinds_nil, kt, openings_append, closings_append, openings_opening_cons,
    closings_opening_cons, openings_nil, closings_nil]
  omega

/-- Without any room the first bracket is one too many. -/
lemma tooDeep_here (kt : t.kind = .opening bracket) :
    TooDeep 0 (t :: ts) (.nestingTooDeep t.position) := by
  refine ⟨[], t, ts, rfl, ⟨?_, rfl, nestedWithin_nil⟩, rfl⟩
  rw [kt]
  rfl

/-- Properly nested tokens in front leave the room as it is. -/
lemma TooDeep.behind (deep : TooDeep room ts e) (nested : Nested (kinds front))
    (nw : NestedWithin room (kinds front)) : TooDeep room (front ++ ts) e := by
  obtain ⟨before, t, rest, rfl, flow, rfl⟩ := deep
  refine ⟨front ++ before, t, rest, by rw [List.append_assoc], ⟨flow.opening, ?_, ?_⟩, rfl⟩
  · have equal := nested.openings_eq
    have full := flow.full
    rw [kinds_append, openings_append, closings_append]
    omega
  · rw [kinds_append]
    exact nested.within_append_iff.mpr ⟨nw, flow.within⟩

/-- A token that is no bracket leaves the room as it is. -/
lemma TooDeep.behind_plain {k : TokenKind} (deep : TooDeep room ts e) (kt : t.kind = k)
    (op : k.isOpening = false) (cl : k.isClosing = false) : TooDeep room (t :: ts) e := by
  subst kt
  rw [← List.singleton_append]
  exact deep.behind (.single op cl) (nestedWithin_single op)

/-- Behind an opening bracket there is one level less. -/
lemma TooDeep.behind_opening (deep : TooDeep room ts e) (kt : t.kind = .opening bracket) :
    TooDeep (room + 1) (t :: ts) e := by
  obtain ⟨before, u, rest, rfl, flow, rfl⟩ := deep
  refine ⟨t :: before, u, rest, rfl, ⟨flow.opening, ?_, ?_⟩, rfl⟩
  · have full := flow.full
    rw [kinds_cons, kt, openings_opening_cons, closings_opening_cons]
    omega
  · rw [kinds_cons, kt]
    intro front pre
    rcases List.prefix_cons_iff.mp pre with rfl | ⟨inner, rfl, inside⟩
    · exact Nat.zero_le _
    · have le := flow.within inner inside
      rw [openings_opening_cons, closings_opening_cons]
      omega

/-- Where the nesting stays within the room there is no overflow. -/
lemma TooDeep.not_within (deep : TooDeep room ts e) : ¬ NestedWithin room (kinds ts) := by
  obtain ⟨front, t, rest, rfl, flow, rfl⟩ := deep
  intro nw
  rw [List.append_cons, kinds_append] at nw
  have le := nw _ (List.prefix_append _ _)
  have beyond := flow.beyond
  omega

/-- Where the nesting does not stay within the room there is an overflow. -/
lemma exists_overflow (deep : ¬ NestedWithin room (kinds ts)) :
    ∃ front t rest, ts = front ++ t :: rest ∧ Overflow room front t := by
  induction ts using List.reverseRecOn with
  | nil => exact absurd nestedWithin_nil deep
  | append_singleton ts t ih =>
    by_cases nw : NestedWithin room (kinds ts)
    · refine ⟨ts, t, [], rfl, ?_⟩
      rw [kinds_append, kinds_cons, kinds_nil] at deep
      cases op : t.kind.isOpening with
      | false => exact absurd (nw.concat op) deep
      | true =>
        refine ⟨op, Nat.le_antisymm (nw _ (List.prefix_refl _)) (Nat.not_lt.mp fun lt => ?_), nw⟩
        -- With a level left the bracket does not go beyond the limit.
        apply deep
        intro front pre
        rcases List.prefix_concat_iff.mp pre with rfl | pre
        · obtain ⟨bracket, kt⟩ := TokenKind.exists_opening op
          rw [kt, openings_append, closings_append, openings_opening_cons, closings_opening_cons,
            openings_nil, closings_nil]
          omega
        · exact nw front pre
    · obtain ⟨front, u, rest, rfl, flow⟩ := ih nw
      exact ⟨front, u, rest ++ [t], by simp, flow⟩

end TooDeep

/-! ## Runs with different room -/

/-- A fault of a run with some room, compared with a run that has more: it is no matter of room and the
other run has it as well, or it is the overflow. -/
inductive FaultWidens {γ : Type} (room : Nat) (ts : List Token) (e : ParseError)
    (other : Except ParseError γ) : Prop where
  | same :
    other = .error e →
    (∀ p, e ≠ .nestingTooDeep p) →
    FaultWidens room ts e other
  | deep :
    TooDeep room ts e →
    FaultWidens room ts e other

/-- A fault of a production inside another one compares in the same way. -/
lemma FaultWidens.lift {γ δ : Type} {room room' : Nat} {ts us : List Token} {e : ParseError}
    {other : Except ParseError γ} {outer : Except ParseError δ} (widens : FaultWidens room us e other)
    (again : other = .error e → outer = .error e) (behind : TooDeep room us e → TooDeep room' ts e) :
    FaultWidens room' ts e outer := by
  cases widens with
  | same eq shallow => exact .same (again eq) shallow
  | deep deep => exact .deep (behind deep)

namespace Grammar

variable {α : Type} {room more : Nat} {ts us rest : List Token} {t : Token} {e : ParseError}

/-- A result with some room, compared with the one that has more. -/
structure Widens {Fits : List Token → Prop} (room : Nat) (ts : List Token)
    (result other : Except ParseError (α × { rest : List Token // Fits rest })) : Prop where
  reads : ∀ {a rest}, Reads result a rest → Reads other a rest
  fault : ∀ {e}, result = .error e → FaultWidens room ts e other

/-! ## Expressions -/

/-- More room changes a fault in parentheses only if it is an overflow, given that this holds of operands. -/
lemma parenthesized_widens (wo : ∀ ts, Widens room ts (operand room ts) (operand more ts))
    (eq : parenthesized (operand room) ts = .error e) :
    FaultWidens room ts e (parenthesized (operand more) ts) := by
  rcases parenthesized_eq_error_iff.mp eq with eql | ⟨left, us, rl, fault⟩
  · exact ((wo ts).fault eql).lift (fun eql => parenthesized_eq_error_iff.mpr (.inl eql)) id
  have again : ∀ {e}, _ → parenthesized (operand more) ts = .error e :=
    fun fault => parenthesized_eq_error_iff.mpr (.inr ⟨left, us, (wo ts).reads rl, fault⟩)
  rcases fault with eqo | ⟨o, mid, word, rfl, ko, fault⟩
  · rcases asksFor_operator.error_iff.mp eqo with ⟨_, rfl⟩ | ⟨_, _, _, _, rfl⟩
    all_goals exact .same (again (.inl eqo)) nofun
  rcases fault with eqr | ⟨right, vs, rr, eqc⟩
  · obtain ⟨fl, rfl, dl, nw⟩ := reads_operand_iff.mp rl
    refine ((wo mid).fault eqr).lift ?_ ?_
    · intro eqr
      exact again (.inr ⟨o, mid, word, rfl, ko, .inl eqr⟩)
    · intro deep
      have plain : TooDeep room (o :: mid) e := deep.behind_plain ko rfl rfl
      exact plain.behind dl.nested nw
  · have rr' := (wo mid).reads rr
    rcases asksFor_closingParenthesis.error_iff.mp eqc with ⟨_, rfl⟩ | ⟨_, _, _, _, rfl⟩
    all_goals exact .same (again (.inr ⟨o, mid, word, rfl, ko, .inr ⟨right, vs, rr', eqc⟩⟩)) nofun

/-- More room changes an operand only where it overflows. -/
lemma operand_widens (le : room ≤ more) (ts : List Token) :
    Widens room ts (operand room ts) (operand more ts) := by
  induction room using Nat.strongRecOn generalizing more ts with
  | _ room ih =>
  constructor
  · intro x rest rd
    obtain ⟨front, rfl, dv, nw⟩ := reads_operand_iff.mp rd
    exact reads_operand_iff.mpr ⟨front, rfl, dv, nw.mono le⟩
  · intro e eq
    cases operand_eq_error_iff.mp eq with
    | finished => exact .same (operand_eq_error_iff.mpr .finished) nofun
    | start nostart => exact .same (operand_eq_error_iff.mpr (.start nostart)) nofun
    | deep kt => exact .deep (tooDeep_here kt)
    | @inside room _ _ _ kt eqp =>
      obtain ⟨more, rfl⟩ := Nat.exists_eq_add_of_lt (Nat.lt_of_succ_le le)
      have wo := ih room (Nat.lt_succ_self room) (Nat.le_add_right room more)
      refine (parenthesized_widens wo eqp).lift ?_ (fun deep => deep.behind_opening kt)
      intro eqp
      exact operand_eq_error_iff.mpr (.inside kt eqp)

/-- More room changes an expression only where it overflows. -/
lemma expression_widens (le : room ≤ more) (ts : List Token) :
    Widens room ts (expression room ts) (expression more ts) := by
  have operand := operand_widens le
  constructor
  · intro x rest rd
    rcases reads_expression_iff.mp rd with ⟨ro, no⟩ | ⟨left, o, mid, word, right, rl, ko, rr, rfl⟩
    · exact reads_expression_iff.mpr (.inl ⟨(operand ts).reads ro, no⟩)
    · have rl' := (operand ts).reads rl
      have rr' := (operand mid).reads rr
      exact reads_expression_iff.mpr (.inr ⟨left, o, mid, word, right, rl', ko, rr', rfl⟩)
  · intro e eq
    rcases expression_eq_error_iff.mp eq with eqo | ⟨left, o, mid, word, rl, ko, eqr⟩
    · exact ((operand ts).fault eqo).lift (fun eqo => expression_eq_error_iff.mpr (.inl eqo)) id
    · have rl' := (operand ts).reads rl
      obtain ⟨fl, rfl, dl, nw⟩ := reads_operand_iff.mp rl
      refine ((operand mid).fault eqr).lift ?_ ?_
      · intro eqr
        exact expression_eq_error_iff.mpr (.inr ⟨left, o, mid, word, rl', ko, eqr⟩)
      · intro deep
        have plain : TooDeep room (o :: mid) e := deep.behind_plain ko rfl rfl
        exact plain.behind dl.nested nw

/-! ## Declarations -/

/-- More room changes a declarator only where it overflows. -/
lemma declarator_widens (le : room ≤ more) (ts : List Token) :
    Widens room ts (declarator room ts) (declarator more ts) := by
  constructor
  · intro d rest rd
    obtain ⟨t, c, mid, n, value, rfl, kt, kc, rv, rfl⟩ := reads_declarator_iff.mp rd
    have rv' := (expression_widens le mid).reads rv
    exact reads_declarator_iff.mpr ⟨t, c, mid, n, value, rfl, kt, kc, rv', rfl⟩
  · intro e eq
    rcases declarator_eq_error_iff.mp eq with eqn | ⟨t, us, n, rfl, kt, fault⟩
    · have again : declarator more ts = .error e := declarator_eq_error_iff.mpr (.inl eqn)
      rcases asksFor_boundName.error_iff.mp eqn with ⟨_, rfl⟩ | ⟨_, _, _, _, rfl⟩
      all_goals exact .same again nofun
    have again : ∀ {e}, _ → declarator more (t :: us) = .error e :=
      fun fault => declarator_eq_error_iff.mpr (.inr ⟨t, us, n, rfl, kt, fault⟩)
    rcases fault with eqc | ⟨c, mid, rfl, kc, eqx⟩
    · rcases asksFor_copula.error_iff.mp eqc with ⟨_, rfl⟩ | ⟨_, _, _, _, rfl⟩
      all_goals exact .same (again (.inl eqc)) nofun
    · refine ((expression_widens le mid).fault eqx).lift (fun eqx => again (.inr ⟨c, mid, rfl, kc, eqx⟩)) ?_
      intro deep
      have plain : TooDeep room (c :: mid) e := deep.behind_plain kc rfl rfl
      exact plain.behind_plain kt rfl rfl

/-- More room changes declarators only where they overflow. -/
lemma declarators_widens (le : room ≤ more) (ts : List Token) :
    Widens room ts (declarators room ts) (declarators more ts) := by
  constructor
  · intro ds rest rd
    induction ds generalizing ts with
    | nil =>
      rcases reads_declarators_iff.mp rd with ends | ⟨_, _, _, _, _, eq⟩
      · exact reads_declarators_iff.mpr (.inl ends)
      · cases eq
    | cons d ds ih =>
      rcases reads_declarators_iff.mp rd with ⟨eq, _⟩ | ⟨_, mid, _, rd, rds, eq⟩
      · cases eq
      · cases eq
        have rd' := (declarator_widens le ts).reads rd
        exact reads_declarators_iff.mpr (.inr ⟨d, mid, ds, rd', ih mid rds, rfl⟩)
  · intro e eq
    obtain ⟨length, len⟩ : ∃ n, ts.length = n := ⟨_, rfl⟩
    induction length using Nat.strongRecOn generalizing ts with
    | _ length ih =>
    subst len
    rcases declarators_eq_error_iff.mp eq with ⟨t, us, rfl, nosemi, nobrace, eqd⟩ | ⟨d, mid, rd, eqs⟩
    · refine ((declarator_widens le _).fault eqd).lift ?_ id
      intro eqd
      exact declarators_eq_error_iff.mpr (.inl ⟨t, us, rfl, nosemi, nobrace, eqd⟩)
    · have rd' := (declarator_widens le ts).reads rd
      refine (ih mid.length rd.length_lt mid eqs rfl).lift ?_ ?_
      · intro eqs
        exact declarators_eq_error_iff.mpr (.inr ⟨d, mid, rd', eqs⟩)
      · intro deep
        obtain ⟨fd, rfl, dd, nw⟩ := derives_of_reads_declarator rd
        exact deep.behind dd.nested nw

/-- More room changes a declaration only where it overflows. -/
lemma declaration_widens (le : room ≤ more) (binding : Binding) (position : Position) (ts : List Token) :
    Widens room ts (declaration room binding position ts) (declaration more binding position ts) := by
  constructor
  · intro d rest rd
    obtain ⟨ds, rds, some, rfl⟩ := reads_declaration_iff.mp rd
    exact reads_declaration_iff.mpr ⟨ds, (declarators_widens le ts).reads rds, some, rfl⟩
  · intro e eq
    rcases declaration_eq_error_iff.mp eq with eqs | ⟨rest, rds, rfl⟩
    · exact ((declarators_widens le ts).fault eqs).lift (fun eqs => declaration_eq_error_iff.mpr (.inl eqs)) id
    · have rds' := (declarators_widens le ts).reads rds
      exact .same (declaration_eq_error_iff.mpr (.inr ⟨rest, rds', rfl⟩)) nofun

/-! ## Statements -/

/-- Blocks with some room, compared with those that have more. Their opening brace is the first bracket
that takes room. -/
def WidensBlocks (room more : Nat) : Prop :=
  ∀ owner {t : Token}, t.kind = .opening .brace → ∀ ts,
    (∀ {body rest}, Reads (block room owner t.position ts) body rest →
      Reads (block more owner t.position ts) body rest) ∧
    ∀ {e}, block room owner t.position ts = .error e →
      FaultWidens room (t :: ts) e (block more owner t.position ts)

/-- More room changes a control statement only where it overflows, given that this holds of blocks. -/
lemma WidensBlocks.controlled (wb : WidensBlocks room more) (le : room ≤ more) (control : Control)
    (position : Position) (ts : List Token) :
    Widens room ts (controlled (block room) room control position ts)
      (controlled (block more) more control position ts) := by
  have test := expression_widens le ts
  constructor
  · rintro ⟨x, body⟩ rest rd
    obtain ⟨o, mid, rx, ko, rb⟩ := reads_controlled_iff.mp rd
    exact reads_controlled_iff.mpr ⟨o, mid, test.reads rx, ko, (wb _ ko mid).1 rb⟩
  · intro e eq
    have again : ∀ {e}, ControlledFails (block more) more control position ts e →
        Grammar.controlled (block more) more control position ts = .error e :=
      controlled_eq_error_iff.mpr
    cases controlled_eq_error_iff.mp eq with
    | test eqx => exact (test.fault eqx).lift (fun eqx => again (.test eqx)) id
    | noRelation rx norelation => exact .same (again (.noRelation (test.reads rx) norelation)) nofun
    | finished rx => exact .same (again (.finished (test.reads rx))) nofun
    | noBlock rx other => exact .same (again (.noBlock (test.reads rx) other)) nofun
    | @block _ _ mid _ rx ko eqb =>
      refine ((wb _ ko mid).2 eqb).lift (fun eqb => again (.block (test.reads rx) ko eqb)) ?_
      intro deep
      obtain ⟨fx, rfl, dx, nw⟩ := derives_of_reads_expression rx
      exact deep.behind dx.nested nw

/-- More room changes a statement only where it overflows, given that this holds of blocks. -/
lemma WidensBlocks.statement (wb : WidensBlocks room more) (le : room ≤ more) (ts : List Token) :
    Widens room ts (statement room ts) (statement more ts) := by
  constructor
  · intro s rest rs
    apply reads_statementWith_iff.mpr
    cases reads_statementWith_iff.mp rs with
    | control kt rc => exact .control kt ((wb.controlled le _ _ _).reads rc)
    | declaration kt rd => exact .declaration kt ((declaration_widens le _ _ _).reads rd)
    | binding kt rd => exact .binding kt ((declarator_widens le _).reads rd)
    | block kt rb => exact .block kt ((wb _ kt _).1 rb)
    | value start ro => exact .value start ((operand_widens le _).reads ro)
  · intro e eq
    cases statementWith_eq_error_iff.mp eq with
    | finished => exact .same (statementWith_eq_error_iff.mpr .finished) nofun
    | control kt eqc =>
      refine ((wb.controlled le _ _ _).fault eqc).lift ?_ ?_
      · intro eqc
        exact statementWith_eq_error_iff.mpr (.control kt eqc)
      · intro deep
        exact deep.behind_plain kt rfl rfl
    | declaration kt eqd =>
      refine ((declaration_widens le _ _ _).fault eqd).lift ?_ ?_
      · intro eqd
        exact statementWith_eq_error_iff.mpr (.declaration kt eqd)
      · intro deep
        exact deep.behind_plain kt rfl rfl
    | binding kt eqd =>
      refine ((declarator_widens le _).fault eqd).lift ?_ id
      intro eqd
      exact statementWith_eq_error_iff.mpr (.binding kt eqd)
    | block kt eqb =>
      refine ((wb _ kt _).2 eqb).lift ?_ id
      intro eqb
      exact statementWith_eq_error_iff.mpr (.block kt eqb)
    | value start eqo =>
      refine ((operand_widens le _).fault eqo).lift ?_ id
      intro eqo
      exact statementWith_eq_error_iff.mpr (.value start eqo)
    | start nostart => exact .same (statementWith_eq_error_iff.mpr (.start nostart)) nofun

/-- Each statement of a block shortens the tokens, so the induction is on their number. -/
lemma WidensBlocks.blockBody (wb : WidensBlocks room more) (le : room ≤ more) (owner : BlockOwner)
    (opening : Position) (ts : List Token) :
    Widens room ts (blockBody (Grammar.statement room) owner opening ts)
      (blockBody (Grammar.statement more) owner opening ts) := by
  obtain ⟨length, len⟩ : ∃ n, ts.length = n := ⟨_, rfl⟩
  induction length using Nat.strongRecOn generalizing ts with
  | _ length ih =>
  subst len
  constructor
  · intro body rest rd
    rcases reads_blockBody_iff.mp rd with ⟨t, rfl, kt, rfl⟩ | ⟨t, us, rfl, kt, rb⟩ |
      ⟨t, us, rfl, nobrace, nosemi, s, mid, ss, rs, rb, rfl⟩
    · exact reads_blockBody_iff.mpr (.inl ⟨t, rfl, kt, rfl⟩)
    · have rb' := (ih us.length (Nat.lt_succ_self _) us rfl).reads rb
      exact reads_blockBody_iff.mpr (.inr (.inl ⟨t, us, rfl, kt, rb'⟩))
    · have rs' := (wb.statement le _).reads rs
      have rb' := (ih mid.length rs.length_lt mid rfl).reads rb
      exact reads_blockBody_iff.mpr
        (.inr (.inr ⟨t, us, rfl, nobrace, nosemi, s, mid, ss, rs', rb', rfl⟩))
  · intro e eq
    cases blockBody_eq_error_iff.mp eq with
    | finished => exact .same (blockBody_eq_error_iff.mpr .finished) nofun
    | @semicolon _ us _ kt eqb =>
      refine ((ih us.length (Nat.lt_succ_self _) us rfl).fault eqb).lift ?_ ?_
      · intro eqb
        exact blockBody_eq_error_iff.mpr (.semicolon kt eqb)
      · intro deep
        exact deep.behind_plain kt rfl rfl
    | first nobrace nosemi eqs =>
      refine ((wb.statement le _).fault eqs).lift ?_ id
      intro eqs
      exact blockBody_eq_error_iff.mpr (.first nobrace nosemi eqs)
    | @later _ _ _ mid _ nobrace nosemi rs eqb =>
      have rs' := (wb.statement le _).reads rs
      refine ((ih mid.length rs.length_lt mid rfl).fault eqb).lift ?_ ?_
      · intro eqb
        exact blockBody_eq_error_iff.mpr (.later nobrace nosemi rs' eqb)
      · intro deep
        obtain ⟨fs, eqf, ds, nw⟩ := (readsStatements_statement room).sound rs
        rw [eqf]
        exact deep.behind ds.nested nw

/-- More room changes a block only where it overflows. -/
lemma widensBlocks_block (le : room ≤ more) : WidensBlocks room more := by
  induction room generalizing more with
  | zero =>
    intro owner t kt ts
    refine ⟨?_, ?_⟩
    · intro body rest rd
      obtain ⟨_, eq, _⟩ := reads_block_iff.mp rd
      cases eq
    · intro e eq
      rcases block_eq_error_iff.mp eq with ⟨_, rfl⟩ | ⟨_, eqr, _⟩
      · exact .deep (tooDeep_here kt)
      · cases eqr
  | succ room ih =>
    obtain ⟨more, rfl⟩ := Nat.exists_eq_add_of_lt (Nat.lt_of_succ_le le)
    have wb := ih (Nat.le_add_right room more)
    intro owner t kt ts
    have body := wb.blockBody (Nat.le_add_right room more) owner t.position ts
    exact ⟨body.reads, fun eq => (body.fault eq).lift id (fun deep => deep.behind_opening kt)⟩

/-- More room leaves a fault of statements as it is, unless it is the overflow. -/
lemma statements_widens (le : room ≤ more) (eq : statements room ts = .error e) :
    FaultWidens room ts e (statements more ts) := by
  have statement := (widensBlocks_block le).statement le
  obtain ⟨length, len⟩ : ∃ n, ts.length = n := ⟨_, rfl⟩
  induction length using Nat.strongRecOn generalizing ts with
  | _ length ih =>
  subst len
  rcases statements_eq_error_iff.mp eq with ⟨t, us, rfl, kt, eqs⟩ | ⟨t, us, rfl, nosemi, fault⟩
  · refine (ih us.length (Nat.lt_succ_self _) eqs rfl).lift ?_ ?_
    · intro eqs
      exact statements_eq_error_iff.mpr (.inl ⟨t, us, rfl, kt, eqs⟩)
    · intro deep
      exact deep.behind_plain kt rfl rfl
  have again : ∀ {e}, _ → statements more (t :: us) = .error e :=
    fun fault => statements_eq_error_iff.mpr (.inr ⟨t, us, rfl, nosemi, fault⟩)
  rcases fault with eqs | ⟨s, mid, rs, eqs⟩
  · exact ((statement _).fault eqs).lift (fun eqs => again (.inl eqs)) id
  · have rs' := (statement _).reads rs
    refine (ih mid.length rs.length_lt eqs rfl).lift ?_ ?_
    · intro eqs
      exact again (.inr ⟨s, mid, rs', eqs⟩)
    · intro deep
      obtain ⟨fs, eqf, ds, nw⟩ := (readsStatements_statement room).sound rs
      rw [eqf]
      exact deep.behind ds.nested nw

end Grammar

/-! ## Programs -/

/-- The program that a token list is, however deep its brackets are nested. There are no more of them
than tokens, so this limit is never reached. -/
def Program.ofTokensUnlimited (ts : List Token) : Except ParseError Program :=
  Program.ofTokensWithin ts.length ts

/-- At an index of a token list a bracket is opened while `limit` brackets are open already. -/
def OpensBeyond (limit : Nat) (ts : List Token) (i : Nat) : Prop :=
  ∃ t, ts[i]? = some t ∧ t.kind.isOpening = true ∧
    openings (kinds (ts.take i)) = closings (kinds (ts.take i)) + limit

/-- An overflow is the first place where a bracket is opened beyond the limit. -/
lemma Overflow.isLeast {room : Nat} {front : List Token} {t : Token} (flow : Overflow room front t)
    (rest : List Token) : IsLeast {i | OpensBeyond room (front ++ t :: rest) i} front.length := by
  constructor
  · refine ⟨t, by simp, flow.opening, ?_⟩
    rw [List.take_left]
    exact flow.full
  · rintro i ⟨u, get, op, full⟩
    refine Nat.not_lt.mp fun lt => ?_
    -- Behind an earlier such bracket too many would be open inside `front`.
    rw [List.take_append_of_le_length (Nat.le_of_lt lt)] at full
    rw [List.getElem?_append_left lt] at get
    have taken : front.take (i + 1) = front.take i ++ [u] := by
      rw [List.take_add_one, get]
      rfl
    have nw : NestedWithin room (kinds (front.take i ++ [u])) :=
      flow.within.of_prefix (taken ▸ (List.take_prefix _ _).map Token.kind)
    have le := nw _ (List.prefix_refl _)
    have beyond := Overflow.beyond ⟨op, full, flow.within.of_prefix ((List.take_prefix _ _).map Token.kind)⟩
    omega

/-- Tokens nest at most as deep as there are tokens. -/
lemma nestedWithin_tokens (ts : List Token) : NestedWithin ts.length (kinds ts) := by
  have nw := nestedWithin_length (kinds ts)
  rw [kinds, List.length_map] at nw
  exact nw

/-- Where the brackets are nested within both of two limits, it does not matter which one is set. -/
lemma Program.ofTokensWithin_eq {limit other : Nat} {ts : List Token} (nw : NestedWithin limit (kinds ts))
    (nw' : NestedWithin other (kinds ts)) :
    Program.ofTokensWithin limit ts = Program.ofTokensWithin other ts := by
  wlog le : limit ≤ other generalizing limit other
  · exact (this nw' nw (Nat.le_of_not_le le)).symm
  cases eq : Program.ofTokensWithin limit ts with
  | ok p =>
    obtain ⟨dv, _⟩ := ofTokensWithin_eq_ok_iff.mp eq
    exact (ofTokensWithin_eq_ok_iff.mpr ⟨dv, nw'⟩).symm
  | error e =>
    cases Grammar.statements_widens le (ofTokensWithin_eq_error_iff.mp eq) with
    | same eq' _ => exact (ofTokensWithin_eq_error_iff.mpr eq').symm
    | deep deep => exact absurd nw deep.not_within

/-- Without a limit no bracket is too deep. -/
lemma Program.ofTokensUnlimited_ne {ts : List Token} (position : Position) :
    Program.ofTokensUnlimited ts ≠ .error (.nestingTooDeep position) := by
  intro eq
  cases Grammar.statements_widens (Nat.le_refl _) (ofTokensWithin_eq_error_iff.mp eq) with
  | same _ shallow => exact shallow position rfl
  | deep deep => exact deep.not_within (nestedWithin_tokens ts)

/-- Beyond the limit parsing fails, at the first bracket beyond it or as it does without a limit. -/
lemma Program.ofTokensWithin_beyond {limit : Nat} {ts : List Token}
    (beyond : ¬ NestedWithin limit (kinds ts)) :
    ∃ front t rest, ts = front ++ t :: rest ∧ Overflow limit front t ∧
      (Program.ofTokensWithin limit ts = .error (.nestingTooDeep t.position) ∨
        ∃ e, Program.ofTokensWithin limit ts = .error e ∧ Program.ofTokensUnlimited ts = .error e) := by
  have le : limit ≤ ts.length := Nat.le_of_not_le fun ge => beyond ((nestedWithin_tokens ts).mono ge)
  cases eq : Program.ofTokensWithin limit ts with
  | ok p => exact absurd (ofTokensWithin_eq_ok_iff.mp eq).2 beyond
  | error e =>
    cases Grammar.statements_widens le (ofTokensWithin_eq_error_iff.mp eq) with
    | same eq' _ =>
      obtain ⟨front, t, rest, eqt, flow⟩ := exists_overflow beyond
      exact ⟨front, t, rest, eqt, flow, .inr ⟨e, rfl, ofTokensWithin_eq_error_iff.mpr eq'⟩⟩
    | deep deep =>
      obtain ⟨front, t, rest, eqt, flow, rfl⟩ := deep
      exact ⟨front, t, rest, eqt, flow, .inl rfl⟩

/-- The limit of nesting changes nothing but this: where more than 256 brackets are open somewhere, tokens
that are a program without a limit are refused at the first bracket beyond it, and others are refused there
or for the same reason as without a limit. -/
theorem Program.ofTokens_limit (ts : List Token) :
    (∀ limit, ts.length ≤ limit → Program.ofTokensWithin limit ts = Program.ofTokensUnlimited ts) ∧
    (∀ position, Program.ofTokensUnlimited ts ≠ .error (.nestingTooDeep position)) ∧
    (NestedWithin 256 (kinds ts) → Program.ofTokens ts = Program.ofTokensUnlimited ts) ∧
    (¬ NestedWithin 256 (kinds ts) →
      ∃ i t, ts[i]? = some t ∧ IsLeast {i | OpensBeyond 256 ts i} i ∧
        (Program.ofTokens ts = .error (.nestingTooDeep t.position) ∨
          ∃ e, Program.ofTokens ts = .error e ∧ Program.ofTokensUnlimited ts = .error e) ∧
        ∀ p, Program.ofTokensUnlimited ts = .ok p →
          Program.ofTokens ts = .error (.nestingTooDeep t.position)) := by
  have enough := nestedWithin_tokens ts
  refine ⟨?_, ofTokensUnlimited_ne, ?_, ?_⟩
  · intro limit le
    exact ofTokensWithin_eq (enough.mono le) enough
  · intro nw
    exact ofTokensWithin_eq nw enough
  · intro beyond
    obtain ⟨front, t, rest, rfl, flow, fault⟩ := ofTokensWithin_beyond beyond
    refine ⟨front.length, t, by simp, flow.isLeast rest, fault, ?_⟩
    intro p ok
    rcases fault with deep | ⟨e, _, eq⟩
    · exact deep
    · rw [ok] at eq
      cases eq

/-- Blocks inside one another, each with nothing else in it. -/
def nestedBlocks (depth : Nat) : List Token :=
  (List.range depth).map (fun i => ⟨.opening .brace, ⟨i, 1, i + 1⟩⟩) ++
    (List.range depth).map fun i => ⟨.closing .brace, ⟨depth + i, 1, depth + i + 1⟩⟩

/-- Nested blocks are opening braces and as many closing ones. -/
lemma kinds_nestedBlocks (depth : Nat) :
    kinds (nestedBlocks depth) =
      List.replicate depth (.opening .brace) ++ List.replicate depth (.closing .brace) := by
  simp [kinds, nestedBlocks, Function.comp_def, List.map_const']

/-- Nested blocks are statements, however deep they are. -/
lemma exists_derives_nestedBlocks (depth : Nat) (rest : List TokenKind) :
    ∃ body, DerivesStatements
      (List.replicate depth (.opening .brace) ++ List.replicate depth (.closing .brace)) rest body := by
  induction depth generalizing rest with
  | zero => exact ⟨[], .nil⟩
  | succ depth ih =>
    obtain ⟨body, dv⟩ := ih (.closing .brace :: rest)
    refine ⟨[.block body], ?_⟩
    have one := DerivesStatements.cons (.block (.braces dv)) .nil
    rw [List.append_nil] at one
    rw [List.replicate_succ, List.replicate_succ', List.cons_append, ← List.append_assoc]
    exact one

/-- 257 blocks inside one another are a program, but the innermost one is beyond the limit. -/
theorem Program.ofTokens_limit_nestedBlocks :
    ¬ NestedWithin 256 (kinds (nestedBlocks 257)) ∧
      (∃ p, Program.ofTokensUnlimited (nestedBlocks 257) = .ok p) ∧
      Program.ofTokens (nestedBlocks 257) = .error (.nestingTooDeep ⟨256, 1, 257⟩) := by
  have beyond : ¬ NestedWithin 256 (kinds (nestedBlocks 257)) := by
    intro nw
    rw [kinds_nestedBlocks] at nw
    have le := nw _ (List.prefix_append _ _)
    rw [openings, closings, List.countP_replicate, List.countP_replicate] at le
    exact absurd le (by decide)
  obtain ⟨body, dv⟩ := exists_derives_nestedBlocks 257 []
  have ok : Program.ofTokensUnlimited (nestedBlocks 257) = .ok ⟨body⟩ := by
    refine ofTokensWithin_eq_ok_iff.mpr ⟨?_, nestedWithin_tokens _⟩
    rw [kinds_nestedBlocks]
    exact dv
  obtain ⟨i, t, get, least, _, refused⟩ := (Program.ofTokens_limit (nestedBlocks 257)).2.2.2 beyond
  have innermost : (nestedBlocks 257)[256]? = some ⟨.opening .brace, ⟨256, 1, 257⟩⟩ := by decide +kernel
  have here : OpensBeyond 256 (nestedBlocks 257) 256 := ⟨_, innermost, rfl, by decide +kernel⟩
  -- Fewer than 256 tokens do not open 256 brackets.
  have index : i = 256 := by
    refine Nat.le_antisymm (least.2 here) ?_
    obtain ⟨_, _, _, full⟩ := least.1
    have short : openings (kinds ((nestedBlocks 257).take i)) ≤ i := by
      refine Nat.le_trans List.countP_le_length ?_
      rw [kinds, List.length_map]
      exact List.length_take_le i _
    omega
  subst index
  rw [innermost] at get
  cases get
  exact ⟨beyond, ⟨_, ok⟩, refused _ ok⟩

end LatinToScript
