import LatinToScript.Proofs.Grammar.Append
import LatinToScript.Proofs.Grammar.Viable

/-!
# Faults are found at the first wrong token

A fault that names a token is found there: what comes behind the token does not change it, and the
tokens in front of it are the beginning of a program (`Program.ofTokens_fault_first`).

`Found` says of a production that it fails at one of its tokens. Each production hands on where the
production inside it fails, with its own tokens in front (`Found.lift`); since nothing looks further
than one token ahead, these are read as before. Faults that name the keyword of a statement are found
later than there. They do not change either if the tokens end in a semicolon (`ParseError.Settled`).
-/

namespace LatinToScript

namespace ParseError

/-- A fault that is found at the token that it names. -/
def AtToken : ParseError → Prop
  | .unexpectedToken _ _ => True
  | .expected _ _ _ => True
  | .missingOpeningBrace _ => True
  | .nestingTooDeep _ => True
  | _ => False

/-- A fault that names a token is no fault at the end of the tokens. -/
lemma AtToken.not_atEnd {e : ParseError} (named : e.AtToken) : ¬ e.AtEnd := by
  cases e with
  | unexpectedEnd => exact named.elim
  | missingClosingBrace _ _ => exact named.elim
  | _ => exact id

/-- A fault that more tokens behind do not change. -/
def Settled (e : ParseError) (ks : List TokenKind) : Prop :=
  e.AtToken ∨ (¬ e.AtEnd ∧ (ks ≠ [] → Ended ks))

/-- A settled fault is no fault at the end of the tokens. -/
lemma Settled.not_atEnd {e : ParseError} {ks : List TokenKind} (st : e.Settled ks) : ¬ e.AtEnd := by
  rcases st with named | ⟨inside, _⟩
  · exact named.not_atEnd
  · exact inside

/-- A fault stays settled when tokens in front are dropped. -/
lemma Settled.of_append {e : ParseError} {ks ls : List TokenKind} (st : e.Settled (ks ++ ls)) :
    e.Settled ls := by
  rcases st with named | ⟨inside, last⟩
  · exact .inl named
  · refine .inr ⟨inside, fun some => ?_⟩
    exact (last (List.append_ne_nil_of_right_ne_nil ks some)).of_append some

/-- A fault stays settled when the first token is dropped. -/
lemma Settled.of_cons {e : ParseError} {k : TokenKind} {ks : List TokenKind} (st : e.Settled (k :: ks)) :
    e.Settled ks :=
  of_append (show e.Settled ([k] ++ ks) from st)

/-- Tokens in front of which a fault of another kind is settled end in a semicolon. -/
lemma Settled.ended {e : ParseError} {ks : List TokenKind} (st : e.Settled ks) (other : ¬ e.AtToken)
    (some : ks ≠ []) : Ended ks := by
  rcases st with named | ⟨_, last⟩
  · exact absurd named other
  · exact last some

end ParseError

namespace Grammar

open Production

section Found

variable {α β : Type} {γ δ : List Token → Type}
  {run : (ts : List Token) → Except ParseError (γ ts)} {outer : (ts : List Token) → Except ParseError (δ ts)}
  {D : List TokenKind → α → Prop} {E : List TokenKind → β → Prop} {e : ParseError}

/-- A fault is found at a token: it is the same whatever comes behind. If it names a token, then this one,
and the tokens in front of it can be completed. -/
structure FoundAt (run : (ts : List Token) → Except ParseError (γ ts)) (D : List TokenKind → α → Prop)
    (e : ParseError) (front : List Token) (t : Token) : Prop where
  final : ∀ more, run (front ++ t :: more) = .error e
  position : e.AtToken → e.position? = some t.position
  viable : e.AtToken → Viable D (kinds front)

/-- A fault is found at one of the tokens. -/
def Found (run : (ts : List Token) → Except ParseError (γ ts)) (D : List TokenKind → α → Prop)
    (ts : List Token) (e : ParseError) : Prop :=
  ∃ front t rest, ts = front ++ t :: rest ∧ FoundAt run D e front t

/-- A fault of a production inside another one is found at the same token. -/
lemma Found.lift {us : List Token} (found : Found run D us e) (before : List Token)
    (final : ∀ {vs}, (kinds us).head? = (kinds vs).head? → run vs = .error e →
      outer (before ++ vs) = .error e)
    (viable : ∀ {front rest}, us = front ++ rest → Viable D (kinds front) →
      Viable E (kinds before ++ kinds front)) :
    Found outer E (before ++ us) e := by
  obtain ⟨front, t, rest, rfl, found⟩ := found
  refine ⟨before ++ front, t, rest, by simp, ?_, found.position, ?_⟩
  · intro more
    rw [List.append_assoc]
    apply final _ (found.final more)
    rw [kinds_append, kinds_append, List.head?_append, List.head?_append]
    rfl
  · intro named
    rw [kinds_append]
    exact viable rfl (found.viable named)

end Found

variable {ts us : List Token} {t : Token} {e : ParseError} {room : Nat}

/-- Tokens whose next kind is that of a token start with a token of this kind. -/
lemma exists_cons_of_head?_eq {vs : List Token} (next : (kinds (t :: us)).head? = (kinds vs).head?) :
    ∃ v more, vs = v :: more ∧ v.kind = t.kind := by
  obtain ⟨_, eq⟩ := List.head?_eq_some_iff.mp next.symm
  obtain ⟨v, more, rfl, kv, _⟩ := kinds_eq_cons_iff.mp eq
  exact ⟨v, more, rfl, kv⟩

/-! ## Expressions and declarators -/

/-- A fault inside parentheses is found, if one in an operand is. -/
lemma found_parenthesized
    (fo : ∀ {ts e}, ¬ e.AtEnd → operand room ts = .error e → Found (operand room) DerivesOperand ts e)
    (inside : ¬ e.AtEnd) (eq : parenthesized (operand room) ts = .error e) :
    Found (parenthesized (operand room)) DerivesRelation ts e := by
  rcases parenthesized_eq_error_iff.mp eq with eql | ⟨left, us, rl, fault⟩
  · refine (fo inside eql).lift [] ?_ ?_
    · intro vs _ eqv
      exact parenthesized_eq_error_iff.mpr (.inl eqv)
    · intro front rest _ vi
      exact vi.relation_left
  obtain ⟨fl, rfl, dl, _⟩ := reads_operand_iff.mp rl
  rcases fault with eqo | ⟨o, mid, word, rfl, ko, fault⟩
  · rcases asksFor_operator.error_iff.mp eqo with ⟨_, rfl⟩ | ⟨c, rest, rfl, other, rfl⟩
    · exact absurd trivial inside
    refine ⟨fl, c, rest, rfl, ?_, fun _ => rfl, fun _ => (Viable.of_derives dl).relation_left⟩
    intro more
    have rl' : Reads (operand room (fl ++ c :: more)) left (c :: more) := looksOneAhead_operand rl rfl
    have eqo' := asksFor_operator.error_iff.mpr (.inr ⟨c, more, rfl, other, rfl⟩)
    exact parenthesized_eq_error_iff.mpr (.inr ⟨left, _, rl', .inl eqo'⟩)
  have rl' : ∀ vs, Reads (operand room (fl ++ o :: vs)) left (o :: vs) :=
    fun vs => looksOneAhead_operand rl rfl
  rcases fault with eqr | ⟨right, vs, rr, eqc⟩
  · rw [List.append_cons]
    refine (fo inside eqr).lift (fl ++ [o]) ?_ ?_
    · intro vs _ eqv
      rw [← List.append_cons]
      exact parenthesized_eq_error_iff.mpr (.inr ⟨left, _, rl' vs, .inr ⟨o, vs, word, rfl, ko, .inl eqv⟩⟩)
    · intro front rest _ vi
      rw [kinds_append, kinds_cons, ko, kinds_nil, ← List.append_cons]
      exact vi.relation_right dl word
  · obtain ⟨fr, rfl, dr, _⟩ := reads_operand_iff.mp rr
    rcases asksFor_closingParenthesis.error_iff.mp eqc with ⟨_, rfl⟩ | ⟨c, rest, rfl, other, rfl⟩
    · exact absurd trivial inside
    refine ⟨fl ++ o :: fr, c, rest, by simp, ?_, fun _ => rfl, fun _ => ?_⟩
    · intro more
      have rr' : Reads (operand room (fr ++ c :: more)) right (c :: more) := looksOneAhead_operand rr rfl
      have eqc' := asksFor_closingParenthesis.error_iff.mpr (.inr ⟨c, more, rfl, other, rfl⟩)
      rw [List.append_assoc, List.cons_append]
      exact parenthesized_eq_error_iff.mpr
        (.inr ⟨left, _, rl' _, .inr ⟨o, _, word, rfl, ko, .inr ⟨right, _, rr', eqc'⟩⟩⟩)
    · rw [kinds_append, kinds_cons, ko]
      exact (Viable.of_derives dr).relation_right dl word

/-- A fault in an operand is found. -/
lemma found_operand (inside : ¬ e.AtEnd) (eq : operand room ts = .error e) :
    Found (operand room) DerivesOperand ts e := by
  induction room using Nat.strongRecOn generalizing ts e with
  | _ room ih =>
  cases operand_eq_error_iff.mp eq with
  | finished => exact absurd trivial inside
  | @start _ t us nostart =>
    refine ⟨[], t, us, rfl, ?_, fun _ => rfl, fun _ => .operand_nil⟩
    intro more
    exact operand_eq_error_iff.mpr (.start nostart)
  | @deep t us kt =>
    refine ⟨[], t, us, rfl, ?_, fun _ => rfl, fun _ => .operand_nil⟩
    intro more
    exact operand_eq_error_iff.mpr (.deep kt)
  | @inside room t us _ kt eqp =>
    refine (found_parenthesized (ih room (Nat.lt_succ_self room)) inside eqp).lift [t] ?_ ?_
    · intro vs _ eqv
      exact operand_eq_error_iff.mpr (.inside kt eqv)
    · intro front rest _ vi
      rw [kinds_cons, kt]
      exact vi.paren_operand

/-- A fault in an expression is found, and it is a fault in one of its operands. -/
lemma found_expression (inside : ¬ e.AtEnd) (eq : expression room ts = .error e) :
    Found (expression room) DerivesRelation ts e := by
  rcases expression_eq_error_iff.mp eq with eqo | ⟨left, o, mid, word, rl, ko, eqr⟩
  · refine (found_operand inside eqo).lift [] ?_ ?_
    · intro vs _ eqv
      exact expression_eq_error_iff.mpr (.inl eqv)
    · intro front rest _ vi
      exact vi.relation_left
  · obtain ⟨fl, rfl, dl, _⟩ := reads_operand_iff.mp rl
    rw [List.append_cons]
    refine (found_operand inside eqr).lift (fl ++ [o]) ?_ ?_
    · intro vs _ eqv
      rw [← List.append_cons]
      have rl' : Reads (operand room (fl ++ o :: vs)) left (o :: vs) := looksOneAhead_operand rl rfl
      exact expression_eq_error_iff.mpr (.inr ⟨left, o, vs, word, rl', ko, eqv⟩)
    · intro front rest _ vi
      rw [kinds_append, kinds_cons, ko, kinds_nil, ← List.append_cons]
      exact vi.relation_right dl word

/-- A fault in a declarator is found. -/
lemma found_declarator (inside : ¬ e.AtEnd) (eq : declarator room ts = .error e) :
    Found (declarator room) DerivesDeclarator ts e := by
  rcases declarator_eq_error_iff.mp eq with eqn | ⟨t, us, n, rfl, kt, fault⟩
  · rcases asksFor_boundName.error_iff.mp eqn with ⟨_, rfl⟩ | ⟨t, us, rfl, other, rfl⟩
    · exact absurd trivial inside
    refine ⟨[], t, us, rfl, ?_, fun _ => rfl, fun _ => .declarator_nil⟩
    intro more
    have eqn' := asksFor_boundName.error_iff.mpr (.inr ⟨t, more, rfl, other, rfl⟩)
    exact declarator_eq_error_iff.mpr (.inl eqn')
  have again : ∀ {more}, _ → declarator room (t :: more) = .error e :=
    fun fault => declarator_eq_error_iff.mpr (.inr ⟨t, _, n, rfl, kt, fault⟩)
  rcases fault with eqc | ⟨c, mid, rfl, kc, eqx⟩
  · rcases asksFor_copula.error_iff.mp eqc with ⟨_, rfl⟩ | ⟨c, rest, rfl, other, rfl⟩
    · exact absurd trivial inside
    refine ⟨[t], c, rest, rfl, ?_, fun _ => rfl, fun _ => ?_⟩
    · intro more
      exact again (.inl (asksFor_copula.error_iff.mpr (.inr ⟨c, more, rfl, other, rfl⟩)))
    · rw [kinds_cons, kt]
      exact .declarator_name n
  · refine (found_expression inside eqx).lift [t, c] ?_ ?_
    · intro vs _ eqv
      exact again (.inr ⟨c, vs, rfl, kc, eqv⟩)
    · intro front rest _ vi
      rw [kinds_cons, kinds_cons, kt, kc]
      exact vi.declarator n

/-- A fault in declarators is found, and it is a fault in one of them. -/
lemma found_declarators (inside : ¬ e.AtEnd) (eq : declarators room ts = .error e) :
    Found (declarators room) DerivesDeclarators ts e := by
  obtain ⟨length, len⟩ : ∃ n, ts.length = n := ⟨_, rfl⟩
  induction length using Nat.strongRecOn generalizing ts with
  | _ length ih =>
  subst len
  rcases declarators_eq_error_iff.mp eq with ⟨t, us, rfl, nosemi, nobrace, eqd⟩ | ⟨d, mid, rd, eqs⟩
  · refine (found_declarator inside eqd).lift [] ?_ ?_
    · intro vs next eqv
      obtain ⟨v, vs, rfl, kv⟩ := exists_cons_of_head?_eq next
      rw [← kv] at nosemi nobrace
      exact declarators_eq_error_iff.mpr (.inl ⟨v, vs, rfl, nosemi, nobrace, eqv⟩)
    · intro front rest _ vi
      exact vi.declarators_one
  · have found := ih mid.length rd.length_lt eqs rfl
    obtain ⟨fd, rfl, dd, _⟩ := derives_of_reads_declarator rd
    refine found.lift fd ?_ ?_
    · intro vs next eqv
      exact declarators_eq_error_iff.mpr (.inr ⟨d, vs, looksOneAhead_declarator rd next, eqv⟩)
    · intro front rest _ vi
      exact vi.declarators_cons dd

/-! ## Statements -/

/-- Where blocks fail: at their opening brace if there is no room for them, or at one of their tokens. -/
def FindsBlocks (read : BlockOwner → Position → Production (List Statement)) : Prop :=
  ∀ ⦃owner opening ts e⦄, e.Settled (kinds ts) → read owner opening ts = .error e →
    (e = .nestingTooDeep opening ∧ ∀ more, read owner opening more = .error e) ∨
      Found (read owner opening) StatesAllAlways ts e

/-- A statement has the fault that is behind the keyword of a control statement. -/
lemma statement_eq_error_of_controlled {control : Control} (kt : t.kind = .keyword (.control control))
    (eq : controlled (block room) room control t.position us = .error e) :
    statement room (t :: us) = .error e :=
  statementWith_eq_error_iff.mpr (.control kt eq)

/-- A keyword and a test can be continued with a block. -/
lemma viable_test {control : Control} {test : Relation} {fx : List Token}
    (kt : t.kind = .keyword (.control control)) (dx : DerivesExpression (kinds fx) test.toExpression) :
    Viable StatesAlways (kinds (t :: fx)) := by
  rw [kinds_cons, kt]
  exact Viable.statement_control control (.of_derives (D := DerivesTest) dx)

/-- A control statement without a block fails at the token behind its test. -/
lemma found_noBlock {control : Control} {test : Relation} {o : Token} {mid : List Token}
    (kt : t.kind = .keyword (.control control))
    (rx : Reads (expression room us) test.toExpression (o :: mid)) (other : o.kind ≠ .opening .brace) :
    Found (statement room) StatesAlways (t :: us) (.missingOpeningBrace o.position) := by
  obtain ⟨fx, rfl, dx, _⟩ := derives_of_reads_expression rx
  refine ⟨t :: fx, o, mid, rfl, ?_, fun _ => rfl, fun _ => viable_test kt dx⟩
  intro more
  exact statement_eq_error_of_controlled kt
    (controlled_eq_error_iff.mpr (.noBlock (looksOneAhead_expression rx rfl) other))

/-- The block of a control statement fails at its brace if there is no room for it, or inside. -/
lemma FindsBlocks.found_controlBlock {control : Control} {test : Relation} {o : Token} {mid : List Token}
    (fb : FindsBlocks (block room)) (kt : t.kind = .keyword (.control control))
    (st : e.Settled (kinds us)) (rx : Reads (expression room us) test.toExpression (o :: mid))
    (ko : o.kind = .opening .brace) (eqb : block room (.control control) o.position mid = .error e) :
    Found (statement room) StatesAlways (t :: us) e := by
  obtain ⟨fx, rfl, dx, _⟩ := derives_of_reads_expression rx
  have again : ∀ {vs}, block room (.control control) o.position vs = .error e →
      statement room (t :: fx ++ o :: vs) = .error e := fun eqv =>
    statement_eq_error_of_controlled kt
      (controlled_eq_error_iff.mpr (.block (looksOneAhead_expression rx rfl) ko eqv))
  rw [kinds_append, kinds_cons] at st
  rcases fb st.of_append.of_cons eqb with ⟨rfl, eqm⟩ | found
  · refine ⟨t :: fx, o, mid, rfl, ?_, fun _ => rfl, fun _ => viable_test kt dx⟩
    intro more
    exact again (eqm more)
  · rw [← List.cons_append, List.append_cons]
    refine found.lift (t :: fx ++ [o]) ?_ ?_
    · intro vs _ eqv
      rw [← List.append_cons]
      exact again eqv
    · intro front rest _ vi
      rw [kinds_append, kinds_cons, kinds_cons, kinds_nil, ← List.append_cons, kt, ko]
      exact vi.statement_controlBlock control dx

/-- A control statement fails in its test or behind it. -/
lemma FindsBlocks.found_control {control : Control} (fb : FindsBlocks (block room))
    (kt : t.kind = .keyword (.control control)) (st : e.Settled (kinds (t :: us)))
    (eq : controlled (block room) room control t.position us = .error e) :
    Found (statement room) StatesAlways (t :: us) e := by
  cases controlled_eq_error_iff.mp eq with
  | test eqx =>
    refine (found_expression st.not_atEnd eqx).lift [t] ?_ ?_
    · intro vs _ eqv
      exact statement_eq_error_of_controlled kt (controlled_eq_error_iff.mpr (.test eqv))
    · intro front rest _ vi
      rw [kinds_cons, kt]
      exact vi.test.statement_control control
  | finished _ => exact absurd trivial st.not_atEnd
  | noBlock rx other => exact found_noBlock kt rx other
  | block rx ko eqb => exact fb.found_controlBlock kt st.of_cons rx ko eqb
  | noRelation rx norelation =>
    -- No expression ends in a semicolon, so there is a token behind it.
    have ended := st.ended id (List.cons_ne_nil _ _)
    rw [kinds_cons, kt] at ended
    have some := ((inFront_expression room).ended (ended.of_cons nofun) rx).ne_nil
    obtain ⟨c, rest, rfl⟩ := List.exists_cons_of_ne_nil (mt kinds_eq_nil_iff.mpr some)
    obtain ⟨fx, rfl, _⟩ := derives_of_reads_expression rx
    refine ⟨t :: fx, c, rest, rfl, ?_, False.elim, False.elim⟩
    intro more
    exact statement_eq_error_of_controlled kt
      (controlled_eq_error_iff.mpr (.noRelation (looksOneAhead_expression rx rfl) norelation))

/-- Where there are no declarators, the token in their place says so. -/
lemma reads_declarators_nil {rest : List Token} (rd : Reads (declarators room us) [] rest) :
    us = [] ∨ ∃ t vs, us = t :: vs ∧
      ∀ more, ∃ rest', Reads (declarators room (t :: more)) [] rest' := by
  rcases reads_declarators_nil_iff.mp rd with ⟨t, rfl, kt⟩ | ⟨rfl, next⟩
  · exact .inr ⟨t, rest, rfl, fun more => ⟨more, reads_declarators_nil_iff.mpr (.inl ⟨t, rfl, kt⟩)⟩⟩
  · cases us with
    | nil => exact .inl rfl
    | cons t vs =>
      refine .inr ⟨t, vs, rfl, fun more => ⟨t :: more, ?_⟩⟩
      exact reads_declarators_nil_iff.mpr (.inr ⟨rfl, next⟩)

/-- A declaration fails in a declarator, or behind its keyword if there is none. -/
lemma found_declaration {binding : Binding} (kt : t.kind = .keyword (.declare binding))
    (st : e.Settled (kinds (t :: us))) (eq : declaration room binding t.position us = .error e) :
    Found (statement room) StatesAlways (t :: us) e := by
  have again : ∀ {vs}, _ → statement room (t :: vs) = .error e := fun fault =>
    statementWith_eq_error_iff.mpr (.declaration kt (declaration_eq_error_iff.mpr fault))
  rcases declaration_eq_error_iff.mp eq with eqd | ⟨rest, rd, rfl⟩
  · refine (found_declarators st.not_atEnd eqd).lift [t] ?_ ?_
    · intro vs _ eqv
      exact again (.inl eqv)
    · intro front rest _ vi
      rw [kinds_cons, kt]
      exact vi.statement_declaration binding
  · rcases reads_declarators_nil rd with rfl | ⟨c, vs, rfl, none⟩
    · have ended := st.ended id (List.cons_ne_nil _ _)
      rw [kinds_cons, kt] at ended
      exact absurd rfl (ended.of_cons nofun).ne_nil
    · refine ⟨[t], c, vs, rfl, ?_, False.elim, False.elim⟩
      intro more
      obtain ⟨rest', rd'⟩ := none more
      exact again (.inr ⟨rest', rd', rfl⟩)

/-- A lone value fails inside its parentheses, or at the first one if there is no room for them. -/
lemma found_value (start : startsValue t.kind = true) (inside : ¬ e.AtEnd)
    (eq : operand room (t :: us) = .error e) : Found (statement room) StatesAlways (t :: us) e := by
  cases operand_eq_error_iff.mp eq with
  | start nostart =>
    generalize t.kind = k at start nostart
    unfold startsValue at start
    split at start <;> cases start <;> cases nostart
  | deep kt =>
    refine ⟨[], t, us, rfl, ?_, fun _ => rfl, fun _ => .statement_nil⟩
    intro more
    exact statementWith_eq_error_iff.mpr (.value start (operand_eq_error_iff.mpr (.deep kt)))
  | inside kt eqp =>
    refine (found_parenthesized found_operand inside eqp).lift [t] ?_ ?_
    · intro vs _ eqv
      exact statementWith_eq_error_iff.mpr (.value start (operand_eq_error_iff.mpr (.inside kt eqv)))
    · intro front rest _ vi
      rw [kinds_cons, kt]
      exact vi.paren.statement_paren

/-- A fault in a statement is found, if one in a block is. -/
lemma FindsBlocks.found_statement (fb : FindsBlocks (block room)) (st : e.Settled (kinds ts))
    (eq : statement room ts = .error e) : Found (statement room) StatesAlways ts e := by
  have inside := st.not_atEnd
  cases statementWith_eq_error_iff.mp eq with
  | finished => exact absurd trivial inside
  | control kt eqc => exact fb.found_control kt st eqc
  | declaration kt eqd => exact found_declaration kt st eqd
  | binding kt eqd =>
    refine (found_declarator inside eqd).lift [] ?_ ?_
    · intro vs next eqv
      obtain ⟨v, vs, rfl, kv⟩ := exists_cons_of_head?_eq next
      rw [kt] at kv
      exact statementWith_eq_error_iff.mpr (.binding kv eqv)
    · intro front rest _ vi
      exact vi.statement_binding
  | @block t us _ kt eqb =>
    rcases fb st.of_cons eqb with ⟨rfl, eqm⟩ | found
    · refine ⟨[], t, us, rfl, ?_, fun _ => rfl, fun _ => .statement_nil⟩
      intro more
      exact statementWith_eq_error_iff.mpr (.block kt (eqm more))
    · refine found.lift [t] ?_ ?_
      · intro vs _ eqv
        exact statementWith_eq_error_iff.mpr (.block kt eqv)
      · intro front rest _ vi
        rw [kinds_cons, kt]
        exact vi.statement_block
  | value start eqo => exact found_value start inside eqo
  | @start t us nostart =>
    refine ⟨[], t, us, rfl, ?_, fun _ => rfl, fun _ => .statement_nil⟩
    intro more
    exact statementWith_eq_error_iff.mpr (.start nostart)

section Sequences

variable {γ : List Token → Type} {run : (ts : List Token) → Except ParseError (γ ts)}

/-- Statements fail where the first one does. -/
lemma FindsBlocks.found_first (fb : FindsBlocks (block room)) (st : e.Settled (kinds (t :: us)))
    (eq : statement room (t :: us) = .error e)
    (again : ∀ {v vs}, v.kind = t.kind → statement room (v :: vs) = .error e → run (v :: vs) = .error e) :
    Found run StatesAllAlways (t :: us) e := by
  refine (fb.found_statement st eq).lift [] ?_ ?_
  · intro vs next eqv
    obtain ⟨v, vs, rfl, kv⟩ := exists_cons_of_head?_eq next
    exact again kv eqv
  · intro front rest _ vi
    exact vi.statements_one

/-- Statements fail where those behind a semicolon do. -/
lemma Found.behind_semicolon (found : Found run StatesAllAlways us e) (kt : t.kind = .semicolon)
    (again : ∀ {vs}, run vs = .error e → run (t :: vs) = .error e) :
    Found run StatesAllAlways (t :: us) e := by
  refine found.lift [t] ?_ ?_
  · intro vs _ eqv
    exact again eqv
  · intro front rest _ vi
    rw [kinds_cons, kt]
    exact vi.statements_semicolon

/-- Statements fail where those behind the first one do. -/
lemma Found.behind_statement {s : Statement} {mid : List Token} (found : Found run StatesAllAlways mid e)
    (rd : Reads (statement room ts) s mid)
    (again : ∀ {v vs more}, v.kind ≠ .closing .brace → v.kind ≠ .semicolon →
      Reads (statement room (v :: vs)) s more → run more = .error e → run (v :: vs) = .error e) :
    Found run StatesAllAlways ts e := by
  obtain ⟨front, rfl, dv, _⟩ := (readsStatements_statement room).sound rd
  obtain ⟨v, vs, rfl, nobrace, nosemi⟩ := head_of_derives_statement dv
  refine found.lift (v :: vs) ?_ ?_
  · intro more next eqm
    exact again nobrace nosemi (looksOneAhead_statement rd next) eqm
  · rintro front rest rfl vi
    rw [kinds_append] at dv
    exact vi.statements_cons dv

end Sequences

/-- Each statement of a block shortens the tokens, so the induction is on their number. -/
lemma FindsBlocks.found_blockBody {owner : BlockOwner} {opening : Position}
    (fb : FindsBlocks (block room)) (st : e.Settled (kinds ts))
    (eq : blockBody (statement room) owner opening ts = .error e) :
    Found (blockBody (statement room) owner opening) StatesAllAlways ts e := by
  obtain ⟨length, len⟩ : ∃ n, ts.length = n := ⟨_, rfl⟩
  induction length using Nat.strongRecOn generalizing ts with
  | _ length ih =>
  subst len
  cases blockBody_eq_error_iff.mp eq with
  | finished => exact absurd trivial st.not_atEnd
  | @semicolon _ us _ kt eqb =>
    apply (ih us.length (Nat.lt_succ_self _) st.of_cons eqb rfl).behind_semicolon kt
    intro vs eqv
    exact blockBody_eq_error_iff.mpr (.semicolon kt eqv)
  | first nobrace nosemi eqs =>
    apply fb.found_first st eqs
    intro v vs kv eqv
    rw [← kv] at nobrace nosemi
    exact blockBody_eq_error_iff.mpr (.first nobrace nosemi eqv)
  | @later _ _ _ mid _ _ _ rd eqb =>
    obtain ⟨front, eqf, _⟩ := (readsStatements_statement room).sound rd
    rw [eqf, kinds_append] at st
    refine (ih mid.length rd.length_lt st.of_append eqb rfl).behind_statement rd ?_
    intro v vs more nobrace nosemi rv eqm
    exact blockBody_eq_error_iff.mpr (.later nobrace nosemi rv eqm)

/-- A fault in a block is found at any depth. -/
lemma findsBlocks_block (room : Nat) : FindsBlocks (block room) := by
  induction room with
  | zero =>
    intro owner opening ts e _ eq
    rcases block_eq_error_iff.mp eq with ⟨_, rfl⟩ | ⟨_, eqr, _⟩
    · exact .inl ⟨rfl, fun more => block_eq_error_iff.mpr (.inl ⟨rfl, rfl⟩)⟩
    · cases eqr
  | succ room ih =>
    intro owner opening ts e st eq
    rcases block_eq_error_iff.mp eq with ⟨eqr, _⟩ | ⟨_, eqr, eqb⟩
    · cases eqr
    · cases eqr
      exact .inr (ih.found_blockBody st eqb)

/-- Statements up to the end fail at one of their tokens, if the fault is settled. -/
lemma found_statements (st : e.Settled (kinds ts)) (eq : statements room ts = .error e) :
    Found (statements room) StatesAllAlways ts e := by
  obtain ⟨length, len⟩ : ∃ n, ts.length = n := ⟨_, rfl⟩
  induction length using Nat.strongRecOn generalizing ts with
  | _ length ih =>
  subst len
  rcases statements_eq_error_iff.mp eq with ⟨t, us, rfl, kt, eqs⟩ |
    ⟨t, us, rfl, nosemi, eqs | ⟨s, mid, rd, eqs⟩⟩
  · apply (ih us.length (Nat.lt_succ_self _) st.of_cons eqs rfl).behind_semicolon kt
    intro vs eqv
    exact statements_eq_error_iff.mpr (.inl ⟨t, vs, rfl, kt, eqv⟩)
  · apply (findsBlocks_block room).found_first st eqs
    intro v vs kv eqv
    rw [← kv] at nosemi
    exact statements_eq_error_iff.mpr (.inr ⟨v, vs, rfl, nosemi, .inl eqv⟩)
  · obtain ⟨front, eqf, _⟩ := (readsStatements_statement room).sound rd
    rw [eqf, kinds_append] at st
    refine (ih mid.length rd.length_lt st.of_append eqs rfl).behind_statement rd ?_
    intro v vs more _ nosemi rv eqm
    exact statements_eq_error_iff.mpr (.inr ⟨v, vs, rfl, nosemi, .inr ⟨s, more, rv, eqm⟩⟩)

/-- Behind a last semicolon more tokens do not change a fault. -/
lemma statements_append_fault (ended : Ended (kinds ts)) (inside : ¬ e.AtEnd)
    (eq : statements room ts = .error e) (more : List Token) : statements room (ts ++ more) = .error e := by
  obtain ⟨front, t, rest, rfl, found⟩ := found_statements (.inr ⟨inside, fun _ => ended⟩) eq
  rw [List.append_assoc]
  exact found.final (rest ++ more)

end Grammar

/-! ## Programs -/

/-- Tokens from which the grammar derives some statements can be completed to a program. -/
lemma Viable.exists_program {ts : List Token} (vi : Viable StatesAllAlways (kinds ts))
    (nw : NestedWithin 255 (kinds ts)) : ∃ more p, Program.ofTokens (ts ++ more) = .ok p := by
  obtain ⟨ks, ss, always, within⟩ := vi
  obtain ⟨more, rfl⟩ := exists_kinds_eq ks
  have dv : DerivesProgram (kinds (ts ++ more)) ⟨ss⟩ := by
    rw [kinds_append]
    exact always []
  refine ⟨more, ⟨ss⟩, Program.ofTokensWithin_eq_ok_iff.mpr ⟨dv, ?_⟩⟩
  rw [kinds_append]
  exact within 255 nw

/-- A fault that names a token is found at that token: no tokens behind it change the fault, and the
tokens in front of it are the beginning of a program, unless more than 255 brackets are open in them. -/
theorem Program.ofTokens_fault_first (ts : List Token) (e : ParseError) (named : e.AtToken)
    (eq : Program.ofTokens ts = .error e) :
    ∃ i t, ts[i]? = some t ∧ e.position? = some t.position ∧
      (∀ more, Program.ofTokens (ts.take (i + 1) ++ more) = .error e) ∧
      (NestedWithin 255 (kinds (ts.take i)) → ∃ more p, Program.ofTokens (ts.take i ++ more) = .ok p) := by
  rw [Program.ofTokens_eq_error_iff_statements] at eq
  obtain ⟨front, t, rest, rfl, found⟩ := Grammar.found_statements (.inl named) eq
  have taken : (front ++ t :: rest).take (front.length + 1) = front ++ [t] := by
    rw [List.append_cons]
    exact List.take_left' (List.length_append ..)
  refine ⟨front.length, t, ?_, found.position named, ?_, ?_⟩
  · rw [List.getElem?_append_right (Nat.le_refl _), Nat.sub_self]
    rfl
  · intro more
    rw [taken, ← List.append_cons, Program.ofTokens_eq_error_iff_statements]
    exact found.final more
  · rw [List.take_left]
    exact (found.viable named).exists_program

/-- A loop whose block has one operand in parentheses, and no operator behind it. -/
def lonelyOperand : List Token :=
  [⟨.keyword (.control .dum), ⟨0, 1, 1⟩⟩, ⟨.name "a", ⟨4, 1, 5⟩⟩, ⟨.operator "sit", ⟨6, 1, 7⟩⟩,
    ⟨.name "b", ⟨10, 1, 11⟩⟩, ⟨.opening .brace, ⟨12, 1, 13⟩⟩, ⟨.opening .parenthesis, ⟨14, 1, 15⟩⟩,
    ⟨.name "c", ⟨15, 1, 16⟩⟩, ⟨.closing .parenthesis, ⟨16, 1, 17⟩⟩, ⟨.closing .brace, ⟨18, 1, 19⟩⟩]

/-- The operator is missed at the closing parenthesis, and with an operator in its place the loop can go on. -/
theorem Program.ofTokens_fault_first_lonelyOperand :
    ∃ e, e.AtToken ∧ Program.ofTokens lonelyOperand = .error e ∧
      ∃ i t, lonelyOperand[i]? = some t ∧ e.position? = some t.position ∧
        (∀ more, Program.ofTokens (lonelyOperand.take (i + 1) ++ more) = .error e) ∧
        ∃ more p, Program.ofTokens (lonelyOperand.take i ++ more) = .ok p := by
  have fault : (Program.ofTokens lonelyOperand).map (fun _ => ()) =
      .error (.expected .operator (.closing .parenthesis) ⟨16, 1, 17⟩) := by decide +kernel
  cases eq : Program.ofTokens lonelyOperand with
  | ok p =>
    rw [eq] at fault
    cases fault
  | error e =>
    rw [eq] at fault
    cases fault
    have named : (ParseError.expected .operator (.closing .parenthesis) ⟨16, 1, 17⟩).AtToken := trivial
    obtain ⟨i, t, get, position, final, viable⟩ := Program.ofTokens_fault_first _ _ named eq
    refine ⟨_, named, rfl, i, t, get, position, final, viable ?_⟩
    have short : (kinds (lonelyOperand.take i)).length ≤ lonelyOperand.length := by
      rw [kinds, List.length_map]
      exact List.length_take_le' i _
    exact (nestedWithin_length _).mono (Nat.le_trans short (by decide))

end LatinToScript
