import LatinToScript.Proofs.Grammar.Lookahead

/-!
# Beginnings of derived tokens

`Viable` says that tokens can be completed to something that the grammar derives. The completion opens
at most one bracket more than there are in the tokens: besides what closes the open brackets only the
block of a control statement can be missing. For each place of the grammar a lemma says that a
completion of the thing there gives one of the thing around it.
-/

namespace LatinToScript

/-- Tokens that can be completed to something derived, with one more bracket open at most. -/
def Viable {α : Type} (Derives : List TokenKind → α → Prop) (ks : List TokenKind) : Prop :=
  ∃ more a, Derives (ks ++ more) a ∧
    ∀ limit, NestedWithin limit ks → NestedWithin (limit + 1) (ks ++ more)

/-! ## Completions inside other tokens -/

namespace Viable

variable {α β : Type} {D : List TokenKind → α → Prop} {E : List TokenKind → β → Prop}
  {ks ls after : List TokenKind}

/-- What is derived needs no completion. -/
lemma of_derives {a : α} (dv : D ks a) : Viable D ks := by
  refine ⟨[], a, ?_, ?_⟩
  · rwa [List.append_nil]
  · intro limit nw
    rw [List.append_nil]
    exact nw.mono (Nat.le_succ _)

/-- A token that opens no bracket may be missing, too. -/
lemma of_concat {k : TokenKind} (op : k.isOpening = false) (vi : Viable D (ks ++ [k])) :
    Viable D ks := by
  obtain ⟨more, a, dv, within⟩ := vi
  rw [List.append_assoc] at dv within
  refine ⟨[k] ++ more, a, dv, ?_⟩
  intro limit nw
  exact within limit (nw.concat op)

/-- A completion behind properly nested tokens and in front of others. -/
lemma between (nk : Nested ks) (nested : ∀ {ks a}, D ks a → Nested ks) (wa : NestedWithin 1 after)
    (derives : ∀ {more a}, D (ls ++ more) a → ∃ b, E (ks ++ ((ls ++ more) ++ after)) b)
    (vi : Viable D ls) : Viable E (ks ++ ls) := by
  obtain ⟨more, a, dv, within⟩ := vi
  obtain ⟨b, dv'⟩ := derives dv
  have eq : ks ++ ls ++ (more ++ after) = ks ++ ((ls ++ more) ++ after) := by simp
  refine ⟨more ++ after, b, ?_, ?_⟩
  · rwa [eq]
  · intro limit nw
    obtain ⟨wk, wl⟩ := nk.within_append_iff.mp nw
    rw [eq, nk.within_append_iff, (nested dv).within_append_iff]
    exact ⟨wk.mono (Nat.le_succ _), within limit wl, wa.mono (Nat.le_add_left 1 limit)⟩

/-- A completion behind properly nested tokens. -/
lemma behind (nk : Nested ks) (nested : ∀ {ks a}, D ks a → Nested ks)
    (derives : ∀ {more a}, D (ls ++ more) a → ∃ b, E (ks ++ (ls ++ more)) b)
    (vi : Viable D ls) : Viable E (ks ++ ls) := by
  refine vi.between nk nested nestedWithin_nil ?_
  intro more a dv
  rw [List.append_nil]
  exact derives dv

/-- A completion inside brackets. -/
lemma enclosed {bracket : Bracket} (nested : ∀ {ks a}, D ks a → Nested ks)
    (derives : ∀ {ks a}, D ks a → ∃ b, E (.opening bracket :: (ks ++ [.closing bracket])) b)
    (vi : Viable D ks) : Viable E (.opening bracket :: ks) := by
  obtain ⟨more, a, dv, within⟩ := vi
  obtain ⟨b, dv'⟩ := derives dv
  rw [List.append_assoc] at dv'
  refine ⟨more ++ [.closing bracket], b, dv', ?_⟩
  intro limit nw
  obtain ⟨inner, rfl, wi⟩ := nw.of_opening
  rw [List.cons_append, ← List.append_assoc, (nested dv).within_enclosed_iff]
  exact within inner wi

end Viable

/-! ## Expressions and declarators -/

/-- `Operand Operator Operand`. -/
inductive DerivesRelation : List TokenKind → Relation → Prop where
  | relate {ks ls left word right} :
    DerivesOperand ks left →
    DerivesOperand ls right →
    DerivesRelation (ks ++ .operator word :: ls) ⟨left, word, right⟩

/-- A relation is an expression. -/
lemma DerivesRelation.expression {ks test} (dv : DerivesRelation ks test) :
    DerivesExpression ks test.toExpression := by
  cases dv with
  | relate dl dr => exact .relation dl dr

/-- The brackets of a relation are nested. -/
lemma DerivesRelation.nested {ks test} (dv : DerivesRelation ks test) : Nested ks :=
  dv.expression.nested

/-- A relation can be put in parentheses. -/
lemma DerivesRelation.paren {ks test} (dv : DerivesRelation ks test) :
    DerivesParen (.opening .parenthesis :: (ks ++ [.closing .parenthesis])) test.toExpression := by
  cases dv with
  | relate dl dr =>
    rw [List.append_assoc, List.cons_append]
    exact .relation dl dr

/-- The test of a control statement. -/
def DerivesTest (ks : List TokenKind) (test : Relation) : Prop :=
  DerivesExpression ks test.toExpression

namespace Viable

variable {ks ls : List TokenKind}

/-- An operand may be missing: a name completes it. -/
lemma operand_nil : Viable DerivesOperand [] :=
  of_concat (k := .null) rfl (of_derives (.literal .null))

/-- Behind the first operand of a relation an operator and a second one can be put. -/
lemma relation_left (vi : Viable DerivesOperand ks) : Viable DerivesRelation ks := by
  have wa : NestedWithin 1 [.operator "sit", .null] := by
    rw [nestedWithin_cons_iff rfl rfl]
    exact nestedWithin_single rfl
  refine vi.between .nil DerivesOperand.nested wa ?_
  intro more left dv
  exact ⟨_, .relate dv (.literal .null)⟩

/-- A relation is completed by its second operand. -/
lemma relation_right {left : Expression} (dl : DerivesOperand ks left) (word : String)
    (vi : Viable DerivesOperand ls) : Viable DerivesRelation (ks ++ .operator word :: ls) := by
  have nk : Nested (ks ++ [.operator word]) := dl.nested.append (.single rfl rfl)
  rw [List.append_cons]
  refine vi.behind nk DerivesOperand.nested ?_
  intro more right dr
  rw [← List.append_cons]
  exact ⟨_, .relate dl dr⟩

/-- Parentheses are completed by the relation in them and their end. -/
lemma paren (vi : Viable DerivesRelation ks) : Viable DerivesParen (.opening .parenthesis :: ks) :=
  vi.enclosed DerivesRelation.nested fun dv => ⟨_, dv.paren⟩

/-- An operand that starts with a parenthesis is completed by the relation in it. -/
lemma paren_operand (vi : Viable DerivesRelation ks) :
    Viable DerivesOperand (.opening .parenthesis :: ks) :=
  vi.enclosed DerivesRelation.nested fun dv => ⟨_, .paren dv.paren⟩

/-- A test is completed as a relation. -/
lemma test (vi : Viable DerivesRelation ks) : Viable DerivesTest ks :=
  vi.behind .nil DerivesRelation.nested fun dv => ⟨_, dv.expression⟩

/-- A declarator is completed by its value. -/
lemma declarator (n : String) (vi : Viable DerivesRelation ks) :
    Viable DerivesDeclarator (.name n :: .copula :: ks) := by
  have nk : Nested [.name n, .copula] := .plain rfl rfl (.single rfl rfl)
  refine vi.behind nk DerivesRelation.nested ?_
  intro more test dv
  exact ⟨_, .bind dv.expression⟩

/-- Behind a name the rest of a declarator can be put. -/
lemma declarator_name (n : String) : Viable DerivesDeclarator [.name n] :=
  of_concat (k := .copula) rfl (declarator n operand_nil.relation_left)

/-- A declarator may be missing. -/
lemma declarator_nil : Viable DerivesDeclarator [] :=
  of_concat (k := .name "a") rfl (declarator_name "a")

/-- The last declarator completes the declarators. -/
lemma declarators_one (vi : Viable DerivesDeclarator ks) : Viable DerivesDeclarators ks :=
  vi.behind .nil DerivesDeclarator.nested fun dv => ⟨_, .one dv⟩

/-- A declarator in front does not matter to the completion of the others. -/
lemma declarators_cons {d : Declarator} (dv : DerivesDeclarator ks d) (vi : Viable DerivesDeclarators ls) :
    Viable DerivesDeclarators (ks ++ ls) :=
  vi.behind dv.nested DerivesDeclarators.nested fun dvs => ⟨_, .cons dv dvs⟩

end Viable

/-! ## Statements -/

/-- A statement, whatever follows. -/
def StatesAlways (ks : List TokenKind) (s : Statement) : Prop :=
  ∀ rest, DerivesStatement ks rest s

/-- Statements, whatever follows. -/
def StatesAllAlways (ks : List TokenKind) (ss : List Statement) : Prop :=
  ∀ rest, DerivesStatements ks rest ss

/-- The brackets of a statement are nested, whatever follows. -/
lemma StatesAlways.nested {ks s} (sa : StatesAlways ks s) : Nested ks :=
  (sa []).nested

/-- The brackets of statements are nested, whatever follows. -/
lemma StatesAllAlways.nested {ks ss} (sa : StatesAllAlways ks ss) : Nested ks :=
  (sa []).nested

/-- Only a declaration may lack a semicolon for its end. -/
lemma DerivesStatement.always_or {ks rest s} (dv : DerivesStatement ks rest s) :
    StatesAlways ks s ∨ StatesAlways (ks ++ [.semicolon]) s := by
  cases dv with
  | control dx db => exact .inl fun more => .control dx db.of_any
  | declaration dd =>
    cases dd with
    | declare dds ends =>
      cases ends with
      | semicolon => exact .inl fun more => .declaration (.declare dds .semicolon)
      | brace =>
        rw [List.append_nil]
        exact .inr fun more => .declaration (.declare dds .semicolon)
      | finish =>
        rw [List.append_nil]
        exact .inr fun more => .declaration (.declare dds .semicolon)
  | binding dd => exact .inl fun more => .binding dd
  | block db => exact .inl fun more => .block db.of_any
  | literal dl => exact .inl fun more => .literal dl
  | paren dp => exact .inl fun more => .paren dp

/-- In front of a semicolon every statement is complete. -/
lemma DerivesStatement.semicolon {ks rest s} (dv : DerivesStatement ks rest s) :
    StatesAllAlways (ks ++ [.semicolon]) [s] := by
  intro more
  rcases dv.always_or with sa | sa
  · exact .cons (sa _) (.semicolon .nil)
  · have dvs : DerivesStatements ((ks ++ [.semicolon]) ++ []) more [s] := .cons (sa _) .nil
    rwa [List.append_nil] at dvs

namespace Viable

variable {ks ls : List TokenKind}

/-- A statement may be missing. -/
lemma statement_nil : Viable StatesAlways [] :=
  of_concat (k := .null) rfl (of_derives fun _ => .literal .null)

/-- A control statement is completed by its test, and by a block behind it. -/
lemma statement_control (control : Control) (vi : Viable DerivesTest ks) :
    Viable StatesAlways (.keyword (.control control) :: ks) := by
  -- The empty block that is missing is the one bracket that may be opened.
  have wa : NestedWithin 1 [.opening .brace, .closing .brace] :=
    Nested.nil.within_enclosed_iff.mpr nestedWithin_nil
  refine vi.between (.single rfl rfl) DerivesExpression.nested wa ?_
  intro more test dx
  rw [List.singleton_append]
  exact ⟨_, fun rest => .control dx (.braces .nil)⟩

/-- A control statement is completed by what is missing in its block. -/
lemma statement_controlBlock (control : Control) {test : Relation} (dx : DerivesTest ks test)
    (vi : Viable StatesAllAlways ls) :
    Viable StatesAlways (.keyword (.control control) :: (ks ++ .opening .brace :: ls)) := by
  have block : Viable (fun ks body => ∀ rest, DerivesBlock ks rest body) (.opening .brace :: ls) :=
    vi.enclosed StatesAllAlways.nested fun dvs => ⟨_, fun _ => .braces (dvs _)⟩
  have nk : Nested (.keyword (.control control) :: ks) := .plain rfl rfl (DerivesExpression.nested dx)
  refine block.behind nk (fun db => (db []).nested) ?_
  intro more body db
  exact ⟨_, fun rest => .control dx (db rest)⟩

/-- A block is completed by the statements in it and its end. -/
lemma statement_block (vi : Viable StatesAllAlways ks) : Viable StatesAlways (.opening .brace :: ks) :=
  vi.enclosed StatesAllAlways.nested fun dvs => ⟨_, fun _ => .block (.braces (dvs _))⟩

/-- A declaration is completed by its declarators. -/
lemma statement_declaration (binding : Binding) (vi : Viable DerivesDeclarators ks) :
    Viable StatesAlways (.keyword (.declare binding) :: ks) := by
  have wa : NestedWithin 1 [.semicolon] := nestedWithin_single rfl
  refine vi.between (.single rfl rfl) DerivesDeclarators.nested wa ?_
  intro more ds dv
  rw [List.singleton_append]
  exact ⟨_, fun rest => .declaration (.declare dv .semicolon)⟩

/-- A name that is bound without a keyword is completed as a declarator. -/
lemma statement_binding (vi : Viable DerivesDeclarator ks) : Viable StatesAlways ks :=
  vi.behind .nil DerivesDeclarator.nested fun dv => ⟨_, fun _ => .binding dv⟩

/-- A relation in parentheses is completed as a statement of its own. -/
lemma statement_paren (vi : Viable DerivesParen ks) : Viable StatesAlways ks :=
  vi.behind .nil DerivesParen.nested fun dv => ⟨_, fun _ => .paren dv⟩

/-- The last statement completes the statements. -/
lemma statements_one (vi : Viable StatesAlways ks) : Viable StatesAllAlways ks := by
  refine vi.behind .nil StatesAlways.nested ?_
  intro more s sa
  refine ⟨[s], fun rest => ?_⟩
  have dvs : DerivesStatements ((ks ++ more) ++ []) rest [s] := .cons (sa _) .nil
  rwa [List.append_nil] at dvs

/-- A semicolon in front does not matter to the completion. -/
lemma statements_semicolon (vi : Viable StatesAllAlways ks) : Viable StatesAllAlways (.semicolon :: ks) :=
  vi.behind (.single rfl rfl) StatesAllAlways.nested fun sa => ⟨_, fun rest => .semicolon (sa rest)⟩

/-- Behind a statement that was read in front of some tokens, these tokens are completed. Where there are
none yet, a semicolon completes the statement. -/
lemma statements_cons {rest : List TokenKind} {s : Statement} (dv : DerivesStatement ks (ls ++ rest) s)
    (vi : Viable StatesAllAlways ls) : Viable StatesAllAlways (ks ++ ls) := by
  cases ls with
  | nil =>
    rw [List.append_nil]
    exact of_concat rfl (of_derives dv.semicolon)
  | cons k ls =>
    refine vi.behind dv.nested StatesAllAlways.nested ?_
    intro more ss sa
    exact ⟨_, fun rest => .cons (dv.of_next rfl) (sa rest)⟩

end Viable

end LatinToScript
