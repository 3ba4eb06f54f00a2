import LatinToScript.Compile
import LatinToScript.Proofs.Grammar.Acceptance
import LatinToScript.Proofs.Token.Lexical

/-!
# Well-formed programs

`Program.WellFormed` says what a program in Latin words looks like: which words, names and literals stand
in it, and how deep blocks and relations enclose one another. What the grammar derives from the tokens of
a text is well formed (`DerivesProgram.wellFormed`).
-/

namespace LatinToScript

/-! ## Words and literals -/

namespace Expression

/-- An expression with Latin words, proper names and proper literals. -/
def WellFormed : Expression → Prop
  | .name n => IsName n
  | .number value => value ≠ 0 ∧ value ≤ 3999
  | .text t => '"' ∉ t.toList
  | .boolean (.word word) => word ∈ booleanWords
  | .boolean (.native _) => False
  | .null (.word word) => word = nullWord
  | .null .native => False
  | .relation left operator right => left.WellFormed ∧ operator ∈ operatorWords ∧ right.WellFormed

/-- Whether an expression is a name. -/
def isName : Expression → Bool
  | .name _ => true
  | _ => false

/-- How deep relations enclose one another in an operand, which is in parentheses itself if it is a
relation. -/
def nesting : Expression → Nat
  | .relation left _ right => max left.nesting right.nesting + 1
  | _ => 0

/-- How deep relations enclose one another in a value, which is not in parentheses itself. -/
def valueNesting : Expression → Nat
  | .relation left _ right => max left.nesting right.nesting
  | _ => 0

/-- A value needs no more parentheses than an operand. -/
lemma valueNesting_le_nesting (e : Expression) : e.valueNesting ≤ e.nesting := by
  cases e with
  | relation left _ right => exact Nat.le_succ _
  | _ => exact Nat.le_refl _

end Expression

/-- A relation with Latin words, proper names and proper literals. -/
def Relation.WellFormed (r : Relation) : Prop :=
  r.toExpression.WellFormed

/-- A declarator with a proper name and value. -/
structure Declarator.WellFormed (d : Declarator) : Prop where
  name : IsName d.name
  value : d.value.WellFormed

/-- A declaration with a Latin keyword and at least one declarator. -/
structure Declaration.WellFormed (d : Declaration) : Prop where
  kind : ∃ binding, d.kind = .latin binding
  ne_nil : d.declarators ≠ []
  declarators : ∀ x ∈ d.declarators, x.WellFormed

/-- How deep relations enclose one another in the values of some declarators. -/
def Declarator.nestingAll : List Declarator → Nat
  | [] => 0
  | d :: ds => max d.value.valueNesting (Declarator.nestingAll ds)

/-! ## Statements -/

mutual

/-- A statement with proper parts; a choice has one block only, and a name is no statement. -/
def Statement.WellFormed : Statement → Prop
  | .declaration d => d.WellFormed
  | .binding d => d.WellFormed
  | .conditional test consequent alternate =>
    test.WellFormed ∧ Statement.WellFormedAll consequent ∧ alternate = none
  | .loop test body => test.WellFormed ∧ Statement.WellFormedAll body
  | .block body => Statement.WellFormedAll body
  | .expression e => e.WellFormed ∧ e.isName = false

/-- Statements with proper parts. -/
def Statement.WellFormedAll : List Statement → Prop
  | [] => True
  | s :: ss => s.WellFormed ∧ Statement.WellFormedAll ss

end

mutual

/-- How deep blocks and relations enclose one another in a statement. -/
def Statement.nesting : Statement → Nat
  | .declaration d => Declarator.nestingAll d.declarators
  | .binding d => d.value.valueNesting
  | .conditional test consequent alternate =>
    max test.toExpression.valueNesting
      (max (Statement.nestingAll consequent + 1) (Statement.nestingAlternate alternate))
  | .loop test body => max test.toExpression.valueNesting (Statement.nestingAll body + 1)
  | .block body => Statement.nestingAll body + 1
  | .expression e => e.nesting

/-- How deep blocks and relations enclose one another in some statements. -/
def Statement.nestingAll : List Statement → Nat
  | [] => 0
  | s :: ss => max s.nesting (Statement.nestingAll ss)

/-- How deep blocks and relations enclose one another in the second block of a choice. -/
def Statement.nestingAlternate : Option (List Statement) → Nat
  | none => 0
  | some body => Statement.nestingAll body + 1

end

/-- A program with proper statements that enclose one another up to the limit. -/
structure Program.WellFormed (p : Program) : Prop where
  statements : Statement.WellFormedAll p.body
  nesting : Statement.nestingAll p.body ≤ 256

/-! ## Well-formedness is decided -/

instance IsName.decidable (n : String) : Decidable (IsName n) :=
  decidable_of_iff
    (n ≠ "" ∧ n.toList.all isWordChar = true ∧ Numeral.isNumeral n.toList = false ∧
      n ∉ reservedWords)
    ⟨fun ⟨nonempty, word, nonum, nores⟩ => ⟨nonempty, List.all_eq_true.mp word, nonum, nores⟩,
      fun nm => ⟨nm.ne_empty, List.all_eq_true.mpr nm.word, nm.not_numeral, nm.not_reserved⟩⟩

instance Expression.decidableWellFormed : (e : Expression) → Decidable e.WellFormed
  | .name n => inferInstanceAs (Decidable (IsName n))
  | .number value => inferInstanceAs (Decidable (value ≠ 0 ∧ value ≤ 3999))
  | .text t => inferInstanceAs (Decidable ('"' ∉ t.toList))
  | .boolean (.word word) => inferInstanceAs (Decidable (word ∈ booleanWords))
  | .boolean (.native _) => .isFalse id
  | .null (.word word) => inferInstanceAs (Decidable (word = nullWord))
  | .null .native => .isFalse id
  | .relation left _ right =>
    have := left.decidableWellFormed
    have := right.decidableWellFormed
    inferInstanceAs (Decidable (_ ∧ _ ∧ _))

instance Relation.decidableWellFormed (r : Relation) : Decidable r.WellFormed :=
  r.toExpression.decidableWellFormed

instance Declarator.decidableWellFormed (d : Declarator) : Decidable d.WellFormed :=
  decidable_of_iff (IsName d.name ∧ d.value.WellFormed)
    ⟨fun ⟨name, value⟩ => ⟨name, value⟩, fun wf => ⟨wf.name, wf.value⟩⟩

instance Declaration.decidableWellFormed : (d : Declaration) → Decidable d.WellFormed
  | ⟨.latin b, ds⟩ =>
    decidable_of_iff (ds ≠ [] ∧ ∀ d ∈ ds, d.WellFormed)
      ⟨fun ⟨nonempty, wf⟩ => ⟨⟨b, rfl⟩, nonempty, wf⟩, fun wf => ⟨wf.ne_nil, wf.declarators⟩⟩
  | ⟨.native _, _⟩ => .isFalse fun wf => wf.kind.elim nofun

mutual

instance Statement.decidableWellFormed : (s : Statement) → Decidable s.WellFormed
  | .declaration d => inferInstanceAs (Decidable d.WellFormed)
  | .binding d => inferInstanceAs (Decidable d.WellFormed)
  | .conditional _ consequent none =>
    have := Statement.decidableWellFormedAll consequent
    inferInstanceAs (Decidable (_ ∧ _ ∧ none = none))
  | .conditional _ _ (some _) => .isFalse fun wf => nomatch wf.2.2
  | .loop _ body =>
    have := Statement.decidableWellFormedAll body
    inferInstanceAs (Decidable (_ ∧ _))
  | .block body => Statement.decidableWellFormedAll body
  | .expression _ => inferInstanceAs (Decidable (_ ∧ _))

instance Statement.decidableWellFormedAll :
    (ss : List Statement) → Decidable (Statement.WellFormedAll ss)
  | [] => .isTrue trivial
  | s :: ss =>
    have := Statement.decidableWellFormed s
    have := Statement.decidableWellFormedAll ss
    inferInstanceAs (Decidable (_ ∧ _))

end

instance Program.decidableWellFormed (p : Program) : Decidable p.WellFormed :=
  decidable_of_iff (Statement.WellFormedAll p.body ∧ Statement.nestingAll p.body ≤ 256)
    ⟨fun ⟨statements, nesting⟩ => ⟨statements, nesting⟩, fun wf => ⟨wf.statements, wf.nesting⟩⟩

/-! ## Derived expressions -/

/-- Literals of a text are well formed, and they are no names. -/
lemma DerivesLiteral.wellFormed {ks e} (dv : DerivesLiteral ks e) (lex : ∀ k ∈ ks, k.Lexical) :
    e.WellFormed ∧ e.isName = false := by
  cases dv with
  | number => exact ⟨lex _ List.mem_cons_self, rfl⟩
  | text => exact ⟨lex _ List.mem_cons_self, rfl⟩
  | boolean => exact ⟨lex _ List.mem_cons_self, rfl⟩
  | null => exact ⟨rfl, rfl⟩

mutual

/-- An operand that is derived from the tokens of a text is well formed. -/
lemma DerivesOperand.wellFormed {ks e} :
    DerivesOperand ks e → (∀ k ∈ ks, k.Lexical) → e.WellFormed
  | .literal dv, lex => (dv.wellFormed lex).1
  | .name, lex => lex _ List.mem_cons_self
  | .paren dv, lex => dv.wellFormed lex

/-- A relation in parentheses that is derived from the tokens of a text is well formed. -/
lemma DerivesParen.wellFormed {ks e} : DerivesParen ks e → (∀ k ∈ ks, k.Lexical) → e.WellFormed
  | .relation dl dr, lex => by
    simp only [List.forall_mem_cons, List.forall_mem_append] at lex
    obtain ⟨_, lexl, lexo, lexr, _⟩ := lex
    exact ⟨dl.wellFormed lexl, lexo, dr.wellFormed lexr⟩

end

mutual

/-- Operands nest as deep as their tokens at most. -/
lemma DerivesOperand.nesting_le {ks e} :
    DerivesOperand ks e → ∀ {limit}, NestedWithin limit ks → e.nesting ≤ limit
  | .literal dv, _, _ => by
    cases dv <;> exact Nat.zero_le _
  | .name, _, _ => Nat.zero_le _
  | .paren dv, _, nw => dv.nesting_le nw

/-- A relation in parentheses is nested no deeper than its tokens. -/
lemma DerivesParen.nesting_le {ks e} :
    DerivesParen ks e → ∀ {limit}, NestedWithin limit ks → e.nesting ≤ limit
  | .relation _ _, 0, nw => absurd nw not_nestedWithin_zero
  | .relation dl dr, limit + 1, nw => by
    obtain ⟨wl, wr⟩ := (nestedWithin_paren_iff dl.nested dr.nested).mp nw
    exact Nat.succ_le_succ (max_le (dl.nesting_le wl) (dr.nesting_le wr))

end

/-- An expression that is derived from the tokens of a text is well formed. -/
lemma DerivesExpression.wellFormed {ks e} (dv : DerivesExpression ks e)
    (lex : ∀ k ∈ ks, k.Lexical) : e.WellFormed := by
  cases dv with
  | operand dv => exact dv.wellFormed lex
  | relation dl dr =>
    simp only [List.forall_mem_cons, List.forall_mem_append] at lex
    obtain ⟨lexl, lexo, lexr⟩ := lex
    exact ⟨dl.wellFormed lexl, lexo, dr.wellFormed lexr⟩

/-- An expression is nested no deeper than its tokens. -/
lemma DerivesExpression.valueNesting_le {limit ks e} (dv : DerivesExpression ks e)
    (nw : NestedWithin limit ks) : e.valueNesting ≤ limit := by
  cases dv with
  | operand dv =>
    -- Parentheses around a whole value are not kept in the tree, so they count in the tokens only.
    exact (Expression.valueNesting_le_nesting _).trans (dv.nesting_le nw)
  | relation dl dr =>
    rw [dl.nested.within_append_iff, nestedWithin_cons_iff rfl rfl] at nw
    exact max_le (dl.nesting_le nw.1) (dr.nesting_le nw.2)

/-! ## Derived declarations -/

/-- A declarator that is derived from the tokens of a text is well formed. -/
lemma DerivesDeclarator.wellFormed {ks d} (dv : DerivesDeclarator ks d)
    (lex : ∀ k ∈ ks, k.Lexical) : d.WellFormed := by
  cases dv with
  | bind dv =>
    simp only [List.forall_mem_cons] at lex
    obtain ⟨lexn, _, lexe⟩ := lex
    exact ⟨lexn, dv.wellFormed lexe⟩

/-- The value of a declarator is nested no deeper than its tokens. -/
lemma DerivesDeclarator.valueNesting_le {limit ks d} (dv : DerivesDeclarator ks d)
    (nw : NestedWithin limit ks) : d.value.valueNesting ≤ limit := by
  cases dv with
  | bind dv =>
    rw [nestedWithin_cons_iff rfl rfl, nestedWithin_cons_iff rfl rfl] at nw
    exact dv.valueNesting_le nw

/-- Declarators that are derived from the tokens of a text are well formed. -/
lemma DerivesDeclarators.wellFormed {ks ds} (dv : DerivesDeclarators ks ds)
    (lex : ∀ k ∈ ks, k.Lexical) : ∀ d ∈ ds, d.WellFormed := by
  induction dv with
  | one dv =>
    intro d mem
    rw [List.mem_singleton.mp mem]
    exact dv.wellFormed lex
  | cons dv _ ih =>
    rw [List.forall_mem_append] at lex
    intro d mem
    rcases List.mem_cons.mp mem with rfl | mem
    · exact dv.wellFormed lex.1
    · exact ih lex.2 d mem

/-- The values of declarators are nested no deeper than their tokens. -/
lemma DerivesDeclarators.nestingAll_le {limit ks ds} (dv : DerivesDeclarators ks ds)
    (nw : NestedWithin limit ks) : Declarator.nestingAll ds ≤ limit := by
  induction dv with
  | one dv => exact max_le (dv.valueNesting_le nw) (Nat.zero_le _)
  | cons dv _ ih =>
    rw [dv.nested.within_append_iff] at nw
    exact max_le (dv.valueNesting_le nw.1) (ih nw.2)

/-- A declaration that is derived from the tokens of a text is well formed. -/
lemma DerivesDeclaration.wellFormed {ks rest d} (dv : DerivesDeclaration ks rest d)
    (lex : ∀ k ∈ ks, k.Lexical) : d.WellFormed := by
  cases dv with
  | @declare _ _ _ binding _ dv _ =>
    simp only [List.forall_mem_cons, List.forall_mem_append] at lex
    exact ⟨⟨binding, rfl⟩, dv.ne_nil, dv.wellFormed lex.2.1⟩

/-- The values of a declaration are nested no deeper than its tokens. -/
lemma DerivesDeclaration.nestingAll_le {limit ks rest d} (dv : DerivesDeclaration ks rest d)
    (nw : NestedWithin limit ks) : Declarator.nestingAll d.declarators ≤ limit := by
  cases dv with
  | declare dv _ =>
    rw [nestedWithin_cons_iff rfl rfl, dv.nested.within_append_iff] at nw
    exact dv.nestingAll_le nw.1

/-! ## Derived statements -/

mutual

/-- A statement that is derived from the tokens of a text is well formed. -/
lemma DerivesStatement.wellFormed {ks rest s} :
    DerivesStatement ks rest s → (∀ k ∈ ks, k.Lexical) → s.WellFormed
  | @DerivesStatement.control _ _ _ control _ _ _ _ dt db, lex => by
    simp only [List.forall_mem_cons, List.forall_mem_append] at lex
    obtain ⟨_, lext, lexb⟩ := lex
    cases control with
    | si => exact ⟨dt.wellFormed lext, db.wellFormed lexb, rfl⟩
    | dum => exact ⟨dt.wellFormed lext, db.wellFormed lexb⟩
  | .declaration dv, lex => dv.wellFormed lex
  | .binding dv, lex => dv.wellFormed lex
  | .block dv, lex => dv.wellFormed lex
  | .literal dv, lex => dv.wellFormed lex
  | .paren dv, lex => by
    refine ⟨dv.wellFormed lex, ?_⟩
    cases dv
    rfl

/-- The statements of a block that is derived from the tokens of a text are well formed. -/
lemma DerivesBlock.wellFormed {ks rest body} :
    DerivesBlock ks rest body → (∀ k ∈ ks, k.Lexical) → Statement.WellFormedAll body
  | .braces dv, lex => by
    simp only [List.forall_mem_cons, List.forall_mem_append] at lex
    exact dv.wellFormed lex.2.1

/-- Statements that are derived from the tokens of a text are well formed. -/
lemma DerivesStatements.wellFormed {ks rest ss} :
    DerivesStatements ks rest ss → (∀ k ∈ ks, k.Lexical) → Statement.WellFormedAll ss
  | .nil, _ => trivial
  | .semicolon dv, lex => dv.wellFormed (List.forall_mem_cons.mp lex).2
  | .cons dv dvs, lex => by
    rw [List.forall_mem_append] at lex
    exact ⟨dv.wellFormed lex.1, dvs.wellFormed lex.2⟩

end

mutual

/-- A statement is nested no deeper than its tokens. -/
lemma DerivesStatement.nesting_le {ks rest s} :
    DerivesStatement ks rest s → ∀ {limit}, NestedWithin limit ks → s.nesting ≤ limit
  | @DerivesStatement.control _ _ _ control _ _ _ _ dt db, limit, nw => by
    rw [nestedWithin_cons_iff rfl rfl, dt.nested.within_append_iff] at nw
    have test := dt.valueNesting_le nw.1
    have block := db.nestingAll_lt nw.2
    cases control with
    | si => exact max_le test (max_le block (Nat.zero_le _))
    | dum => exact max_le test block
  | .declaration dv, _, nw => dv.nestingAll_le nw
  | .binding dv, _, nw => dv.valueNesting_le nw
  | .block dv, _, nw => dv.nestingAll_lt nw
  | .literal dv, _, nw => (DerivesOperand.literal dv).nesting_le nw
  | .paren dv, _, nw => dv.nesting_le nw

/-- The statements of a block nest one level less than its tokens at most. -/
lemma DerivesBlock.nestingAll_lt {ks rest body} :
    DerivesBlock ks rest body → ∀ {limit}, NestedWithin limit ks →
      Statement.nestingAll body < limit
  | .braces _, 0, nw => absurd nw not_nestedWithin_zero
  | .braces dv, limit + 1, nw => by
    rw [dv.nested.within_enclosed_iff] at nw
    exact Nat.lt_succ_of_le (dv.nestingAll_le nw)

/-- Statements are nested no deeper than their tokens. -/
lemma DerivesStatements.nestingAll_le {ks rest ss} :
    DerivesStatements ks rest ss → ∀ {limit}, NestedWithin limit ks →
      Statement.nestingAll ss ≤ limit
  | .nil, _, _ => Nat.zero_le _
  | .semicolon dv, _, nw => dv.nestingAll_le ((nestedWithin_cons_iff rfl rfl).mp nw)
  | .cons dv dvs, _, nw => by
    rw [dv.nested.within_append_iff] at nw
    exact max_le (dv.nesting_le nw.1) (dvs.nestingAll_le nw.2)

end

/-- Programs of a text are well formed. -/
lemma DerivesProgram.wellFormed {ks : List TokenKind} {p : Program} (dv : DerivesProgram ks p)
    (lex : ∀ k ∈ ks, k.Lexical) (nw : NestedWithin 256 ks) : p.WellFormed :=
  ⟨DerivesStatements.wellFormed dv lex, DerivesStatements.nestingAll_le dv nw⟩

end LatinToScript
