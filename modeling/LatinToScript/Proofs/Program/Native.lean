import LatinToScript.Proofs.Program.Tree
import LatinToScript.Proofs.Relabeling

/-!
# Native words in the whole tree

Native words are put in node by node (`Program.tree_toNative`), whatever the tree looks like and wherever
the node is. So what holds of every single node holds of the tree: the Latin words are just those that are
exchanged (`NodeLabel.toNative_eq_self_iff`), and what they are exchanged for is not Latin
(`NodeLabel.not_isLatin_toNative`).
-/

namespace LatinToScript

/-! ## One node -/

/-- The node holds a word of the source language. -/
def NodeLabel.IsLatin : NodeLabel → Prop
  | .declaration kind => ∃ binding, kind = .latin binding
  | .boolean value => ∃ word ∈ booleanWords, value = .word word
  | .null value => value = .word nullWord
  | .relation operator => operator ∈ operatorWords
  | _ => False

/-- The node holds a name, a number or a text. -/
def NodeLabel.isContent : NodeLabel → Bool
  | .name _ => true
  | .number _ => true
  | .text _ => true
  | _ => false

/-- The node with a native word in the place of a Latin one. -/
def NodeLabel.toNative : NodeLabel → NodeLabel
  | .declaration kind => .declaration kind.toNative
  | .boolean value => .boolean value.toNative
  | .null value => .null value.toNative
  | .relation operator => .relation ((operatorSymbol? operator).getD operator)
  | label => label

/-- A word that is no Latin operator has no symbol. -/
lemma operatorSymbol?_eq_none {word : String} (other : word ∉ operatorWords) :
    operatorSymbol? word = none := by
  unfold operatorSymbol?
  split
  case h_9 => rfl
  all_goals exact absurd (by decide) other

/-- What is put in the place of an operator is no Latin operator. -/
lemma operatorSymbol?_not_mem (word : String) :
    (operatorSymbol? word).getD word ∉ operatorWords := by
  by_cases mem : word ∈ operatorWords
  · simp only [operatorWords, List.mem_cons, List.not_mem_nil, or_false] at mem
    rcases mem with rfl | rfl | rfl | rfl | rfl | rfl | rfl | rfl <;> decide
  · rwa [operatorSymbol?_eq_none mem]

/-- A boolean that is no Latin word stays as it is. -/
lemma BooleanValue.toNative_eq_self {value : BooleanValue}
    (other : ∀ word ∈ booleanWords, value ≠ .word word) : value.toNative = value := by
  unfold BooleanValue.toNative
  split
  · exact absurd rfl (other "verum" (by decide))
  · exact absurd rfl (other "falsum" (by decide))
  · rfl

/-- What is put in the place of a boolean is no Latin word. -/
lemma BooleanValue.toNative_ne_word (value : BooleanValue) :
    ∀ word ∈ booleanWords, value.toNative ≠ .word word := by
  by_cases latin : ∃ word ∈ booleanWords, value = .word word
  · obtain ⟨word, mem, rfl⟩ := latin
    simp only [booleanWords, List.mem_cons, List.not_mem_nil, or_false] at mem
    rcases mem with rfl | rfl <;> decide
  · have other : ∀ word ∈ booleanWords, value ≠ .word word := by
      intro word mem eq
      exact latin ⟨word, mem, eq⟩
    rwa [toNative_eq_self other]

/-- A null that is not the Latin word stays as it is. -/
lemma NullValue.toNative_eq_self {value : NullValue} (other : value ≠ .word nullWord) :
    value.toNative = value :=
  if_neg other

/-- What is put in the place of a null is not the Latin word. -/
lemma NullValue.toNative_ne_word (value : NullValue) : value.toNative ≠ .word nullWord := by
  by_cases latin : value = .word nullWord
  · subst latin
    decide
  · rwa [toNative_eq_self latin]

namespace NodeLabel

/-- The native word of a node is not Latin. -/
lemma not_isLatin_toNative (label : NodeLabel) : ¬ label.toNative.IsLatin := by
  cases label with
  | declaration kind =>
    rintro ⟨binding, eq⟩
    cases kind <;> cases eq
  | boolean value =>
    rintro ⟨word, mem, eq⟩
    exact value.toNative_ne_word word mem eq
  | null value => exact value.toNative_ne_word
  | relation operator => exact operatorSymbol?_not_mem operator
  | _ => exact id

/-- The nodes that are left as they are are those without a Latin word. -/
lemma toNative_eq_self_iff (label : NodeLabel) : label.toNative = label ↔ ¬ label.IsLatin := by
  constructor
  · intro eq latin
    rw [← eq] at latin
    exact label.not_isLatin_toNative latin
  · intro other
    cases label with
    | declaration kind =>
      cases kind with
      | latin binding => exact absurd ⟨binding, rfl⟩ other
      | native binding => rfl
    | boolean value =>
      have eq : value.toNative = value := by
        apply BooleanValue.toNative_eq_self
        intro word mem eq
        exact other ⟨word, mem, eq⟩
      rw [toNative, eq]
    | null value => rw [toNative, NullValue.toNative_eq_self other]
    | relation operator => rw [toNative, operatorSymbol?_eq_none other, Option.getD_none]
    | _ => rfl

/-- A native word is not exchanged again. -/
lemma toNative_toNative (label : NodeLabel) : label.toNative.toNative = label.toNative :=
  (toNative_eq_self_iff _).mpr label.not_isLatin_toNative

/-- A node with a native word is of the same kind. -/
lemma kind_toNative (label : NodeLabel) : label.toNative.kind = label.kind := by
  cases label <;> rfl

/-- A node with a native word is a name, a number or a text just when it was one. -/
lemma isContent_toNative (label : NodeLabel) : label.toNative.isContent = label.isContent := by
  cases label <;> rfl

/-- Names, numbers and texts stay as they are. -/
lemma toNative_eq_of_isContent {label : NodeLabel} (content : label.isContent = true) :
    label.toNative = label := by
  cases label <;> first | rfl | cases content

end NodeLabel

/-! ## The tree -/

/-- Native words are put into an expression node by node. -/
lemma Expression.tree_relabel (parent : NodeKind) (e : Expression) :
    (e.relabel nativeWords parent).tree = e.tree.map NodeLabel.toNative := by
  induction e generalizing parent with
  | relation left operator right ihl ihr =>
    rw [Expression.relabel, Expression.tree, ihl, ihr]
    rfl
  | _ => rfl

/-- Native words are put into a relation node by node. -/
lemma Relation.tree_relabel (parent : NodeKind) (x : Relation) :
    (x.relabel nativeWords parent).tree = x.tree.map NodeLabel.toNative := by
  rw [Relation.relabel, Relation.tree, Expression.tree_relabel, Expression.tree_relabel]
  rfl

/-- Native words are put into a declarator node by node. -/
lemma Declarator.tree_relabel (d : Declarator) :
    (d.relabel nativeWords).tree = d.tree.map NodeLabel.toNative := by
  rw [Declarator.relabel, Declarator.tree, Expression.tree_relabel]
  rfl

/-- Native words are put into a declaration node by node, its keyword included. -/
lemma Declaration.tree_relabel (parent : NodeKind) (d : Declaration) :
    (d.relabel nativeWords parent).tree = d.tree.map NodeLabel.toNative := by
  rw [Declaration.relabel, Declaration.tree, Declaration.tree, NodeTree.map, NodeTree.mapAll_eq_map,
    List.map_map, List.map_map]
  congr 1
  exact List.map_congr_left fun x _ => x.tree_relabel

mutual

/-- Native words are put into a statement node by node, whatever its parent is. -/
lemma Statement.tree_relabel (parent : NodeKind) :
    ∀ s : Statement, (s.relabel nativeWords parent).tree = s.tree.map NodeLabel.toNative
  | .declaration d => d.tree_relabel parent
  | .binding d => d.tree_relabel
  | .conditional test consequent alternate => by
    rw [Statement.relabel, Statement.tree, Relation.tree_relabel, Statement.treeAll_relabelAll,
      Statement.treeAlternate_relabelAlternate]
    rfl
  | .loop test body => by
    rw [Statement.relabel, Statement.tree, Relation.tree_relabel, Statement.treeAll_relabelAll]
    rfl
  | .block body => by
    rw [Statement.relabel, Statement.tree, Statement.treeAll_relabelAll]
    rfl
  | .expression e => e.tree_relabel parent

/-- Native words are put into statements node by node. -/
lemma Statement.treeAll_relabelAll (parent : NodeKind) :
    ∀ ss : List Statement, Statement.treeAll (Statement.relabelAll nativeWords parent ss) =
      NodeTree.mapAll NodeLabel.toNative (Statement.treeAll ss)
  | [] => rfl
  | s :: ss => by
    rw [Statement.relabelAll, Statement.treeAll, Statement.tree_relabel, Statement.treeAll_relabelAll]
    rfl

/-- Native words are put into the second block of a choice node by node. -/
lemma Statement.treeAlternate_relabelAlternate :
    ∀ alternate : Option (List Statement),
      Statement.treeAlternate (Statement.relabelAlternate nativeWords alternate) =
        NodeTree.mapAll NodeLabel.toNative (Statement.treeAlternate alternate)
  | none => rfl
  | some body => by
    rw [Statement.relabelAlternate, Statement.treeAlternate, Statement.treeAll_relabelAll]
    rfl

end

/-- Native words are put in at each node by itself. -/
lemma Program.tree_toNative (p : Program) : p.toNative.tree = p.tree.map NodeLabel.toNative := by
  rw [Program.toNative, Program.relabel_eq, Program.tree, Statement.treeAll_relabelAll]
  rfl

/-- The names, numbers and texts of a program, in the order of its nodes. -/
def Program.contents (p : Program) : List NodeLabel :=
  p.tree.values.filter NodeLabel.isContent

/-- Native words leave the names, the numbers and the texts of a program in their order. -/
lemma Program.contents_toNative (p : Program) : p.toNative.contents = p.contents := by
  have same : NodeLabel.isContent ∘ NodeLabel.toNative = NodeLabel.isContent :=
    funext NodeLabel.isContent_toNative
  rw [Program.contents, Program.tree_toNative, NodeTree.values_map, List.filter_map, same]
  have fixed : ∀ label ∈ p.tree.values.filter NodeLabel.isContent, label.toNative = id label := by
    intro label mem
    exact NodeLabel.toNative_eq_of_isContent (List.mem_filter.mp mem).2
  rw [List.map_congr_left fixed, List.map_id]
  rfl

/-- Putting native words into any program a second time changes nothing. The shape of the program, its
names, its numbers and its texts stay as they are, and the whole program does exactly when no node of it
holds a Latin word. -/
theorem Program.toNative_complete (p : Program) :
    p.toNative.toNative = p.toNative ∧
    p.toNative.tree.shape = p.tree.shape ∧
    p.toNative.contents = p.contents ∧
    (p.toNative = p ↔ ∀ label ∈ p.tree.values, ¬ label.IsLatin) := by
  refine ⟨?_, ?_, p.contents_toNative, ?_⟩
  · apply Program.tree_injective
    rw [Program.tree_toNative, Program.tree_toNative, NodeTree.map_map]
    congr 1
    exact funext NodeLabel.toNative_toNative
  · rw [Program.tree_toNative, NodeTree.shape, NodeTree.shape, NodeTree.map_map]
    congr 1
    exact funext NodeLabel.kind_toNative
  · rw [← Program.tree_injective.eq_iff, Program.tree_toNative, NodeTree.map_eq_self_iff]
    simp only [NodeLabel.toNative_eq_self_iff]

end LatinToScript
