import LatinToScript.Program.Walk
import Mathlib.Tactic.Common

/-!
# The nodes of a program

A program as a tree of nodes, each with what it holds of its own. The children of a node stand in the order
of the source: a declaration has its declarators, a declarator its name and its value, a relation its left
operand and its right one, a choice its test and its one or two blocks, a loop its test and its block, and a
block or a program its statements. A statement is no node of its own.

Nothing gets lost on the way: two programs with the same tree are the same (`Program.tree_injective`).
-/

namespace LatinToScript

/-- What a node is, with what it holds of its own. -/
inductive NodeLabel where
  | program
  | declaration (kind : DeclarationKind)
  | declarator
  | name (name : String)
  | number (value : Int)
  | text (text : String)
  | boolean (value : BooleanValue)
  | null (value : NullValue)
  | relation (operator : String)
  | block
  | conditional
  | loop
deriving DecidableEq, Repr

/-- The kind of a node. -/
def NodeLabel.kind : NodeLabel → NodeKind
  | .program => .program
  | .declaration _ => .declaration
  | .declarator => .declarator
  | .name _ => .name
  | .number _ => .number
  | .text _ => .text
  | .boolean _ => .boolean
  | .null _ => .null
  | .relation _ => .relation
  | .block => .block
  | .conditional => .conditional
  | .loop => .loop

/-- A tree with something at each node. -/
structure NodeTree (α : Type) where
  node ::
  value : α
  children : List (NodeTree α)

/-! ## Trees -/

namespace NodeTree

variable {α β γ : Type} {f : α → β} {g : β → γ}

mutual

/-- A tree of the same shape, with other things at its nodes. -/
def map (f : α → β) : NodeTree α → NodeTree β
  | .node a ts => .node (f a) (mapAll f ts)

/-- Trees of the same shapes, with other things at their nodes. -/
def mapAll (f : α → β) : List (NodeTree α) → List (NodeTree β)
  | [] => []
  | t :: ts => t.map f :: mapAll f ts

end

mutual

/-- What is at the nodes, in pre-order. -/
def values : NodeTree α → List α
  | .node a ts => a :: valuesAll ts

/-- What is at the nodes of some trees, one tree after the other. -/
def valuesAll : List (NodeTree α) → List α
  | [] => []
  | t :: ts => t.values ++ valuesAll ts

end

/-- Trees are mapped one by one. -/
lemma mapAll_eq_map (ts : List (NodeTree α)) : mapAll f ts = ts.map (map f) := by
  induction ts with
  | nil => rfl
  | cons t ts ih => rw [mapAll, ih, List.map_cons]

mutual

/-- A tree that is mapped twice is mapped by both at once. -/
lemma map_map : ∀ t : NodeTree α, (t.map f).map g = t.map (g ∘ f)
  | .node a ts => by
    rw [map, map, map, mapAll_mapAll]
    rfl

/-- Trees that are mapped twice are mapped by both at once. -/
lemma mapAll_mapAll : ∀ ts : List (NodeTree α), mapAll g (mapAll f ts) = mapAll (g ∘ f) ts
  | [] => rfl
  | t :: ts => by rw [mapAll, mapAll, mapAll, map_map, mapAll_mapAll]

end

mutual

/-- What is at the nodes of a mapped tree is what was there, mapped. -/
lemma values_map : ∀ t : NodeTree α, (t.map f).values = t.values.map f
  | .node a ts => by rw [map, values, values, valuesAll_mapAll, List.map_cons]

/-- What is at the nodes of mapped trees is what was there, mapped. -/
lemma valuesAll_mapAll : ∀ ts : List (NodeTree α), valuesAll (mapAll f ts) = (valuesAll ts).map f
  | [] => rfl
  | t :: ts => by rw [mapAll, valuesAll, valuesAll, values_map, valuesAll_mapAll, List.map_append]

end

mutual

/-- A tree stays as it is exactly when everything at its nodes does. -/
lemma map_eq_self_iff {f : α → α} : ∀ t : NodeTree α, t.map f = t ↔ ∀ a ∈ t.values, f a = a
  | .node a ts => by
    rw [map, values, List.forall_mem_cons, node.injEq, mapAll_eq_self_iff]

/-- Trees stay as they are exactly when everything at their nodes does. -/
lemma mapAll_eq_self_iff {f : α → α} :
    ∀ ts : List (NodeTree α), mapAll f ts = ts ↔ ∀ a ∈ valuesAll ts, f a = a
  | [] => ⟨fun _ => List.forall_mem_nil _, fun _ => rfl⟩
  | t :: ts => by
    rw [mapAll, valuesAll, List.forall_mem_append, List.cons.injEq, map_eq_self_iff,
      mapAll_eq_self_iff]

end

/-- What is left of a tree without what its nodes hold of their own. -/
def shape (t : NodeTree NodeLabel) : NodeTree NodeKind :=
  t.map NodeLabel.kind

end NodeTree

/-! ## The tree of a program -/

/-- The tree of an expression. -/
def Expression.tree : Expression → NodeTree NodeLabel
  | .name n => .node (.name n) []
  | .number value => .node (.number value) []
  | .text t => .node (.text t) []
  | .boolean value => .node (.boolean value) []
  | .null value => .node (.null value) []
  | .relation left operator right => .node (.relation operator) [left.tree, right.tree]

/-- The tree of a relation. -/
def Relation.tree (x : Relation) : NodeTree NodeLabel :=
  .node (.relation x.operator) [x.left.tree, x.right.tree]

/-- The tree of a declarator. -/
def Declarator.tree (d : Declarator) : NodeTree NodeLabel :=
  .node .declarator [.node (.name d.name) [], d.value.tree]

/-- The tree of a declaration. -/
def Declaration.tree (d : Declaration) : NodeTree NodeLabel :=
  .node (.declaration d.kind) (d.declarators.map Declarator.tree)

mutual

/-- The tree of what a statement consists of. -/
def Statement.tree : Statement → NodeTree NodeLabel
  | .declaration d => d.tree
  | .binding d => d.tree
  | .conditional test consequent alternate =>
    .node .conditional
      (test.tree :: .node .block (Statement.treeAll consequent) :: Statement.treeAlternate alternate)
  | .loop test body => .node .loop [test.tree, .node .block (Statement.treeAll body)]
  | .block body => .node .block (Statement.treeAll body)
  | .expression e => e.tree

/-- The trees of some statements. -/
def Statement.treeAll : List Statement → List (NodeTree NodeLabel)
  | [] => []
  | s :: ss => s.tree :: Statement.treeAll ss

/-- The tree of the second block of a choice, if there is one. -/
def Statement.treeAlternate : Option (List Statement) → List (NodeTree NodeLabel)
  | none => []
  | some body => [.node .block (Statement.treeAll body)]

end

/-- The tree of a choice. -/
def Conditional.tree (c : Conditional) : NodeTree NodeLabel :=
  (Statement.conditional c.test c.consequent c.alternate).tree

/-- The tree of a loop. -/
def Loop.tree (l : Loop) : NodeTree NodeLabel :=
  (Statement.loop l.test l.body).tree

/-- The tree of a program. -/
def Program.tree (p : Program) : NodeTree NodeLabel :=
  .node .program (Statement.treeAll p.body)

/-! ## Trees tell programs apart -/

/-- Expressions with the same tree are the same. -/
lemma Expression.tree_injective : Function.Injective Expression.tree := by
  intro e
  induction e with
  | relation left operator right ihl ihr =>
    intro f same
    cases f
    case relation left' operator' right' =>
      have parts : operator = operator' ∧ left.tree = left'.tree ∧ right.tree = right'.tree := by
        simpa [Expression.tree] using same
      rw [parts.1, ihl parts.2.1, ihr parts.2.2]
    all_goals cases same
  | _ =>
    intro f same
    cases f <;> cases same
    rfl

/-- Relations with the same tree are the same. -/
lemma Relation.tree_injective : Function.Injective Relation.tree := by
  rintro ⟨left, operator, right⟩ ⟨left', operator', right'⟩ same
  have eq : Expression.relation left operator right = .relation left' operator' right' :=
    Expression.tree_injective same
  cases eq
  rfl

/-- Declarators with the same tree are the same. -/
lemma Declarator.tree_injective : Function.Injective Declarator.tree := by
  rintro ⟨name, value⟩ ⟨name', value'⟩ same
  have parts : name = name' ∧ value.tree = value'.tree := by simpa [Declarator.tree] using same
  rw [parts.1, Expression.tree_injective parts.2]

/-- Declarations with the same tree are the same. -/
lemma Declaration.tree_injective : Function.Injective Declaration.tree := by
  rintro ⟨kind, ds⟩ ⟨kind', ds'⟩ same
  have parts : kind = kind' ∧ ds.map Declarator.tree = ds'.map Declarator.tree := by
    simpa [Declaration.tree] using same
  rw [parts.1, (List.map_inj_right fun _ _ => @Declarator.tree_injective _ _).mp parts.2]

mutual

/-- Statements with the same tree are the same, since the node on top tells which statement it is. -/
lemma Statement.tree_inj : ∀ {s t : Statement}, s.tree = t.tree → s = t
  | .declaration d, t, same => by
    cases t
    case declaration d' => rw [Declaration.tree_injective same]
    case expression e => cases e <;> cases same
    all_goals cases same
  | .binding d, t, same => by
    cases t
    case binding d' => rw [Declarator.tree_injective same]
    case expression e => cases e <;> cases same
    all_goals cases same
  | .conditional test consequent alternate, t, same => by
    cases t
    case conditional test' consequent' alternate' =>
      have parts : test.tree = test'.tree ∧
          Statement.treeAll consequent = Statement.treeAll consequent' ∧
          Statement.treeAlternate alternate = Statement.treeAlternate alternate' := by
        simpa [Statement.tree] using same
      rw [Relation.tree_injective parts.1, Statement.treeAll_inj parts.2.1,
        Statement.treeAlternate_inj parts.2.2]
    case expression e => cases e <;> cases same
    all_goals cases same
  | .loop test body, t, same => by
    cases t
    case loop test' body' =>
      have parts : test.tree = test'.tree ∧ Statement.treeAll body = Statement.treeAll body' := by
        simpa [Statement.tree] using same
      rw [Relation.tree_injective parts.1, Statement.treeAll_inj parts.2]
    case expression e => cases e <;> cases same
    all_goals cases same
  | .block body, t, same => by
    cases t
    case block body' =>
      have parts : Statement.treeAll body = Statement.treeAll body' := by
        simpa [Statement.tree] using same
      rw [Statement.treeAll_inj parts]
    case expression e => cases e <;> cases same
    all_goals cases same
  | .expression e, t, same => by
    cases t
    case expression e' => rw [Expression.tree_injective same]
    all_goals cases e <;> cases same

/-- Lists of statements with the same trees are the same. -/
lemma Statement.treeAll_inj :
    ∀ {ss ts : List Statement}, Statement.treeAll ss = Statement.treeAll ts → ss = ts
  | [], [], _ => rfl
  | [], _ :: _, same => by cases same
  | _ :: _, [], same => by cases same
  | s :: ss, t :: ts, same => by
    rw [Statement.treeAll, Statement.treeAll, List.cons.injEq] at same
    rw [Statement.tree_inj same.1, Statement.treeAll_inj same.2]

/-- A missing second block and an empty one have different trees. -/
lemma Statement.treeAlternate_inj :
    ∀ {a b : Option (List Statement)}, Statement.treeAlternate a = Statement.treeAlternate b → a = b
  | none, none, _ => rfl
  | none, some _, same => by cases same
  | some _, none, same => by cases same
  | some ss, some ts, same => by
    have parts : Statement.treeAll ss = Statement.treeAll ts := by
      simpa [Statement.treeAlternate] using same
    rw [Statement.treeAll_inj parts]

end

/-- Programs with the same tree are the same. -/
lemma Program.tree_injective : Function.Injective Program.tree := by
  rintro ⟨ss⟩ ⟨ts⟩ same
  have parts : Statement.treeAll ss = Statement.treeAll ts := by simpa [Program.tree] using same
  rw [Statement.treeAll_inj parts]

end LatinToScript
