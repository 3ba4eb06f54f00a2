import LatinToScript.Program.Native
import Mathlib.Tactic.Common

/-!
# Relabelings by recursion on the tree

A walk with a relabeling follows the size of what its hooks give back. Here the same relabeling is
defined by recursion on the tree, and the two are shown to be equal (`Program.relabel_eq`).
-/

namespace LatinToScript

variable (r : Relabeling)

/-! ## The recursive form -/

/-- An expression with every node relabeled. -/
def Expression.relabel (parent : NodeKind) : Expression → Expression
  | .name n => .name (r.name parent n)
  | .number value => .number (r.number parent value)
  | .text t => .text (r.text parent t)
  | .boolean value => .boolean (r.boolean parent value)
  | .null value => .null (r.null parent value)
  | .relation left operator right =>
    .relation (left.relabel .relation) (r.operator parent operator) (right.relabel .relation)

/-- A relation with every node relabeled. -/
def Relation.relabel (parent : NodeKind) (x : Relation) : Relation :=
  ⟨x.left.relabel r .relation, r.operator parent x.operator, x.right.relabel r .relation⟩

/-- A declarator with every node relabeled. -/
def Declarator.relabel (d : Declarator) : Declarator :=
  ⟨r.name .declarator d.name, d.value.relabel r .declarator⟩

/-- A declaration with every node relabeled. -/
def Declaration.relabel (parent : NodeKind) (d : Declaration) : Declaration :=
  ⟨r.declarationKind parent d.kind, d.declarators.map (Declarator.relabel r)⟩

mutual

/-- A statement with every node relabeled. -/
def Statement.relabel (parent : NodeKind) : Statement → Statement
  | .declaration d => .declaration (d.relabel r parent)
  | .binding d => .binding (d.relabel r)
  | .conditional test consequent alternate =>
    .conditional (test.relabel r .conditional) (Statement.relabelAll .block consequent)
      (Statement.relabelAlternate alternate)
  | .loop test body => .loop (test.relabel r .loop) (Statement.relabelAll .block body)
  | .block body => .block (Statement.relabelAll .block body)
  | .expression e => .expression (e.relabel r parent)

/-- Statements with every node relabeled. -/
def Statement.relabelAll (parent : NodeKind) : List Statement → List Statement
  | [] => []
  | s :: ss => s.relabel parent :: Statement.relabelAll parent ss

/-- The second block of a choice with every node relabeled. -/
def Statement.relabelAlternate : Option (List Statement) → Option (List Statement)
  | none => none
  | some body => some (Statement.relabelAll .block body)

end

/-! ## Walks do the same -/

variable {r}

/-- A walk through an expression relabels it. -/
lemma Expression.walk_visitor (parent : NodeKind) (e : Expression) :
    Id.run (e.walk r.visitor parent) = e.relabel r parent := by
  induction e generalizing parent with
  | name n => rw [Expression.walk]; rfl
  | number value => rw [Expression.walk]; rfl
  | text t => rw [Expression.walk]; rfl
  | boolean value => rw [Expression.walk]; rfl
  | null value => rw [Expression.walk]; rfl
  | relation left operator right ihl ihr =>
    rw [Expression.walk, Relation.walk, Expression.relabel, ← ihl, ← ihr]
    rfl

/-- A walk through a relation relabels it. -/
lemma Relation.walk_visitor (parent : NodeKind) (x : Relation) :
    Id.run (x.walk r.visitor parent) = x.relabel r parent := by
  rw [Relation.walk, Relation.relabel, ← Expression.walk_visitor, ← Expression.walk_visitor]
  rfl

/-- A walk through a declarator relabels it, whatever its parent is. -/
lemma Declarator.walk_visitor (parent : NodeKind) (d : Declarator) :
    Id.run (d.walk r.visitor parent) = d.relabel r := by
  rw [Declarator.walk, Declarator.relabel, ← Expression.walk_visitor]
  rfl

/-- A walk through a declaration relabels it. -/
lemma Declaration.walk_visitor (parent : NodeKind) (d : Declaration) :
    Id.run (d.walk r.visitor parent) = d.relabel r parent := by
  -- The walk goes through the declarators in the monad, the relabeling maps over them.
  have eq : Id.run (d.declarators.mapM (Declarator.walk r.visitor .declaration)) =
      d.declarators.map (Declarator.relabel r) := by
    rw [List.idRun_mapM]
    exact List.map_congr_left fun x _ => Declarator.walk_visitor .declaration x
  rw [Declaration.walk, Declaration.relabel, ← eq]
  rfl

/-- A relabeling leaves blocks as they are and goes on with their statements. -/
lemma Statement.walkBlock_visitor (parent : NodeKind) (body : List Statement) :
    Statement.walkBlock r.visitor parent body = Statement.walkAll r.visitor .block body := by
  rw [Statement.walkBlock]
  rfl

mutual

/-- A walk through a statement relabels it. -/
lemma Statement.walk_visitor (parent : NodeKind) (s : Statement) :
    Id.run (s.walk r.visitor parent) = s.relabel r parent := by
  cases s with
  | declaration d =>
    rw [Statement.walk, Statement.relabel, ← Declaration.walk_visitor]
    rfl
  | binding d =>
    rw [Statement.walk, Statement.relabel, ← Declarator.walk_visitor parent]
    rfl
  | conditional test consequent alternate =>
    rw [Statement.walk, Statement.relabel, ← Relation.walk_visitor, ← Statement.walkAll_visitor,
      ← Statement.walkAlternate_visitor .conditional, ← Statement.walkBlock_visitor .conditional]
    rfl
  | loop test body =>
    rw [Statement.walk, Statement.relabel, ← Relation.walk_visitor, ← Statement.walkAll_visitor,
      ← Statement.walkBlock_visitor .loop]
    rfl
  | block body =>
    rw [Statement.walk, Statement.relabel, ← Statement.walkAll_visitor,
      ← Statement.walkBlock_visitor parent]
    rfl
  | expression e =>
    rw [Statement.walk, Statement.relabel, ← Expression.walk_visitor]
    rfl

/-- A walk through statements relabels them one after the other. -/
lemma Statement.walkAll_visitor (parent : NodeKind) (ss : List Statement) :
    Id.run (Statement.walkAll r.visitor parent ss) = Statement.relabelAll r parent ss := by
  cases ss with
  | nil => rw [Statement.walkAll]; rfl
  | cons s ss =>
    rw [Statement.walkAll, Statement.relabelAll, ← Statement.walk_visitor,
      ← Statement.walkAll_visitor]
    rfl

/-- A walk through the second block of a choice relabels it, if there is one. -/
lemma Statement.walkAlternate_visitor (parent : NodeKind) (alternate : Option (List Statement)) :
    Id.run (Statement.walkAlternate r.visitor parent alternate) =
      Statement.relabelAlternate r alternate := by
  cases alternate with
  | none => rw [Statement.walkAlternate]; rfl
  | some body =>
    rw [Statement.walkAlternate, Statement.relabelAlternate, ← Statement.walkAll_visitor,
      ← Statement.walkBlock_visitor parent]
    rfl

end

/-- A relabeled program is the relabeling of its statements. -/
lemma Program.relabel_eq (p : Program) :
    p.relabel r = ⟨Statement.relabelAll r .program p.body⟩ := by
  rw [← Statement.walkAll_visitor]
  rfl

end LatinToScript
