import LatinToScript.Program.Basic

/-!
# The size of a program

The number of nodes of a tree. The statements inside a program, a block or a control statement are
nodes themselves; a block is one more node than its statements.
-/

namespace LatinToScript

/-- The number of nodes of an expression. -/
def Expression.size : Expression → Nat
  | .relation left _ right => left.size + right.size + 1
  | _ => 1

/-- The number of nodes of a relation. -/
def Relation.size (relation : Relation) : Nat :=
  relation.left.size + relation.right.size + 1

/-- The number of nodes of a declarator, its name being one. -/
def Declarator.size (declarator : Declarator) : Nat :=
  declarator.value.size + 2

/-- The number of nodes of a declaration. -/
def Declaration.size (declaration : Declaration) : Nat :=
  declaration.declarators.foldr (fun d n => d.size + n) 0 + 1

mutual

/-- The number of nodes of a statement. -/
def Statement.size : Statement → Nat
  | .declaration d => d.size
  | .binding d => d.size
  | .conditional test consequent alternate =>
    test.size + (Statement.sizeAll consequent + 1) + Statement.sizeOptional alternate + 1
  | .loop test body => test.size + (Statement.sizeAll body + 1) + 1
  | .block body => Statement.sizeAll body + 1
  | .expression e => e.size

/-- The number of nodes of some statements. -/
def Statement.sizeAll : List Statement → Nat
  | [] => 0
  | s :: ss => s.size + Statement.sizeAll ss

/-- The number of nodes of a block that may be missing. -/
def Statement.sizeOptional : Option (List Statement) → Nat
  | none => 0
  | some body => Statement.sizeAll body + 1

end

/-- The number of nodes of a choice. -/
def Conditional.size (conditional : Conditional) : Nat :=
  conditional.test.size + (Statement.sizeAll conditional.consequent + 1)
    + Statement.sizeOptional conditional.alternate + 1

/-- The number of nodes of a loop. -/
def Loop.size (loop : Loop) : Nat :=
  loop.test.size + (Statement.sizeAll loop.body + 1) + 1

/-- The number of nodes of a program. -/
def Program.size (program : Program) : Nat :=
  Statement.sizeAll program.body + 1

/-- Every expression has a node. -/
theorem Expression.size_pos (e : Expression) : 0 < e.size := by
  cases e <;> simp [Expression.size]

/-- Every statement has a node. -/
theorem Statement.size_pos (s : Statement) : 0 < s.size := by
  cases s with
  | declaration d => simp [Statement.size, Declaration.size]
  | binding d => simp [Statement.size, Declarator.size]
  | conditional test consequent alternate => simp [Statement.size]
  | loop test body => simp [Statement.size]
  | block body => simp [Statement.size]
  | expression e => simpa [Statement.size] using e.size_pos

/-- Leaving statements out makes no block larger. -/
theorem Statement.sizeAll_le_of_sublist {ss ts : List Statement} (sub : List.Sublist ss ts) :
    Statement.sizeAll ss ≤ Statement.sizeAll ts := by
  induction sub with
  | slnil => exact Nat.le_refl _
  | cons t _ ih =>
    rw [Statement.sizeAll]
    omega
  | cons_cons t _ ih =>
    rw [Statement.sizeAll, Statement.sizeAll]
    omega

/-- Leaving declarators out makes no declaration larger. -/
theorem Declaration.size_le_of_sublist {kind kind' : DeclarationKind} {ds es : List Declarator}
    (sub : List.Sublist ds es) :
    (Declaration.mk kind ds).size ≤ (Declaration.mk kind' es).size := by
  simp only [Declaration.size]
  induction sub with
  | slnil => exact Nat.le_refl _
  | cons d _ ih =>
    rw [List.foldr_cons]
    omega
  | cons_cons d _ ih =>
    rw [List.foldr_cons, List.foldr_cons]
    omega

end LatinToScript
