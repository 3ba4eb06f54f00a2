import LatinToScript.Program.Size

/-!
# Walking through a program

A visitor has one hook for each kind of node. A walk enters the nodes of a program in pre-order,
runs the hook of each, and goes on with the children of the node that the hook gives back. A hook
may exchange its node for any other one that is not larger, so every walk ends. Statements are no
nodes of their own: what a statement consists of has the parent of the statement.
-/

namespace LatinToScript

/-- The kinds of nodes. -/
inductive NodeKind where
  | program
  | declaration
  | declarator
  | name
  | number
  | text
  | boolean
  | null
  | relation
  | block
  | conditional
  | loop
deriving DecidableEq, Repr

/-- The things of a type that are not larger than a given one. -/
abbrev NoLarger {α : Type} (size : α → Nat) (a : α) :=
  { b : α // size b ≤ size a }

/-- A hook for each kind of node; all but the one for the whole program are told the kind of the
parent. -/
structure Visitor (m : Type → Type) where
  program : (p : Program) → m (NoLarger Program.size p)
  declaration : NodeKind → (d : Declaration) → m (NoLarger Declaration.size d)
  declarator : NodeKind → (d : Declarator) → m (NoLarger Declarator.size d)
  name : NodeKind → String → m String
  number : NodeKind → Int → m Int
  text : NodeKind → String → m String
  boolean : NodeKind → BooleanValue → m BooleanValue
  null : NodeKind → NullValue → m NullValue
  relation : NodeKind → (r : Relation) → m (NoLarger Relation.size r)
  block : NodeKind → (body : List Statement) → m (NoLarger Statement.sizeAll body)
  conditional : NodeKind → (c : Conditional) → m (NoLarger Conditional.size c)
  loop : NodeKind → (l : Loop) → m (NoLarger Loop.size l)

variable {m : Type → Type} [Monad m]

/-- The visitor that leaves every node as it is. -/
def Visitor.idle : Visitor m where
  program p := pure ⟨p, Nat.le_refl _⟩
  declaration _ d := pure ⟨d, Nat.le_refl _⟩
  declarator _ d := pure ⟨d, Nat.le_refl _⟩
  name _ n := pure n
  number _ n := pure n
  text _ t := pure t
  boolean _ b := pure b
  null _ n := pure n
  relation _ r := pure ⟨r, Nat.le_refl _⟩
  block _ body := pure ⟨body, Nat.le_refl _⟩
  conditional _ c := pure ⟨c, Nat.le_refl _⟩
  loop _ l := pure ⟨l, Nat.le_refl _⟩

mutual

/-- Walks through an expression. -/
def Expression.walk (v : Visitor m) (parent : NodeKind) (e : Expression) : m Expression :=
  match e with
  | .name n => do return .name (← v.name parent n)
  | .number n => do return .number (← v.number parent n)
  | .text t => do return .text (← v.text parent t)
  | .boolean b => do return .boolean (← v.boolean parent b)
  | .null n => do return .null (← v.null parent n)
  | .relation left operator right => do
    let relation ← Relation.walk v parent ⟨left, operator, right⟩
    return relation.toExpression
termination_by 2 * e.size + 1
decreasing_by
  simp only [Expression.size, Relation.size]
  omega

/-- Walks through a relation: its left operand, then its right one. -/
def Relation.walk (v : Visitor m) (parent : NodeKind) (r : Relation) : m Relation := do
  let ⟨r', _⟩ ← v.relation parent r
  let left ← Expression.walk v .relation r'.left
  let right ← Expression.walk v .relation r'.right
  return ⟨left, r'.operator, right⟩
termination_by 2 * r.size
decreasing_by
  all_goals
    simp only [Relation.size] at *
    omega

end

/-- Walks through a declarator: its name, then its value. -/
def Declarator.walk (v : Visitor m) (parent : NodeKind) (d : Declarator) : m Declarator := do
  let ⟨d', _⟩ ← v.declarator parent d
  let name ← v.name .declarator d'.name
  let value ← d'.value.walk v .declarator
  return ⟨name, value⟩

/-- Walks through a declaration. -/
def Declaration.walk (v : Visitor m) (parent : NodeKind) (d : Declaration) : m Declaration := do
  let ⟨d', _⟩ ← v.declaration parent d
  let declarators ← d'.declarators.mapM (Declarator.walk v .declaration)
  return ⟨d'.kind, declarators⟩

mutual

/-- Walks through a statement. -/
def Statement.walk (v : Visitor m) (parent : NodeKind) (s : Statement) : m Statement :=
  match s with
  | .declaration d => do return .declaration (← d.walk v parent)
  | .binding d => do return .binding (← d.walk v parent)
  | .conditional test consequent alternate => do
    let ⟨c, _⟩ ← v.conditional parent ⟨test, consequent, alternate⟩
    let test ← c.test.walk v .conditional
    let consequent ← Statement.walkBlock v .conditional c.consequent
    let alternate ← Statement.walkAlternate v .conditional c.alternate
    return .conditional test consequent alternate
  | .loop test body => do
    let ⟨l, _⟩ ← v.loop parent ⟨test, body⟩
    let test ← l.test.walk v .loop
    let body ← Statement.walkBlock v .loop l.body
    return .loop test body
  | .block body => do return .block (← Statement.walkBlock v parent body)
  | .expression e => do return .expression (← e.walk v parent)
termination_by 3 * s.size
decreasing_by
  all_goals
    simp only [Statement.size, Conditional.size, Loop.size] at *
    omega

/-- Walks through a block. -/
def Statement.walkBlock (v : Visitor m) (parent : NodeKind) (body : List Statement) :
    m (List Statement) := do
  let ⟨body', _⟩ ← v.block parent body
  Statement.walkAll v .block body'
termination_by 3 * Statement.sizeAll body + 2
decreasing_by omega

/-- Walks through the second block of a choice, if there is one. -/
def Statement.walkAlternate (v : Visitor m) (parent : NodeKind)
    (alternate : Option (List Statement)) : m (Option (List Statement)) :=
  match alternate with
  | none => return none
  | some body => do return some (← Statement.walkBlock v parent body)
termination_by 3 * Statement.sizeOptional alternate
decreasing_by
  simp only [Statement.sizeOptional]
  omega

/-- Walks through some statements, one after the other. -/
def Statement.walkAll (v : Visitor m) (parent : NodeKind) (ss : List Statement) :
    m (List Statement) :=
  match ss with
  | [] => return []
  | s :: ss => do
    let s ← Statement.walk v parent s
    let ss ← Statement.walkAll v parent ss
    return s :: ss
termination_by 3 * Statement.sizeAll ss + 1
decreasing_by
  all_goals
    have := s.size_pos
    simp only [Statement.sizeAll]
    omega

end

/-- Walks through a program. -/
def Program.walk (v : Visitor m) (p : Program) : m Program := do
  let ⟨p', _⟩ ← v.program p
  return ⟨← Statement.walkAll v .program p'.body⟩

end LatinToScript
