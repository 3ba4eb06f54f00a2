import LatinToScript.Proofs.Relabeling

/-!
# Walks one after the other

Two walks that relabel a program are one walk that runs both hooks at each node, and they may change places when
the hooks may (`Program.walk_andThen`). The second walk meets nodes that the first has changed already. It still
gives them the same parents, since no hook has touched the shape of the tree (`Program.relabel_relabel`).
-/

namespace LatinToScript

/-! ## Hooks one after the other -/

section

variable {m : Type → Type} [Monad m]

/-- Runs a hook, and then another one on what the first gives back. -/
def hookAndThen {α : Type} {size : α → Nat} (first second : (a : α) → m (NoLarger size a)) (a : α) :
    m (NoLarger size a) := do
  let ⟨b, small⟩ ← first a
  let ⟨c, smaller⟩ ← second b
  return ⟨c, Nat.le_trans smaller small⟩

/-- The visitor that runs the hook of one visitor and then that of another at each node. -/
def Visitor.andThen (v w : Visitor m) : Visitor m where
  program := hookAndThen v.program w.program
  declaration parent := hookAndThen (v.declaration parent) (w.declaration parent)
  declarator parent := hookAndThen (v.declarator parent) (w.declarator parent)
  name parent n := do w.name parent (← v.name parent n)
  number parent value := do w.number parent (← v.number parent value)
  text parent t := do w.text parent (← v.text parent t)
  boolean parent value := do w.boolean parent (← v.boolean parent value)
  null parent value := do w.null parent (← v.null parent value)
  relation parent := hookAndThen (v.relation parent) (w.relation parent)
  block parent := hookAndThen (v.block parent) (w.block parent)
  conditional parent := hookAndThen (v.conditional parent) (w.conditional parent)
  loop parent := hookAndThen (v.loop parent) (w.loop parent)

end

/-! ## Relabelings one after the other -/

namespace Relabeling

/-- The relabeling that does what one relabeling does and then what another does. -/
def andThen (v w : Relabeling) : Relabeling where
  declarationKind parent kind := w.declarationKind parent (v.declarationKind parent kind)
  name parent n := w.name parent (v.name parent n)
  number parent value := w.number parent (v.number parent value)
  text parent t := w.text parent (v.text parent t)
  boolean parent value := w.boolean parent (v.boolean parent value)
  null parent value := w.null parent (v.null parent value)
  operator parent word := w.operator parent (v.operator parent word)

/-- Which of the two relabelings comes first makes no difference to anything that a node can hold. -/
structure Commutes (v w : Relabeling) : Prop where
  declarationKind : ∀ parent kind,
    w.declarationKind parent (v.declarationKind parent kind) =
      v.declarationKind parent (w.declarationKind parent kind)
  name : ∀ parent n, w.name parent (v.name parent n) = v.name parent (w.name parent n)
  number : ∀ parent value, w.number parent (v.number parent value) = v.number parent (w.number parent value)
  text : ∀ parent t, w.text parent (v.text parent t) = v.text parent (w.text parent t)
  boolean : ∀ parent value, w.boolean parent (v.boolean parent value) = v.boolean parent (w.boolean parent value)
  null : ∀ parent value, w.null parent (v.null parent value) = v.null parent (w.null parent value)
  operator : ∀ parent word, w.operator parent (v.operator parent word) = v.operator parent (w.operator parent word)

/-- The relabeling leaves all nodes of a kind as they are. -/
def Leaves (r : Relabeling) : NodeKind → Prop
  | .declaration => ∀ parent kind, r.declarationKind parent kind = kind
  | .name => ∀ parent n, r.name parent n = n
  | .number => ∀ parent value, r.number parent value = value
  | .text => ∀ parent t, r.text parent t = t
  | .boolean => ∀ parent value, r.boolean parent value = value
  | .null => ∀ parent value, r.null parent value = value
  | .relation => ∀ parent word, r.operator parent word = word
  | _ => True

/-- What one of two functions leaves as it is they do in either order. -/
lemma commutes_of_leaves {α : Type} {f g : NodeKind → α → α}
    (leaves : (∀ parent a, f parent a = a) ∨ ∀ parent a, g parent a = a) (parent : NodeKind) (a : α) :
    g parent (f parent a) = f parent (g parent a) := by
  rcases leaves with same | same
  · rw [same, same]
  · rw [same, same]

variable {v w : Relabeling}

/-- Relabelings that change nodes of different kinds commute. -/
lemma Commutes.of_leaves (leaves : ∀ kind, v.Leaves kind ∨ w.Leaves kind) : v.Commutes w where
  declarationKind := commutes_of_leaves (leaves .declaration)
  name := commutes_of_leaves (leaves .name)
  number := commutes_of_leaves (leaves .number)
  text := commutes_of_leaves (leaves .text)
  boolean := commutes_of_leaves (leaves .boolean)
  null := commutes_of_leaves (leaves .null)
  operator := commutes_of_leaves (leaves .relation)

/-- Relabelings that commute give the same one in either order. -/
lemma Commutes.andThen_eq (commutes : v.Commutes w) : v.andThen w = w.andThen v := by
  simp only [andThen, commutes.declarationKind, commutes.name, commutes.number, commutes.text, commutes.boolean,
    commutes.null, commutes.operator]

/-- The visitor that runs both hooks is that of both relabelings. -/
lemma visitor_andThen (v w : Relabeling) : v.visitor.andThen w.visitor = (v.andThen w).visitor :=
  rfl

end Relabeling

/-! ## Trees relabeled twice -/

variable {v w : Relabeling}

/-- An expression that is relabeled twice is relabeled by both at once. -/
lemma Expression.relabel_relabel (parent : NodeKind) (e : Expression) :
    (e.relabel v parent).relabel w parent = e.relabel (v.andThen w) parent := by
  induction e generalizing parent with
  | relation left operator right ihl ihr =>
    rw [Expression.relabel, Expression.relabel, Expression.relabel, ihl, ihr]
    rfl
  | _ => rfl

/-- A relation that is relabeled twice is relabeled by both at once. -/
lemma Relation.relabel_relabel (parent : NodeKind) (x : Relation) :
    (x.relabel v parent).relabel w parent = x.relabel (v.andThen w) parent := by
  rw [Relation.relabel, Relation.relabel, Relation.relabel, Expression.relabel_relabel,
    Expression.relabel_relabel]
  rfl

/-- A declarator that is relabeled twice is relabeled by both at once. -/
lemma Declarator.relabel_relabel (d : Declarator) :
    (d.relabel v).relabel w = d.relabel (v.andThen w) := by
  rw [Declarator.relabel, Declarator.relabel, Declarator.relabel, Expression.relabel_relabel]
  rfl

/-- A declaration that is relabeled twice is relabeled by both at once. -/
lemma Declaration.relabel_relabel (parent : NodeKind) (d : Declaration) :
    (d.relabel v parent).relabel w parent = d.relabel (v.andThen w) parent := by
  have each : Declarator.relabel w ∘ Declarator.relabel v = Declarator.relabel (v.andThen w) :=
    funext Declarator.relabel_relabel
  rw [Declaration.relabel, Declaration.relabel, Declaration.relabel, List.map_map, each]
  rfl

mutual

/-- A statement that is relabeled twice is relabeled by both at once, as its blocks keep their parents. -/
lemma Statement.relabel_relabel (parent : NodeKind) :
    ∀ s : Statement, (s.relabel v parent).relabel w parent = s.relabel (v.andThen w) parent
  | .declaration d => congrArg Statement.declaration (d.relabel_relabel parent)
  | .binding d => congrArg Statement.binding d.relabel_relabel
  | .conditional test consequent alternate => by
    rw [Statement.relabel, Statement.relabel, Statement.relabel, Relation.relabel_relabel,
      Statement.relabelAll_relabelAll, Statement.relabelAlternate_relabelAlternate]
  | .loop test body => by
    rw [Statement.relabel, Statement.relabel, Statement.relabel, Relation.relabel_relabel,
      Statement.relabelAll_relabelAll]
  | .block body => congrArg Statement.block (Statement.relabelAll_relabelAll .block body)
  | .expression e => congrArg Statement.expression (e.relabel_relabel parent)

/-- Statements that are relabeled twice are relabeled by both at once. -/
lemma Statement.relabelAll_relabelAll (parent : NodeKind) :
    ∀ ss : List Statement, Statement.relabelAll w parent (Statement.relabelAll v parent ss) =
      Statement.relabelAll (v.andThen w) parent ss
  | [] => rfl
  | s :: ss => by
    rw [Statement.relabelAll, Statement.relabelAll, Statement.relabelAll, Statement.relabel_relabel,
      Statement.relabelAll_relabelAll]

/-- The second block of a choice is relabeled by both at once, and it stays missing if it is. -/
lemma Statement.relabelAlternate_relabelAlternate :
    ∀ alternate : Option (List Statement),
      Statement.relabelAlternate w (Statement.relabelAlternate v alternate) =
        Statement.relabelAlternate (v.andThen w) alternate
  | none => rfl
  | some body => congrArg some (Statement.relabelAll_relabelAll .block body)

end

/-- A program relabeled twice is relabeled once by both relabelings. -/
lemma Program.relabel_relabel (p : Program) : (p.relabel v).relabel w = p.relabel (v.andThen w) := by
  rw [Program.relabel_eq, Program.relabel_eq, Program.relabel_eq, Statement.relabelAll_relabelAll]

/-- Two walks with relabelings are one walk that runs both hooks at each node. They may change places if the
relabelings commute on everything that a node can hold, as those do that change nodes of different kinds. -/
theorem Program.walk_andThen (v w : Relabeling) (p : Program) :
    Id.run ((Id.run (p.walk v.visitor)).walk w.visitor) = Id.run (p.walk (v.visitor.andThen w.visitor)) ∧
    (v.Commutes w →
      Id.run ((Id.run (p.walk v.visitor)).walk w.visitor) =
        Id.run ((Id.run (p.walk w.visitor)).walk v.visitor)) ∧
    ((∀ kind, v.Leaves kind ∨ w.Leaves kind) → v.Commutes w) := by
  refine ⟨?_, ?_, Relabeling.Commutes.of_leaves⟩
  · rw [Relabeling.visitor_andThen]
    exact Program.relabel_relabel p
  · intro commutes
    change (p.relabel v).relabel w = (p.relabel w).relabel v
    rw [Program.relabel_relabel, Program.relabel_relabel, commutes.andThen_eq]

/-- The relabeling that doubles every number. -/
def doubling : Relabeling where
  number _ value := 2 * value

/-- The relabeling that puts a mark behind every text in a declarator. -/
def exclaiming : Relabeling where
  text parent t := if parent = .declarator then t ++ "!" else t

/-- A declared number, and a loop with a text in a declarator and another one by itself. -/
def greeting : Program :=
  ⟨[.declaration ⟨.latin .dico, [⟨"a", .number 21⟩]⟩,
    .loop ⟨.name "a", "maior", .number 2⟩ [.binding ⟨"b", .text "ave"⟩, .expression (.text "vale")]]⟩

/-- Numbers are doubled and texts marked in one walk or in two, in either order. -/
theorem Program.walk_andThen_greeting :
    doubling.Commutes exclaiming ∧
    Id.run ((Id.run (greeting.walk doubling.visitor)).walk exclaiming.visitor) =
      ⟨[.declaration ⟨.latin .dico, [⟨"a", .number 42⟩]⟩,
        .loop ⟨.name "a", "maior", .number 4⟩
          [.binding ⟨"b", .text "ave!"⟩, .expression (.text "vale")]]⟩ ∧
    Id.run ((Id.run (greeting.walk doubling.visitor)).walk exclaiming.visitor) =
      Id.run ((Id.run (greeting.walk exclaiming.visitor)).walk doubling.visitor) := by
  obtain ⟨fused, swap, apart⟩ := Program.walk_andThen doubling exclaiming greeting
  have commutes : doubling.Commutes exclaiming := by
    apply apart
    intro kind
    cases kind
    case number => exact .inr fun _ _ => rfl
    all_goals first | exact .inl fun _ _ => rfl | exact .inl trivial
  refine ⟨commutes, ?_, swap commutes⟩
  rw [fused, Relabeling.visitor_andThen]
  change greeting.relabel (doubling.andThen exclaiming) = _
  rw [Program.relabel_eq]
  rfl

end LatinToScript
