import LatinToScript.Proofs.Program.Tree

/-!
# Walks visit the nodes in pre-order

`Visitor.recording` adds to a visitor with a state a list of the nodes at which its hooks run, each with its
parent. As long as the hooks leave the shape of their nodes alone, a walk runs the hook of every node once,
in pre-order and with the right parent, whatever the hooks do to what the nodes hold and to the state
(`Program.walk_preorder`).

`Records` carries this through the walks: the recording run does what the plain one does, and adds just the
visits of the tree that it walks through.
-/

namespace LatinToScript

/-- A hook that runs: the kind of its node and that of the parent. Only the program has no parent. -/
structure Visit where
  kind : NodeKind
  parent : Option NodeKind
deriving DecidableEq, Repr

namespace NodeTree

mutual

/-- The nodes of a tree in pre-order, each with its parent. -/
def visits (parent : Option NodeKind) : NodeTree NodeKind → List Visit
  | .node kind ts => ⟨kind, parent⟩ :: visitsAll kind ts

/-- The nodes of the trees below a node. -/
def visitsAll (parent : NodeKind) : List (NodeTree NodeKind) → List Visit
  | [] => []
  | t :: ts => t.visits (some parent) ++ visitsAll parent ts

end

end NodeTree

/-! ## Recording visits -/

section

variable {σ α β : Type}

/-- Puts a visit down before something is done in a state. -/
def noting (visit : Visit) (x : StateM σ α) : StateM (List Visit × σ) α := do
  let (log, s) ← get
  let (a, s) := x.run s
  set (log ++ [visit], s)
  return a

/-- A visitor that puts down at which node it is before it runs a hook. -/
def Visitor.recording (v : Visitor (StateM σ)) : Visitor (StateM (List Visit × σ)) where
  program p := noting ⟨.program, none⟩ (v.program p)
  declaration parent d := noting ⟨.declaration, some parent⟩ (v.declaration parent d)
  declarator parent d := noting ⟨.declarator, some parent⟩ (v.declarator parent d)
  name parent n := noting ⟨.name, some parent⟩ (v.name parent n)
  number parent value := noting ⟨.number, some parent⟩ (v.number parent value)
  text parent t := noting ⟨.text, some parent⟩ (v.text parent t)
  boolean parent value := noting ⟨.boolean, some parent⟩ (v.boolean parent value)
  null parent value := noting ⟨.null, some parent⟩ (v.null parent value)
  relation parent x := noting ⟨.relation, some parent⟩ (v.relation parent x)
  block parent body := noting ⟨.block, some parent⟩ (v.block parent body)
  conditional parent c := noting ⟨.conditional, some parent⟩ (v.conditional parent c)
  loop parent l := noting ⟨.loop, some parent⟩ (v.loop parent l)

/-- The first computation does what the second one does and puts the visits down. What they give back has a
property. -/
def Records (x : StateM (List Visit × σ) α) (y : StateM σ α) (visits : List Visit) (P : α → Prop) : Prop :=
  ∀ log s, x.run (log, s) = ((y.run s).1, (log ++ visits, (y.run s).2)) ∧ P (y.run s).1

namespace Records

/-- A hook records its own visit. -/
lemma hook {visit : Visit} {x : StateM σ α} {P : α → Prop} (keeps : ∀ s, P (x.run s).1) :
    Records (noting visit x) x [visit] P :=
  fun _ s => ⟨rfl, keeps s⟩

/-- A weaker statement about the result holds as well. -/
lemma mono {x : StateM (List Visit × σ) α} {y : StateM σ α} {visits : List Visit} {P Q : α → Prop}
    (records : Records x y visits P) (weaker : ∀ a, P a → Q a) : Records x y visits Q :=
  fun log s => ⟨(records log s).1, weaker _ (records log s).2⟩

/-- What runs no hook records nothing. -/
lemma pure {a : α} {P : α → Prop} (keeps : P a) :
    Records (Pure.pure a) (Pure.pure a : StateM σ α) [] P := by
  intro log s
  rw [List.append_nil]
  exact ⟨rfl, keeps⟩

/-- The visits of the second part come behind those of the first one. -/
lemma bind {x : StateM (List Visit × σ) α} {y : StateM σ α} {f : α → StateM (List Visit × σ) β}
    {g : α → StateM σ β} {first second : List Visit} {P : α → Prop} {Q : β → Prop}
    (records : Records x y first P) (next : ∀ a, P a → Records (f a) (g a) second Q) :
    Records (x >>= f) (y >>= g) (first ++ second) Q := by
  intro log s
  obtain ⟨run, keeps⟩ := records log s
  obtain ⟨run', keeps'⟩ := next _ keeps (log ++ first) (y.run s).2
  rw [List.append_assoc] at run'
  refine ⟨?_, keeps'⟩
  rw [StateT.run_bind, run]
  exact run'

/-- Something may be made of what is given back in the end. -/
lemma map {x : StateM (List Visit × σ) α} {y : StateM σ α} {visits : List Visit} {P : α → Prop}
    {Q : β → Prop} (records : Records x y visits P) (f : α → β) (next : ∀ a, P a → Q (f a)) :
    Records (x >>= fun a => Pure.pure (f a)) (y >>= fun a => Pure.pure (f a)) visits Q := by
  rw [← List.append_nil visits]
  exact records.bind fun a keeps => .pure (next a keeps)

/-- The hook of a node without children. -/
lemma leaf {visit : Visit} {x : StateM σ α} {Q : β → Prop} (f : α → β) (keeps : ∀ a, Q (f a)) :
    Records (noting visit x >>= fun a => Pure.pure (f a)) (x >>= fun a => Pure.pure (f a))
      [visit] Q :=
  .map (.hook (P := fun _ => True) fun _ => trivial) f fun a _ => keeps a

/-- A hook that leaves the shape of its node alone, and then what goes on below the node it gives back. -/
lemma enter {kind : NodeKind} {parent : Option NodeKind} {x : StateM σ α}
    {f : α → StateM (List Visit × σ) β} {g : α → StateM σ β} {shape : NodeTree NodeKind}
    {shapeOf' : β → NodeTree NodeKind} (shapeOf : α → NodeTree NodeKind) (root : shape.value = kind)
    (keeps : ∀ s, shapeOf (x.run s).1 = shape)
    (next : ∀ a, Records (f a) (g a) (NodeTree.visitsAll kind (shapeOf a).children)
      fun b => shapeOf' b = shapeOf a) :
    Records (noting ⟨kind, parent⟩ x >>= f) (x >>= g) (shape.visits parent)
      fun b => shapeOf' b = shape := by
  have visits : shape.visits parent = [⟨kind, parent⟩] ++ NodeTree.visitsAll kind shape.children := by
    cases shape
    cases root
    rfl
  rw [visits]
  refine .bind (.hook (P := fun a => shapeOf a = shape) keeps) ?_
  intro a same
  rw [← same]
  exact next a

end Records

/-! ## Hooks that leave the shape alone -/

/-- Whatever the state, every hook gives back a node of the shape of the one it got. Names and literals have
no children, so their hooks always do. -/
structure Visitor.KeepsShape (v : Visitor (StateM σ)) : Prop where
  program : ∀ p s, ((v.program p).run s).1.val.tree.shape = p.tree.shape
  declaration : ∀ parent d s, ((v.declaration parent d).run s).1.val.tree.shape = d.tree.shape
  declarator : ∀ parent d s, ((v.declarator parent d).run s).1.val.tree.shape = d.tree.shape
  relation : ∀ parent x s, ((v.relation parent x).run s).1.val.tree.shape = x.tree.shape
  block : ∀ parent body s,
    (Statement.block ((v.block parent body).run s).1.val).tree.shape = (Statement.block body).tree.shape
  conditional : ∀ parent c s, ((v.conditional parent c).run s).1.val.tree.shape = c.tree.shape
  loop : ∀ parent l s, ((v.loop parent l).run s).1.val.tree.shape = l.tree.shape

end

/-! ## Walks

A walk goes on with what a hook gives back, which need not be a part of what the hook got. So the recursion
here is that of the walks, on the size. -/

section

variable {σ : Type} {v : Visitor (StateM σ)}

mutual

/-- A walk records the nodes of an expression. -/
lemma Expression.walk_records (keeps : v.KeepsShape) (parent : NodeKind) (e : Expression) :
    Records (e.walk v.recording parent) (e.walk v parent) (e.tree.shape.visits (some parent))
      fun e' => e'.tree.shape = e.tree.shape := by
  cases e with
  | name n =>
    rw [Expression.walk, Expression.walk]
    exact .leaf Expression.name fun _ => rfl
  | number n =>
    rw [Expression.walk, Expression.walk]
    exact .leaf Expression.number fun _ => rfl
  | text t =>
    rw [Expression.walk, Expression.walk]
    exact .leaf Expression.text fun _ => rfl
  | boolean b =>
    rw [Expression.walk, Expression.walk]
    exact .leaf Expression.boolean fun _ => rfl
  | null n =>
    rw [Expression.walk, Expression.walk]
    exact .leaf Expression.null fun _ => rfl
  | relation left operator right =>
    rw [Expression.walk, Expression.walk]
    have records := Relation.walk_records keeps parent ⟨left, operator, right⟩
    exact .map records Relation.toExpression fun _ same => same
termination_by 2 * e.size + 1
decreasing_by
  simp only [Expression.size, Relation.size]
  omega

/-- A walk records the nodes of a relation, with its left operand before its right one. -/
lemma Relation.walk_records (keeps : v.KeepsShape) (parent : NodeKind) (x : Relation) :
    Records (x.walk v.recording parent) (x.walk v parent) (x.tree.shape.visits (some parent))
      fun x' => x'.tree.shape = x.tree.shape := by
  rw [Relation.walk, Relation.walk]
  refine .enter (fun x' => x'.val.tree.shape) rfl (keeps.relation parent x) ?_
  rintro ⟨x', small⟩
  refine .bind (Expression.walk_records keeps .relation x'.left) ?_
  intro left same
  refine .bind (Expression.walk_records keeps .relation x'.right) ?_
  intro right same'
  apply Records.pure
  change NodeTree.node NodeKind.relation [left.tree.shape, right.tree.shape] = _
  rw [same, same']
  rfl
termination_by 2 * x.size
decreasing_by
  all_goals
    simp only [Relation.size] at *
    omega

end

/-- A walk records the nodes of a declarator, with its name before its value. -/
lemma Declarator.walk_records (keeps : v.KeepsShape) (parent : NodeKind) (d : Declarator) :
    Records (d.walk v.recording parent) (d.walk v parent) (d.tree.shape.visits (some parent))
      fun d' => d'.tree.shape = d.tree.shape := by
  refine .enter (fun d' => d'.val.tree.shape) rfl (keeps.declarator parent d) ?_
  rintro ⟨d', _⟩
  refine .bind (.hook (P := fun _ => True) fun _ => trivial) ?_
  intro name _
  refine .bind (Expression.walk_records keeps .declarator d'.value) ?_
  intro value same
  apply Records.pure
  change NodeTree.node NodeKind.declarator [.node .name [], value.tree.shape] = _
  rw [same]
  rfl

/-- A walk records the nodes of the declarators of a declaration one after the other. -/
lemma Declarator.mapM_walk_records (keeps : v.KeepsShape) (ds : List Declarator) :
    Records (ds.mapM (Declarator.walk v.recording .declaration)) (ds.mapM (Declarator.walk v .declaration))
      (NodeTree.visitsAll .declaration (ds.map fun d => d.tree.shape))
      fun ds' => ds'.map (fun d => d.tree.shape) = ds.map fun d => d.tree.shape := by
  induction ds with
  | nil => exact .pure rfl
  | cons d ds ih =>
    rw [List.mapM_cons, List.mapM_cons]
    refine .bind (Declarator.walk_records keeps .declaration d) ?_
    intro d' same
    refine .map ih (fun ds' => d' :: ds') ?_
    intro ds' same'
    rw [List.map_cons, List.map_cons, same, same']

/-- The shape of a declaration has the shapes of its declarators below it. -/
lemma Declaration.shape_tree (d : Declaration) :
    d.tree.shape = .node .declaration (d.declarators.map fun d => d.tree.shape) := by
  rw [Declaration.tree, NodeTree.shape, NodeTree.map, NodeTree.mapAll_eq_map, List.map_map]
  rfl

/-- A walk records the nodes of a declaration. -/
lemma Declaration.walk_records (keeps : v.KeepsShape) (parent : NodeKind) (d : Declaration) :
    Records (d.walk v.recording parent) (d.walk v parent) (d.tree.shape.visits (some parent))
      fun d' => d'.tree.shape = d.tree.shape := by
  refine .enter (fun d' => d'.val.tree.shape) rfl (keeps.declaration parent d) ?_
  rintro ⟨d', _⟩
  simp only [Declaration.shape_tree]
  refine .map (Declarator.mapM_walk_records keeps d'.declarators) (Declaration.mk d'.kind) ?_
  intro ds same
  rw [same]

mutual

/-- A walk records the nodes of a statement. -/
lemma Statement.walk_records (keeps : v.KeepsShape) (parent : NodeKind) (s : Statement) :
    Records (s.walk v.recording parent) (s.walk v parent) (s.tree.shape.visits (some parent))
      fun s' => s'.tree.shape = s.tree.shape := by
  cases s with
  | declaration d =>
    rw [Statement.walk, Statement.walk]
    exact .map (Declaration.walk_records keeps parent d) Statement.declaration fun _ same => same
  | binding d =>
    rw [Statement.walk, Statement.walk]
    exact .map (Declarator.walk_records keeps parent d) Statement.binding fun _ same => same
  | conditional test consequent alternate =>
    rw [Statement.walk, Statement.walk]
    refine .enter (fun c => c.val.tree.shape) rfl
      (keeps.conditional parent ⟨test, consequent, alternate⟩) ?_
    rintro ⟨c, small⟩
    refine .bind (Relation.walk_records keeps .conditional c.test) ?_
    intro test' same
    refine .bind (Statement.walkBlock_records keeps .conditional c.consequent) ?_
    intro consequent' same'
    refine .map (Statement.walkAlternate_records keeps .conditional c.alternate)
      (Statement.conditional test' consequent') ?_
    intro alternate' same''
    change NodeTree.node NodeKind.conditional (test'.tree.shape :: (Statement.block consequent').tree.shape ::
      NodeTree.mapAll NodeLabel.kind (Statement.treeAlternate alternate')) = _
    rw [same, same', same'']
    rfl
  | loop test body =>
    rw [Statement.walk, Statement.walk]
    refine .enter (fun l => l.val.tree.shape) rfl (keeps.loop parent ⟨test, body⟩) ?_
    rintro ⟨l, small⟩
    refine .bind (Relation.walk_records keeps .loop l.test) ?_
    intro test' same
    refine .bind (Statement.walkBlock_records keeps .loop l.body) ?_
    intro body' same'
    apply Records.pure
    change NodeTree.node NodeKind.loop [test'.tree.shape, (Statement.block body').tree.shape] = _
    rw [same, same']
    rfl
  | block body =>
    rw [Statement.walk, Statement.walk]
    exact .map (Statement.walkBlock_records keeps parent body) Statement.block fun _ same => same
  | expression e =>
    rw [Statement.walk, Statement.walk]
    exact .map (Expression.walk_records keeps parent e) Statement.expression fun _ same => same
termination_by 3 * s.size
decreasing_by
  all_goals
    simp only [Statement.size, Conditional.size, Loop.size] at *
    omega

/-- A walk records a block and then the nodes in it. -/
lemma Statement.walkBlock_records (keeps : v.KeepsShape) (parent : NodeKind) (body : List Statement) :
    Records (Statement.walkBlock v.recording parent body) (Statement.walkBlock v parent body)
      ((Statement.block body).tree.shape.visits (some parent))
      fun body' => (Statement.block body').tree.shape = (Statement.block body).tree.shape := by
  rw [Statement.walkBlock, Statement.walkBlock]
  refine .enter (fun body' => (Statement.block body'.val).tree.shape) rfl (keeps.block parent body) ?_
  rintro ⟨body', small⟩
  refine .mono (Statement.walkAll_records keeps .block body') ?_
  intro ss same
  change NodeTree.node NodeKind.block (NodeTree.mapAll NodeLabel.kind (Statement.treeAll ss)) = _
  rw [same]
  rfl
termination_by 3 * Statement.sizeAll body + 2
decreasing_by omega

/-- A walk records the second block of a choice, if there is one. -/
lemma Statement.walkAlternate_records (keeps : v.KeepsShape) (parent : NodeKind)
    (alternate : Option (List Statement)) :
    Records (Statement.walkAlternate v.recording parent alternate)
      (Statement.walkAlternate v parent alternate)
      (NodeTree.visitsAll parent (NodeTree.mapAll NodeLabel.kind (Statement.treeAlternate alternate)))
      fun alternate' => NodeTree.mapAll NodeLabel.kind (Statement.treeAlternate alternate') =
        NodeTree.mapAll NodeLabel.kind (Statement.treeAlternate alternate) := by
  cases alternate with
  | none =>
    rw [Statement.walkAlternate, Statement.walkAlternate]
    exact .pure rfl
  | some body =>
    rw [Statement.walkAlternate, Statement.walkAlternate]
    refine .bind (Statement.walkBlock_records keeps parent body) ?_
    intro body' same
    apply Records.pure
    change [(Statement.block body').tree.shape] = _
    rw [same]
    rfl
termination_by 3 * Statement.sizeOptional alternate
decreasing_by
  simp only [Statement.sizeOptional]
  omega

/-- A walk records the nodes of statements one after the other. -/
lemma Statement.walkAll_records (keeps : v.KeepsShape) (parent : NodeKind) (ss : List Statement) :
    Records (Statement.walkAll v.recording parent ss) (Statement.walkAll v parent ss)
      (NodeTree.visitsAll parent (NodeTree.mapAll NodeLabel.kind (Statement.treeAll ss)))
      fun ss' => NodeTree.mapAll NodeLabel.kind (Statement.treeAll ss') =
        NodeTree.mapAll NodeLabel.kind (Statement.treeAll ss) := by
  cases ss with
  | nil =>
    rw [Statement.walkAll, Statement.walkAll]
    exact .pure rfl
  | cons s ss =>
    rw [Statement.walkAll, Statement.walkAll]
    refine .bind (Statement.walk_records keeps parent s) ?_
    intro s' same
    refine .map (Statement.walkAll_records keeps parent ss) (fun ss' => s' :: ss') ?_
    intro ss' same'
    change s'.tree.shape :: NodeTree.mapAll NodeLabel.kind (Statement.treeAll ss') = _
    rw [same, same']
    rfl
termination_by 3 * Statement.sizeAll ss + 1
decreasing_by
  all_goals
    have := s.size_pos
    simp only [Statement.sizeAll]
    omega

end

/-- A walk records a program, without a parent, and then the nodes in it. -/
lemma Program.walk_records (keeps : v.KeepsShape) (p : Program) :
    Records (p.walk v.recording) (p.walk v) (p.tree.shape.visits none)
      fun p' => p'.tree.shape = p.tree.shape := by
  refine .enter (fun p' => p'.val.tree.shape) rfl (keeps.program p) ?_
  rintro ⟨p', _⟩
  refine .map (Statement.walkAll_records keeps .program p'.body) Program.mk ?_
  intro body same
  change NodeTree.node NodeKind.program (NodeTree.mapAll NodeLabel.kind (Statement.treeAll body)) = _
  rw [same]
  rfl

end

/-- Whatever a visitor does with its state and with what the nodes hold, as long as it leaves the shape of
its nodes alone its hooks run at every node of the program once, in pre-order and with the right parent. The
program that comes out has the shape of the one that went in. -/
theorem Program.walk_preorder {σ : Type} (v : Visitor (StateM σ)) (keeps : v.KeepsShape) (p : Program)
    (s : σ) :
    (p.walk v.recording).run ([], s) =
      (((p.walk v).run s).1, (p.tree.shape.visits none, ((p.walk v).run s).2)) ∧
    ((p.walk v).run s).1.tree.shape = p.tree.shape := by
  obtain ⟨run, same⟩ := Program.walk_records keeps p [] s
  rw [List.nil_append] at run
  exact ⟨run, same⟩

/-- A visitor that counts names, gives each its number, and words every declaration alike. -/
def numbering : Visitor (StateM Nat) :=
  { Visitor.idle with
    declaration := fun _ d => return ⟨{ d with kind := .native .pono }, Nat.le_refl _⟩
    name := fun _ name => do
      modify (· + 1)
      return name ++ toString (← get) }

/-- A choice between a block with a declaration and an empty one. -/
def choosing : Program :=
  ⟨[.conditional ⟨.name "a", "sit", .null (.word "nullus")⟩
    [.declaration ⟨.latin .dico, [⟨"b", .number 1⟩]⟩] (some [])]⟩

/-- The visitor enters the test before the blocks and each child with its own parent. -/
theorem Program.walk_preorder_numbering :
    numbering.KeepsShape ∧
    ((choosing.walk numbering.recording).run ([], 0)).2.1 =
      [⟨.program, none⟩, ⟨.conditional, some .program⟩,
        ⟨.relation, some .conditional⟩, ⟨.name, some .relation⟩, ⟨.null, some .relation⟩,
        ⟨.block, some .conditional⟩, ⟨.declaration, some .block⟩, ⟨.declarator, some .declaration⟩,
        ⟨.name, some .declarator⟩, ⟨.number, some .declarator⟩,
        ⟨.block, some .conditional⟩] ∧
    ((choosing.walk numbering).run 0).1.tree.shape = choosing.tree.shape := by
  have keeps : numbering.KeepsShape :=
    ⟨fun _ _ => rfl, fun _ _ _ => rfl, fun _ _ _ => rfl, fun _ _ _ => rfl, fun _ _ _ => rfl,
      fun _ _ _ => rfl, fun _ _ _ => rfl⟩
  obtain ⟨run, same⟩ := Program.walk_preorder numbering keeps choosing 0
  refine ⟨keeps, ?_, same⟩
  rw [run]
  rfl

end LatinToScript
