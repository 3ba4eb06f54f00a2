import LatinToScript.Proofs.Program.WellFormed
import LatinToScript.Proofs.Relabeling
import LatinToScript.Proofs.Script.Splitting

/-!
# Trees that a script can tell apart

`Statement.Legible` says what a native tree with split declarations must look like to be known from
its script: names are words other than the literals of the script, operators are symbols, quoted
texts hold no quote. The programs of a source are such trees once they have native words and split
declarations, as long as no operand is named like a literal (`Program.WellFormed.legible`).
-/

namespace LatinToScript

/-- The literals of the script that are written with letters. -/
def scriptLiterals : List String :=
  ["true", "false", "null"]

/-- The operators of the script. -/
def operatorSymbols : List String :=
  ["==", "!=", ">", "<", "+", "-", "*", "/"]

/-- A text of letters and underscores, with at least one of them. -/
structure IsWord (w : String) : Prop where
  ne_empty : w ≠ ""
  chars : ∀ c ∈ w.toList, isWordChar c = true

/-- A name is a word. -/
lemma IsName.isWord {n : String} (nm : IsName n) : IsWord n :=
  ⟨nm.ne_empty, nm.word⟩

/-! ## Legible trees -/

/-- An expression of native words whose names differ from the literals. -/
def Expression.Legible : Expression → Prop
  | .name n => IsWord n ∧ n ∉ scriptLiterals
  | .number _ => True
  | .text t => '"' ∉ t.toList
  | .boolean (.word _) => False
  | .boolean (.native _) => True
  | .null (.word _) => False
  | .null .native => True
  | .relation left operator right => left.Legible ∧ operator ∈ operatorSymbols ∧ right.Legible

/-- A declarator with a word for its name and a legible value. -/
structure Declarator.Legible (d : Declarator) : Prop where
  name : IsWord d.name
  value : d.value.Legible

mutual

/-- A statement of legible parts; a declaration has one declarator and a choice one block. -/
def Statement.Legible : Statement → Prop
  | .declaration d => ∃ binding x, d = ⟨.native binding, [x]⟩ ∧ x.Legible
  | .binding d => d.Legible
  | .conditional test consequent alternate =>
    test.toExpression.Legible ∧ Statement.LegibleAll consequent ∧ alternate = none
  | .loop test body => test.toExpression.Legible ∧ Statement.LegibleAll body
  | .block body => Statement.LegibleAll body
  | .expression e => e.Legible

/-- Statements of legible parts. -/
def Statement.LegibleAll : List Statement → Prop
  | [] => True
  | s :: ss => s.Legible ∧ Statement.LegibleAll ss

end

/-- Legible statements are legible one after the other. -/
lemma Statement.LegibleAll.append {ss ts : List Statement} (ls : Statement.LegibleAll ss)
    (lt : Statement.LegibleAll ts) : Statement.LegibleAll (ss ++ ts) := by
  induction ss with
  | nil => exact lt
  | cons s ss ih => exact ⟨ls.1, ih ls.2⟩

/-! ## The names of operands -/

/-- The names that stand in an expression. -/
def Expression.names : Expression → List String
  | .name n => [n]
  | .relation left _ right => left.names ++ right.names
  | _ => []

mutual

/-- The names that stand in the expressions of a statement; the names that it binds are not among
them. -/
def Statement.operandNames : Statement → List String
  | .declaration d => d.declarators.flatMap fun x => x.value.names
  | .binding d => d.value.names
  | .conditional test consequent alternate =>
    test.toExpression.names ++
      (Statement.operandNamesAll consequent ++ Statement.operandNamesAlternate alternate)
  | .loop test body => test.toExpression.names ++ Statement.operandNamesAll body
  | .block body => Statement.operandNamesAll body
  | .expression e => e.names

/-- The names that stand in the expressions of some statements. -/
def Statement.operandNamesAll : List Statement → List String
  | [] => []
  | s :: ss => s.operandNames ++ Statement.operandNamesAll ss

/-- The names that stand in the expressions of the second block of a choice. -/
def Statement.operandNamesAlternate : Option (List Statement) → List String
  | none => []
  | some body => Statement.operandNamesAll body

end

/-- The names that stand in the expressions of a program. -/
def Program.operandNames (p : Program) : List String :=
  Statement.operandNamesAll p.body

/-! ## Well-formed programs are legible -/

/-- The symbol of an operator word is an operator of the script. -/
lemma mem_operatorSymbols {word : String} (mem : word ∈ operatorWords) :
    (operatorSymbol? word).getD word ∈ operatorSymbols := by
  simp only [operatorWords, List.mem_cons, List.not_mem_nil, or_false] at mem
  rcases mem with rfl | rfl | rfl | rfl | rfl | rfl | rfl | rfl <;> decide

/-- With native words an expression is legible, if none of its names is a literal of the script. -/
lemma Expression.WellFormed.legible {e : Expression} (wf : e.WellFormed)
    (off : ∀ n ∈ e.names, n ∉ scriptLiterals) (parent : NodeKind) :
    (e.relabel nativeWords parent).Legible := by
  induction e generalizing parent with
  | name n =>
    have nm : IsName n := wf
    exact ⟨nm.isWord, off n List.mem_cons_self⟩
  | number value => trivial
  | text t => exact wf
  | boolean value =>
    cases value with
    | native b => exact wf.elim
    | word w =>
      have mem : w ∈ booleanWords := wf
      simp only [booleanWords, List.mem_cons, List.not_mem_nil, or_false] at mem
      rcases mem with rfl | rfl
      · trivial
      · trivial
  | null value =>
    cases value with
    | native => exact wf.elim
    | word w =>
      obtain rfl : w = nullWord := wf
      trivial
  | relation left word right ihl ihr =>
    obtain ⟨wl, wo, wr⟩ := wf
    rw [Expression.names, List.forall_mem_append] at off
    exact ⟨ihl wl off.1 .relation, mem_operatorSymbols wo, ihr wr off.2 .relation⟩

/-- With native words a declarator is legible, if no name in its value is a literal of the script. -/
lemma Declarator.WellFormed.legible {d : Declarator} (wf : d.WellFormed)
    (off : ∀ n ∈ d.value.names, n ∉ scriptLiterals) : (d.relabel nativeWords).Legible :=
  ⟨wf.name.isWord, wf.value.legible off .declarator⟩

/-- With native words declarators are legible as bindings. -/
lemma Declarator.WellFormed.legibleAll {ds : List Declarator} (wf : ∀ d ∈ ds, d.WellFormed)
    (off : ∀ n ∈ ds.flatMap fun x => x.value.names, n ∉ scriptLiterals) :
    Statement.LegibleAll ((ds.map (Declarator.relabel nativeWords)).map .binding) := by
  induction ds with
  | nil => trivial
  | cons d ds ih =>
    rw [List.forall_mem_cons] at wf
    rw [List.flatMap_cons, List.forall_mem_append] at off
    exact ⟨wf.1.legible off.1, ih wf.2 off.2⟩

/-- With native words a declaration is legible once it is split. -/
lemma Declaration.WellFormed.legible {d : Declaration} (wf : d.WellFormed)
    (off : ∀ n ∈ d.declarators.flatMap fun x => x.value.names, n ∉ scriptLiterals)
    (parent : NodeKind) : Statement.LegibleAll (d.relabel nativeWords parent).split := by
  obtain ⟨kind, ds⟩ := d
  obtain ⟨⟨binding, rfl⟩, some, wfs⟩ := wf
  cases ds with
  | nil => exact absurd rfl some
  | cons first others =>
    rw [List.forall_mem_cons] at wfs
    rw [List.flatMap_cons, List.forall_mem_append] at off
    exact ⟨⟨binding, first.relabel nativeWords, rfl, wfs.1.legible off.1⟩,
      Declarator.WellFormed.legibleAll wfs.2 off.2⟩

mutual

/-- With native words a statement is legible once it is split, if no name in its expressions is a literal of the
script. -/
lemma Statement.WellFormed.legible {s : Statement} (wf : s.WellFormed)
    (off : ∀ n ∈ s.operandNames, n ∉ scriptLiterals) (parent : NodeKind) :
    Statement.LegibleAll (s.relabel nativeWords parent).split := by
  cases s with
  | declaration d => exact Declaration.WellFormed.legible wf off parent
  | binding d => exact ⟨Declarator.WellFormed.legible wf off, trivial⟩
  | conditional test consequent alternate =>
    obtain ⟨wt, wc, rfl⟩ := wf
    simp only [Statement.operandNames, List.forall_mem_append] at off
    have lt := Expression.WellFormed.legible wt off.1 .conditional
    exact ⟨⟨lt, Statement.WellFormedAll.legible wc off.2.1 .block, rfl⟩, trivial⟩
  | loop test body =>
    simp only [Statement.operandNames, List.forall_mem_append] at off
    have lt := Expression.WellFormed.legible wf.1 off.1 .loop
    exact ⟨⟨lt, Statement.WellFormedAll.legible wf.2 off.2 .block⟩, trivial⟩
  | block body => exact ⟨Statement.WellFormedAll.legible wf off .block, trivial⟩
  | expression e => exact ⟨wf.1.legible off parent, trivial⟩

/-- With native words statements are legible once they are split. -/
lemma Statement.WellFormedAll.legible {ss : List Statement} (wf : Statement.WellFormedAll ss)
    (off : ∀ n ∈ Statement.operandNamesAll ss, n ∉ scriptLiterals) (parent : NodeKind) :
    Statement.LegibleAll (Statement.splitAll (Statement.relabelAll nativeWords parent ss)) := by
  cases ss with
  | nil => trivial
  | cons s ss =>
    rw [Statement.operandNamesAll, List.forall_mem_append] at off
    exact (Statement.WellFormed.legible wf.1 off.1 parent).append
      (Statement.WellFormedAll.legible wf.2 off.2 parent)

end

/-- A well-formed program is legible with native words and split declarations, if no operand is
named like a literal. -/
lemma Program.WellFormed.legible {p : Program} (wf : p.WellFormed)
    (off : ∀ n ∈ p.operandNames, n ∉ scriptLiterals) :
    Statement.LegibleAll p.toNative.split.body := by
  rw [Program.toNative, Program.relabel_eq]
  exact Statement.WellFormedAll.legible wf.statements off .program

end LatinToScript
