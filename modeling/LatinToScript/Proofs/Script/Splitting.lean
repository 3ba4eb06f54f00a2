import LatinToScript.Program.Script
import Mathlib.Tactic.Common

/-!
# Declarations split into lines

The declarators of a declaration stand in lines of their own, and only the first one has the keyword
in front of it. So a script does not tell the later declarators from bindings. `Program.split` makes
bindings of them; a program and what it is split into have the same script (`Program.script_split`).
-/

namespace LatinToScript

/-- The first declarator with the keyword, and the others as bindings after it. -/
def Declaration.split (d : Declaration) : List Statement :=
  match d.declarators with
  | [] => [.declaration d]
  | first :: others => .declaration ⟨d.kind, [first]⟩ :: others.map .binding

mutual

/-- The statements that a statement is split into. -/
def Statement.split : Statement → List Statement
  | .declaration d => d.split
  | .binding d => [.binding d]
  | .conditional test consequent alternate =>
    [.conditional test (Statement.splitAll consequent) (Statement.splitAlternate alternate)]
  | .loop test body => [.loop test (Statement.splitAll body)]
  | .block body => [.block (Statement.splitAll body)]
  | .expression e => [.expression e]

/-- The statements that some statements are split into. -/
def Statement.splitAll : List Statement → List Statement
  | [] => []
  | s :: ss => s.split ++ Statement.splitAll ss

/-- The second block of a choice with its statements split. -/
def Statement.splitAlternate : Option (List Statement) → Option (List Statement)
  | none => none
  | some body => some (Statement.splitAll body)

end

/-- A program with its declarations split, in the body and in every block. -/
def Program.split (p : Program) : Program :=
  ⟨Statement.splitAll p.body⟩

/-! ## The script of what is split -/

/-- Statements have their scripts one by one. -/
lemma Statement.scripts_eq_map (ss : List Statement) :
    Statement.scripts ss = ss.map Statement.script := by
  induction ss with
  | nil => rfl
  | cons s ss ih => rw [Statement.scripts, ih, List.map_cons]

/-- The scripts of statements do not depend on where they are cut. -/
lemma Statement.scripts_append (ss ts : List Statement) :
    Statement.scripts (ss ++ ts) = Statement.scripts ss ++ Statement.scripts ts := by
  rw [scripts_eq_map, scripts_eq_map, scripts_eq_map, List.map_append]

/-- Where there are statements there are scripts. -/
lemma Statement.scripts_ne_nil {ss : List Statement} (some : ss ≠ []) : Statement.scripts ss ≠ [] := by
  rw [scripts_eq_map]
  exact mt List.map_eq_nil_iff.mp some

/-- A declaration that is split has the same lines. -/
lemma Declaration.script_split (d : Declaration) : joinLines (Statement.scripts d.split) = d.script := by
  obtain ⟨kind, ds⟩ := d
  cases ds with
  | nil => exact String.intercalate_singleton
  | cons first others =>
    have lines : Statement.scripts (others.map .binding) = others.map Declarator.script := by
      rw [Statement.scripts_eq_map, List.map_map]
      apply List.map_congr_left
      intro d _
      rw [Function.comp_apply, Statement.script]
    have script : (Statement.declaration ⟨kind, [first]⟩).script =
        kind.word ++ " " ++ first.script := by
      rw [Statement.script, Declaration.script, List.map_singleton, joinLines,
        String.intercalate_singleton]
    change joinLines (Statement.scripts (.declaration ⟨kind, [first]⟩ :: others.map .binding)) = _
    rw [Statement.scripts, lines, script, joinLines, String.intercalate_cons_append]
    rfl

/-- Nothing is split into nothing. -/
lemma Statement.split_ne_nil (s : Statement) : s.split ≠ [] := by
  cases s with
  | declaration d =>
    obtain ⟨kind, ds⟩ := d
    cases ds <;> exact List.cons_ne_nil _ _
  | _ => exact List.cons_ne_nil _ _

mutual

/-- A statement that is split has the same lines. -/
lemma Statement.script_split (s : Statement) : joinLines (Statement.scripts s.split) = s.script := by
  cases s with
  | declaration d =>
    rw [Statement.split, Statement.script]
    exact d.script_split
  | binding d => exact String.intercalate_singleton
  | conditional test consequent alternate =>
    rw [Statement.split, Statement.scripts, Statement.scripts, joinLines, String.intercalate_singleton,
      Statement.script, Statement.script, braced, Statement.script_splitAll consequent,
      Statement.script_splitAlternate alternate, braced]
  | loop test body =>
    rw [Statement.split, Statement.scripts, Statement.scripts, joinLines, String.intercalate_singleton,
      Statement.script, Statement.script, braced, Statement.script_splitAll body, braced]
  | block body =>
    rw [Statement.split, Statement.scripts, Statement.scripts, joinLines, String.intercalate_singleton,
      Statement.script, Statement.script, braced, Statement.script_splitAll body, braced]
  | expression e => exact String.intercalate_singleton

/-- Statements that are split have the same lines. -/
lemma Statement.script_splitAll (ss : List Statement) :
    joinLines (Statement.scripts (Statement.splitAll ss)) = joinLines (Statement.scripts ss) := by
  cases ss with
  | nil => rfl
  | cons s ss =>
    have first := s.script_split
    cases ss with
    | nil =>
      rw [Statement.splitAll, Statement.splitAll, List.append_nil, first]
      exact String.intercalate_singleton.symm
    | cons s' ss =>
      -- What is split stands in lines of its own, so the lines can be joined part by part.
      have others := Statement.script_splitAll (s' :: ss)
      have some : Statement.splitAll (s' :: ss) ≠ [] :=
        List.append_ne_nil_of_left_ne_nil s'.split_ne_nil _
      rw [joinLines] at first others
      rw [Statement.splitAll, Statement.scripts_append, joinLines,
        String.intercalate_append_of_ne_nil (Statement.scripts_ne_nil s.split_ne_nil)
          (Statement.scripts_ne_nil some), first, others]
      exact String.intercalate_cons_cons.symm

/-- The second block of a choice has the same script when it is split. -/
lemma Statement.script_splitAlternate (alternate : Option (List Statement)) :
    Statement.scriptAlternate (Statement.splitAlternate alternate) =
      Statement.scriptAlternate alternate := by
  cases alternate with
  | none => rfl
  | some body =>
    rw [Statement.splitAlternate, Statement.scriptAlternate, Statement.scriptAlternate, braced,
      Statement.script_splitAll body, braced]

end

/-- A program and what it is split into have the same script. -/
lemma Program.script_split (p : Program) : p.split.script = p.script :=
  Statement.script_splitAll p.body

end LatinToScript
