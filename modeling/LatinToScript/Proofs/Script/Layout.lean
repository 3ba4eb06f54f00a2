import LatinToScript.Program.Script
import Mathlib.Tactic.Common

/-!
# The layout of a script

White space, parentheses and semicolons outside quotes only lay a script out. `withoutLayout` takes
them away, and `Keeps` says what is left of a text whose quotes are closed. Texts without layout are kept
as they are (`keeps_of_class`), and so is all that stands in quotes (`keeps_quoted`).
-/

namespace LatinToScript

/-- A character that only lays a script out where it stands outside quotes. -/
def isLayout (c : Char) : Bool :=
  c ∈ [' ', '\n', '(', ')', ';']

/-- A text without the layout outside its quoted segments; `quoted` says whether it starts inside
one. -/
def withoutLayout (quoted : Bool) : List Char → List Char
  | [] => []
  | c :: text =>
    if c = '"' then
      c :: withoutLayout (!quoted) text
    else if isLayout c && !quoted then
      withoutLayout quoted text
    else
      c :: withoutLayout quoted text

/-- Whether a text ends inside a quoted segment. -/
def endsQuoted (quoted : Bool) : List Char → Bool
  | [] => quoted
  | c :: text => endsQuoted (if c = '"' then !quoted else quoted) text

/-- The quotes of a text are closed, and the characters are what is left of it without its layout. -/
structure Keeps (text : String) (chars : List Char) : Prop where
  closed : endsQuoted false text.toList = false
  withoutLayout_eq : withoutLayout false text.toList = chars

/-! ## Texts one after the other -/

/-- A second text starts inside quotes if the first one ends there. -/
lemma endsQuoted_append (quoted : Bool) (text more : List Char) :
    endsQuoted quoted (text ++ more) = endsQuoted (endsQuoted quoted text) more := by
  induction text generalizing quoted with
  | nil => rfl
  | cons c text ih => exact ih _

/-- The layout of two texts is taken away part by part, once it is known whether the second one starts inside
quotes. -/
lemma withoutLayout_append (quoted : Bool) (text more : List Char) :
    withoutLayout quoted (text ++ more) =
      withoutLayout quoted text ++ withoutLayout (endsQuoted quoted text) more := by
  induction text generalizing quoted with
  | nil => rfl
  | cons c text ih =>
    rw [List.cons_append, withoutLayout, withoutLayout, endsQuoted]
    split
    · rw [ih, List.cons_append]
    · split
      · exact ih _
      · rw [ih, List.cons_append]

/-- A text without quotes ends inside quotes just when it starts there. -/
lemma endsQuoted_of_not_mem (quoted : Bool) {text : List Char} (noquote : '"' ∉ text) :
    endsQuoted quoted text = quoted := by
  induction text with
  | nil => rfl
  | cons c text ih =>
    rw [List.mem_cons, not_or] at noquote
    rw [endsQuoted, if_neg (Ne.symm noquote.1)]
    exact ih noquote.2

/-! ## Single texts -/

/-- A text over characters that are neither quotes nor layout is kept. -/
lemma keeps_of_class {s : String} (class? : Char → Bool)
    (off : ['"', ' ', '\n', '(', ')', ';'].all (!class? ·) = true)
    (all : ∀ c ∈ s.toList, class? c = true) : Keeps s s.toList := by
  have both : ∀ text : List Char, (∀ c ∈ text, class? c = true) →
      endsQuoted false text = false ∧ withoutLayout false text = text := by
    intro text all
    induction text with
    | nil => exact ⟨rfl, rfl⟩
    | cons c text ih =>
      obtain ⟨closed, eq⟩ := ih fun d mem => all d (List.mem_cons_of_mem _ mem)
      have free : c ∉ ['"', ' ', '\n', '(', ')', ';'] := by
        intro mem
        have := List.all_eq_true.mp off c mem
        rw [all c List.mem_cons_self] at this
        cases this
      rw [List.mem_cons, not_or] at free
      have nolayout : isLayout c = false := decide_eq_false free.2
      rw [endsQuoted, withoutLayout, if_neg free.1, if_neg free.1, nolayout]
      exact ⟨closed, congrArg (c :: ·) eq⟩
  obtain ⟨closed, eq⟩ := both s.toList all
  exact ⟨closed, eq⟩

/-- A text is kept inside quotes, whatever layout it holds. -/
lemma keeps_quoted {t : String} (noquote : '"' ∉ t.toList) :
    Keeps ("\"" ++ t ++ "\"") ('"' :: (t.toList ++ ['"'])) := by
  have inside : ∀ text : List Char, '"' ∉ text → withoutLayout true text = text := by
    intro text noquote
    induction text with
    | nil => rfl
    | cons c text ih =>
      rw [List.mem_cons, not_or] at noquote
      rw [withoutLayout, if_neg (Ne.symm noquote.1), Bool.not_true, Bool.and_false]
      exact congrArg (c :: ·) (ih noquote.2)
  have closed := endsQuoted_of_not_mem true noquote
  have chars : ("\"" ++ t ++ "\"").toList = '"' :: (t.toList ++ ['"']) := by
    simp
  constructor
  · rw [chars, endsQuoted, if_pos rfl, endsQuoted_append, Bool.not_false, closed]
    rfl
  · rw [chars, withoutLayout, if_pos rfl, withoutLayout_append, Bool.not_false, closed, inside _ noquote]
    rfl

end LatinToScript
