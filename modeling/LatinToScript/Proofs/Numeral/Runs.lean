import LatinToScript.Proofs.Numeral
import Mathlib.Algebra.BigOperators.Fin

/-!
# Runs of glyphs

The scanner takes any run of glyphs after a minus sign for a number, well formed or not. The reading goes
from right to left and keeps a total. In closed form the value is the sum of the glyphs, each negative
when the next one is larger (`value_eq_sum`). It is at most a thousand times the number of glyphs
(`value_le`), and no total on the way is negative or larger than that (`reading_bounds`).
-/

namespace LatinToScript.Numeral

/-- What a glyph of a run counts for: its value, negatively if the next glyph is larger. -/
def contribution (gs : List Glyph) (i : Fin gs.length) : Int :=
  if (gs[i.val + 1]?).any (fun next => gs[i].value < next.value) then -gs[i].value else gs[i].value

/-- The glyph in front of a run is counted with its contribution. -/
lemma value_cons (g : Glyph) (gs : List Glyph) :
    value (g :: gs) = contribution (g :: gs) ⟨0, Nat.zero_lt_succ _⟩ + value gs := by
  cases gs with
  | nil =>
    have eq : value [g] = value [] + g.value := value_cons_of_le g.value_pos.le
    rw [eq, Int.add_comm]
    rfl
  | cons h gs =>
    have first : contribution (g :: h :: gs) ⟨0, Nat.zero_lt_succ _⟩ =
        if decide (g.value < h.value) = true then -g.value else g.value := rfl
    rw [first]
    split
    · rename_i lt
      have eq : value (g :: h :: gs) = value (h :: gs) - g.value := value_cons_of_lt (of_decide_eq_true lt)
      rw [eq, Int.sub_eq_add_neg, Int.add_comm]
    · rename_i ge
      have le : h.value ≤ g.value := not_lt.mp (mt decide_eq_true ge)
      have eq : value (g :: h :: gs) = value (h :: gs) + g.value := value_cons_of_le le
      rw [eq, Int.add_comm]

/-- The value of a run is the sum of what its glyphs count for. -/
lemma value_eq_sum (gs : List Glyph) : value gs = ∑ i : Fin gs.length, contribution gs i := by
  induction gs with
  | nil => rfl
  | cons g gs ih =>
    -- What a glyph counts for does not depend on those in front of it.
    have sum : ∑ i : Fin (g :: gs).length, contribution (g :: gs) i =
        contribution (g :: gs) ⟨0, Nat.zero_lt_succ _⟩ + ∑ i : Fin gs.length, contribution gs i :=
      Fin.sum_univ_succ _
    rw [value_cons, ih, sum]

/-- A run is worth at most as much as if it consisted of the largest glyph. -/
lemma value_le (gs : List Glyph) : value gs ≤ 1000 * gs.length := by
  induction gs with
  | nil => exact le_refl _
  | cons g gs ih =>
    have le := g.value_le
    have pos := g.value_pos
    rw [List.length_cons]
    push_cast
    rcases lt_or_ge g.value (reading gs).2 with lt | ge
    · rw [value_cons_of_lt lt]
      omega
    · rw [value_cons_of_le ge]
      omega

/-- The totals of the reading are the values of the glyphs that have been read, from the right. -/
lemma reading_bounds {gs read : List Glyph} (suffix : read <:+ gs) :
    0 ≤ (reading read).1 ∧ (reading read).1 ≤ 1000 * gs.length := by
  have len := suffix.length_le
  have le := value_le read
  rw [← value_eq]
  refine ⟨?_, by omega⟩
  cases read with
  | nil => exact le_refl _
  | cons g read => exact (value_pos (List.cons_ne_nil g read)).le

/-- The characters of a word after its minus sign, if it has one. -/
def unsigned : List Char → List Char
  | '-' :: word => word
  | word => word

/-- A word has no glyphs exactly when one of its characters is none. -/
lemma glyphs?_eq_none_iff {w : List Char} : glyphs? w = none ↔ ∃ c ∈ w, isGlyph c = false := by
  constructor
  · intro none
    by_contra all
    push Not at all
    obtain ⟨gs, eq⟩ := exists_glyphs fun c mem => Bool.eq_true_of_not_eq_false (all c mem)
    rw [glyphs?_eq_some_iff.mpr eq] at none
    cases none
  · rintro ⟨c, mem, other⟩
    rw [Option.eq_none_iff_forall_ne_some]
    intro gs eq
    rw [glyphs?_eq_some_iff.mp eq] at mem
    obtain ⟨g, _, rfl⟩ := List.mem_map.mp mem
    rw [isGlyph_toChar] at other
    cases other

/-- A text has no value exactly when a character after the minus sign is no glyph. -/
lemma value?_eq_none_iff {text : List Char} :
    value? text = none ↔ ∃ c ∈ unsigned text, isGlyph c = false := by
  rw [← glyphs?_eq_none_iff]
  unfold value?
  split
  · exact Option.map_eq_none_iff
  · rename_i plain
    have eq : unsigned text = text := by
      unfold unsigned
      split
      · exact absurd rfl (plain _)
      · rfl
    rw [eq]
    exact Option.map_eq_none_iff

end LatinToScript.Numeral
