import LatinToScript.Position
import Mathlib.Data.List.DropRight
import Mathlib.Tactic.Common

/-!
# Places in closed form

`Position.advance` counts bytes, lines and columns one character at a time. `Position.behind` says
at once what happens to a place when a text is put in front of it. The two agree: going on by a
character and putting a text in front may be done in either order (`Position.behind_advance`), and
the place after a text is the first place with the text in front of it (`Position.start_behind`).
-/

namespace LatinToScript

/-- The part of a text after its last line feed. -/
def lastLine (text : List Char) : List Char :=
  text.rtakeWhile (· ≠ '\n')

/-- The empty text has no bytes. -/
@[simp] lemma byteLength_nil : byteLength [] = 0 := rfl

/-- The bytes of the first character come on top. -/
@[simp] lemma byteLength_cons (c : Char) (text : List Char) :
    byteLength (c :: text) = c.utf8Size + byteLength text := rfl

/-- The bytes of two texts add up. -/
@[simp] lemma byteLength_append (text more : List Char) :
    byteLength (text ++ more) = byteLength text + byteLength more := by
  induction text with
  | nil => rw [List.nil_append, byteLength_nil, Nat.zero_add]
  | cons c text ih => rw [List.cons_append, byteLength_cons, ih, byteLength_cons, Nat.add_assoc]

/-- The bytes of a text are those of its string. -/
lemma byteLength_eq (text : List Char) : byteLength text = (String.ofList text).utf8ByteSize := by
  induction text with
  | nil => rfl
  | cons c text ih =>
    rw [byteLength_cons, ih, String.ofList_cons, String.utf8ByteSize_append,
      String.utf8ByteSize_singleton]

/-- Every character has a byte. -/
lemma byteLength_pos {text : List Char} (some : text ≠ []) : 0 < byteLength text := by
  cases text with
  | nil => exact absurd rfl some
  | cons c text =>
    rw [byteLength_cons]
    exact Nat.add_pos_left c.utf8Size_pos _

/-- Behind a line feed the last line is empty. -/
lemma lastLine_concat_lineFeed (text : List Char) : lastLine (text ++ ['\n']) = [] := by
  rw [lastLine, List.rtakeWhile_concat, if_neg (by decide)]

/-- Another character goes on with the last line. -/
lemma lastLine_concat {c : Char} (other : c ≠ '\n') (text : List Char) :
    lastLine (text ++ [c]) = lastLine text ++ [c] := by
  rw [lastLine, List.rtakeWhile_concat, if_pos (decide_eq_true other)]
  rfl

namespace Position

/-- A place of a text when another text is put in front of it. Only the columns of the first line
change. -/
def behind (front : List Char) (position : Position) : Position where
  offset := position.offset + byteLength front
  line := position.line + front.count '\n'
  column := if position.line = 1 then position.column + (lastLine front).length else position.column

/-- A place goes on by one text and then by the other. -/
lemma advanceAll_append (position : Position) (text more : List Char) :
    position.advanceAll (text ++ more) = (position.advanceAll text).advanceAll more :=
  List.foldl_append

/-- Lines are never counted down. -/
lemma line_le_advance (position : Position) (c : Char) : position.line ≤ (position.advance c).line := by
  unfold advance
  split
  · exact Nat.le_succ _
  · exact Nat.le_refl _

/-- Putting a text in front may be done before or after going on by a character. -/
lemma behind_advance {position : Position} (line : 1 ≤ position.line) (front : List Char) (c : Char) :
    (position.advance c).behind front = (position.behind front).advance c := by
  unfold advance
  split
  · -- A new line is not the first one, so its columns count from one whatever is in front.
    have other : position.line + 1 ≠ 1 := by omega
    simp only [behind, other, if_false, mk.injEq, and_true]
    omega
  · simp only [behind, mk.injEq, true_and]
    refine ⟨by omega, ?_⟩
    split
    · omega
    · rfl

/-- The place after a text is the first place with the text in front of it. -/
lemma start_behind (front : List Char) : start.behind front = start.advanceAll front := by
  induction front using List.reverseRecOn with
  | nil => rfl
  | append_singleton front c ih =>
    rw [advanceAll_append, ← ih]
    change _ = (start.behind front).advance c
    have bytes : byteLength (front ++ [c]) = byteLength front + c.utf8Size := by
      rw [byteLength_append, byteLength_cons, byteLength_nil, Nat.add_zero]
    by_cases feed : c = '\n'
    · rw [advance, if_pos feed]
      subst feed
      simp only [behind, bytes, lastLine_concat_lineFeed, List.count_append,
        List.count_singleton_self, mk.injEq]
      exact ⟨by omega, by omega, rfl⟩
    · have none : [c].count '\n' = 0 := List.count_eq_zero.mpr (by simpa using Ne.symm feed)
      rw [advance, if_neg feed]
      simp only [behind, bytes, lastLine_concat feed, List.count_append, none, List.length_append,
        List.length_singleton, mk.injEq]
      exact ⟨by omega, by omega, rfl⟩

/-- The place after a text, by its bytes, its lines and the characters of its last line. -/
lemma start_advanceAll (front : List Char) :
    start.advanceAll front =
      ⟨byteLength front, 1 + front.count '\n', 1 + (lastLine front).length⟩ := by
  rw [← start_behind]
  simp [behind, start]

/-- The place behind the front part of a text, in closed form. -/
def ofFront (front : List Char) : Position where
  offset := (String.ofList front).utf8ByteSize
  line := 1 + front.count '\n'
  column := 1 + (lastLine front).length

/-- The place behind the front part of a text, step by step, is the one in closed form. -/
lemma start_advanceAll_eq (front : List Char) : start.advanceAll front = ofFront front := by
  rw [start_advanceAll, byteLength_eq, ofFront]

end Position

end LatinToScript
