/-!
# Roman numerals

`Numeral.isNumeral` recognises the canonical numerals from 1 to 3999. `Numeral.value?` values any
run of glyphs, well formed or not, with an optional minus sign in front.
-/

namespace LatinToScript

/-- The seven numeral glyphs. -/
inductive Glyph where
  | I | V | X | L | C | D | M
deriving DecidableEq, Repr

namespace Glyph

/-- The glyph that a character is, if it is one. -/
def ofChar? : Char → Option Glyph
  | 'I' => some I
  | 'V' => some V
  | 'X' => some X
  | 'L' => some L
  | 'C' => some C
  | 'D' => some D
  | 'M' => some M
  | _ => none

/-- The value of a glyph that stands alone. -/
def value : Glyph → Int
  | I => 1
  | V => 5
  | X => 10
  | L => 50
  | C => 100
  | D => 500
  | M => 1000

end Glyph

/-- Whether a character is a numeral glyph. -/
def isGlyph (c : Char) : Bool :=
  (Glyph.ofChar? c).isSome

namespace Numeral

/-- The glyphs that write one, five and ten units of a decimal place. -/
structure Place where
  one : Glyph
  five : Glyph
  ten : Glyph
deriving DecidableEq, Repr

/-- The hundreds, the tens and the ones. -/
def places : List Place :=
  [⟨.C, .D, .M⟩, ⟨.X, .L, .C⟩, ⟨.I, .V, .X⟩]

/-- Drops the leading copies of a glyph, at most `n` of them. -/
def dropUpTo : Nat → Glyph → List Glyph → List Glyph
  | n + 1, g, h :: rest => if h = g then dropUpTo n g rest else h :: rest
  | _, _, gs => gs

/-- Drops an optional five and at most three ones. -/
def Place.dropAdditive (p : Place) : List Glyph → List Glyph
  | [] => []
  | g :: rest => if g = p.five then dropUpTo 3 p.one rest else dropUpTo 3 p.one (g :: rest)

/-- Drops the digit of a decimal place: nine, four, or an optional five and at most three ones. -/
def Place.drop (p : Place) : List Glyph → List Glyph
  | g :: h :: rest =>
    if g = p.one ∧ (h = p.ten ∨ h = p.five) then rest else p.dropAdditive (g :: h :: rest)
  | gs => p.dropAdditive gs

/-- Whether glyphs are at most three thousands and then one digit for each decimal place. -/
def wellFormed (gs : List Glyph) : Bool :=
  (places.foldl (fun rest p => p.drop rest) (dropUpTo 3 .M gs)).isEmpty

/-- The glyphs that a word consists of, if it consists of glyphs only. -/
def glyphs? (word : List Char) : Option (List Glyph) :=
  word.mapM Glyph.ofChar?

/-- Whether a word is a numeral: not empty, and the thousands, hundreds, tens and ones of a
number. -/
def isNumeral (word : List Char) : Bool :=
  match glyphs? word with
  | some gs => !gs.isEmpty && wellFormed gs
  | none => false

/-- One step of the reading from right to left: a glyph is added to the total unless the one after
it is larger. The second component is the value of the glyph read last. -/
def count (g : Glyph) : Int × Int → Int × Int
  | (total, next) => (if next ≤ g.value then total + g.value else total - g.value, g.value)

/-- The value of a run of glyphs. -/
def value (gs : List Glyph) : Int :=
  (gs.foldr count (0, 0)).1

/-- The value of a run of glyphs with an optional minus sign in front; none if another character
occurs. -/
def value? : List Char → Option Int
  | '-' :: word => (glyphs? word).map fun gs => -value gs
  | word => (glyphs? word).map value

end Numeral

end LatinToScript
