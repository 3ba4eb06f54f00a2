/-!
# Texts

What is needed of plain texts: decimal numbers, white space, and lines.

White space is the Unicode property `White_Space`. It decides what separates tokens, and what is trimmed
from the end of a line in a report. There are two ways to cut a text into lines: at every Unicode line break,
each line keeping its own, or at line feeds alone, which are dropped.
-/

namespace LatinToScript

/-! ## Decimal numbers

Decimal digits without leading zeros; a negative number has a minus sign in front. -/

namespace Decimal

/-- The digit for a number below ten. -/
def digit (n : Nat) : Char :=
  Char.ofNat ('0'.toNat + n)

/-- The decimal digits of a natural number, the most significant first. -/
def digits (n : Nat) : List Char :=
  if n < 10 then [digit n] else digits (n / 10) ++ [digit (n % 10)]

/-- The decimal form of a natural number. -/
def ofNat (n : Nat) : String :=
  String.ofList (digits n)

/-- The decimal form of an integer. -/
def ofInt : Int → String
  | .ofNat n => ofNat n
  | .negSucc n => "-" ++ ofNat (n + 1)

end Decimal

/-! ## White space -/

/-- The ranges of code points with the property `White_Space`, both ends included. -/
def whiteSpaceRanges : List (Nat × Nat) :=
  [(0x9, 0xd), (0x20, 0x20), (0x85, 0x85), (0xa0, 0xa0), (0x1680, 0x1680), (0x2000, 0x200a),
    (0x2028, 0x2029), (0x202f, 0x202f), (0x205f, 0x205f), (0x3000, 0x3000)]

/-- Whether a character has the property `White_Space`. -/
def isWhiteSpace (c : Char) : Bool :=
  whiteSpaceRanges.any fun range => range.1 ≤ c.toNat && c.toNat ≤ range.2

/-- A text without the white space at its end. -/
def trimEnd (text : List Char) : List Char :=
  (text.reverse.dropWhile isWhiteSpace).reverse

/-! ## Lines -/

/-- The characters that end a line. -/
def isLineBreak (c : Char) : Bool :=
  c ∈ ['\n', '\x0b', '\x0c', '\r', '\u0085', '\u2028', '\u2029']

/-- The lines of a text, each with its line break; a carriage return and a line feed are one. -/
def brokenLines : List Char → List (List Char)
  | [] => []
  | '\r' :: '\n' :: rest => ['\r', '\n'] :: brokenLines rest
  | c :: rest =>
    if isLineBreak c then
      [c] :: brokenLines rest
    else
      match brokenLines rest with
      | [] => [[c]]
      | line :: lines => (c :: line) :: lines

/-- The lines of a text without their line feeds, nor a carriage return in front of one. -/
def plainLines : List Char → List (List Char)
  | [] => []
  | '\r' :: '\n' :: rest => [] :: plainLines rest
  | '\n' :: rest => [] :: plainLines rest
  | c :: rest =>
    match plainLines rest with
    | [] => [[c]]
    | line :: lines => (c :: line) :: lines

end LatinToScript
