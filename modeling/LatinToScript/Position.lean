import LatinToScript.Text

/-!
# Positions and spans

A place in a text, counted in bytes from its start and in lines and columns from one, and the bytes of a text
that a report points at.
-/

namespace LatinToScript

/-- A place in a text. -/
structure Position where
  /-- Bytes of the UTF-8 text in front of the place. -/
  offset : Nat
  line : Nat
  column : Nat
deriving DecidableEq, Repr

namespace Position

/-- The first place of every text. -/
def start : Position where
  offset := 0
  line := 1
  column := 1

/-- The place after a character; only a line feed starts a new line. -/
def advance (pos : Position) (c : Char) : Position :=
  if c = '\n' then
    { offset := pos.offset + c.utf8Size, line := pos.line + 1, column := 1 }
  else
    { offset := pos.offset + c.utf8Size, line := pos.line, column := pos.column + 1 }

/-- The place after a text. -/
def advanceAll (pos : Position) (text : List Char) : Position :=
  text.foldl advance pos

/-- How messages name a place. -/
def describe (pos : Position) : String :=
  "line " ++ Decimal.ofNat pos.line ++ " column " ++ Decimal.ofNat pos.column

end Position

/-! ## Spans -/

/-- The bytes from `start` up to `stop`, which is not included. -/
structure Span where
  start : Nat
  stop : Nat
deriving DecidableEq, Repr

/-- A span with at least one byte. -/
def Span.widen (span : Span) : Span :=
  { span with stop := max span.stop (span.start + 1) }

/-- The number of bytes of a text in UTF-8. -/
def byteLength (text : List Char) : Nat :=
  text.foldr (fun c n => c.utf8Size + n) 0

/-- The character whose first byte stands at an offset. -/
def charAt? : List Char → Nat → Option Char
  | [], _ => none
  | c :: _, 0 => some c
  | c :: rest, offset + 1 =>
    if offset + 1 < c.utf8Size then none else charAt? rest (offset + 1 - c.utf8Size)

/-- The offset behind the character that starts at an offset; one byte further if none does. -/
def nextBoundary (text : List Char) (offset : Nat) : Nat :=
  match charAt? text offset with
  | some c => offset + c.utf8Size
  | none => offset + 1

/-- The span of the character at a place. A place behind the end stands for the last character. -/
def Span.ofPosition (text : List Char) (position : Position) : Span :=
  let start :=
    if position.offset < byteLength text then position.offset else byteLength text.dropLast
  Span.widen ⟨start, nextBoundary text start⟩

end LatinToScript
