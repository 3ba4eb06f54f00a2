import LatinToScript.Text
import LatinToScript.Diagnostic.Basic

/-!
# Reports

A diagnostic drawn as text: the headline, and below it the line that the label points at, an arrow
to the label's message, the advice and the notes. The numbers of the label's span are read as
character indices. Without a label, or with one that does not lie in the source, the report is the
headline alone.
-/

namespace LatinToScript

namespace Report

/-- Copies of a character. -/
def copies (n : Nat) (c : Char) : String :=
  String.ofList (List.replicate n c)

/-- A line of the source: its number, the index of its first character, and its text with the line
break. -/
structure Line where
  number : Nat
  offset : Nat
  text : List Char
deriving DecidableEq, Repr

/-- The last line that starts at an index or in front of it; the first of the lines given has a
number and an offset. -/
def findLine (index number offset : Nat) : List (List Char) → Line
  | [] => ⟨number, offset, []⟩
  | [text] => ⟨number, offset, text⟩
  | text :: next :: texts =>
    if index < offset + text.length then
      ⟨number, offset, text⟩
    else
      findLine index (number + 1) (offset + text.length) (next :: texts)

/-- Where a span of characters lies in a source: the line that it starts in. -/
def locate? (source : List Char) (span : Span) : Option Line :=
  if span.start ≤ source.length ∧ span.stop ≤ source.length + 1 then
    some (findLine span.start 1 0 (brokenLines source))
  else
    none

/-- How many places a character takes that stands in a column: a tab goes on to the next multiple
of four. -/
def cellWidth (column : Nat) (c : Option Char) : Nat :=
  if c = some '\t' then 4 - column % 4 else 1

/-- A character as it is shown in a column. -/
def showChar (column : Nat) (c : Char) : List Char :=
  if isWhiteSpace c then List.replicate (cellWidth column (some c)) ' ' else [c]

/-- A text as it is shown from a column on. -/
def showFrom (column : Nat) : List Char → List Char
  | [] => []
  | c :: rest => showChar column c ++ showFrom (column + 1) rest

/-- The first row below the source line: a line under the span with a notch where the arrow starts.
The bounds of the span and the notch are columns. -/
def underlineCell (start stop notch : Nat) (column width : Nat) : List Char :=
  let inside := start ≤ column ∧ column < stop
  let rule := if inside then '─' else ' '
  (if column = notch then '┬' else rule) :: List.replicate (width - 1) rule

/-- The second row below the source line: from the notch to the right. -/
def arrowCell (notch : Nat) (column width : Nat) : List Char :=
  if column < notch then
    List.replicate width ' '
  else if column = notch then
    '╰' :: List.replicate (width - 1) '─'
  else
    List.replicate width '─'

/-- The rows about a span that starts in a line: the text of the line, the span underlined, and the
arrow to the message. A span that goes beyond its line is not shown. The margin stands in front of
all rows but the first, which has the number of the line. -/
def labelRows (margin : String) (line : Line) (span : Span) (message : String) : List String :=
  if span.stop ≤ line.offset + line.text.length then
    let text := trimEnd line.text
    let start := span.start - line.offset
    let stop := span.stop - line.offset
    let notch := (span.start + span.stop) / 2 - line.offset
    let columns := List.range (stop + 2)
    let row (cell : Nat → Nat → List Char) : String :=
      String.ofList (columns.flatMap fun column => cell column (cellWidth column text[column]?))
    [" " ++ Decimal.ofNat line.number ++ " │ " ++ String.ofList (showFrom 0 text),
      margin ++ " " ++ row (underlineCell start stop notch),
      margin ++ " " ++ row (arrowCell notch) ++ " " ++ message]
  else
    [margin ++ " "]

/-- The rows of an advice or a note: an empty one, and the text after its heading. -/
def noteRows (margin heading text : String) : List String :=
  match plainLines text.toList with
  | [] => [margin ++ " "]
  | first :: others =>
    [margin ++ " ", margin ++ " " ++ heading ++ String.ofList first]
      ++ others.map fun line =>
        margin ++ " " ++ copies heading.length ' ' ++ String.ofList line

/-- The headings of some notes: they are numbered if there are several. -/
def noteHeadings (count : Nat) : List String :=
  if count ≤ 1 then
    List.replicate count "Note: "
  else
    (List.range count).map fun i => "Note " ++ Decimal.ofNat (i + 1) ++ ": "

/-- The rows of some notes. -/
def notesRows (margin : String) (notes : List String) : List String :=
  ((noteHeadings notes.length).zip notes).flatMap fun (heading, text) =>
    noteRows margin heading text

/-- The rows of an advice. -/
def helpRows (margin : String) : Option String → List String
  | none => []
  | some text => noteRows margin "Help: " text

/-- Where a span starts, as file, line and column. -/
def place (file : String) (line : Line) (span : Span) : String :=
  file ++ ":" ++ Decimal.ofNat line.number ++ ":"
    ++ Decimal.ofNat (span.start - line.offset + 1)

/-- The rows below the headline. -/
def bodyRows (d : Diagnostic) (file : String) (line : Line) (span : Span) (message : String) :
    List String :=
  let width := (Decimal.digits line.number).length + 2
  let margin := copies width ' ' ++ "│"
  [copies width ' ' ++ "╭─[ " ++ place file line span ++ " ]", margin]
    ++ labelRows margin line span message
    ++ helpRows margin d.help
    ++ notesRows margin d.notes
    ++ [copies width '─' ++ "╯"]

/-- The rows of a report. -/
def rows (d : Diagnostic) : List String :=
  let source := d.source.getD ⟨"<unknown>", ""⟩
  let title := "[" ++ d.code ++ "] Error: " ++ d.headline
  match d.labels with
  | [] => [title]
  | label :: _ =>
    let span := label.span.widen
    match locate? source.text.toList span with
    | none => [title]
    | some line => title :: bodyRows d source.file line span label.message

end Report

/-- A diagnostic drawn as text. -/
def Diagnostic.render (d : Diagnostic) : String :=
  String.ofList (trimEnd (String.intercalate "\n" (Report.rows d)).toList)

end LatinToScript
