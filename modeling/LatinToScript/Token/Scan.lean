import LatinToScript.Text
import LatinToScript.Numeral
import LatinToScript.Token.Balance

/-!
# From text to tokens

`lexeme` reads the token at the front of a text, `scan` reads the tokens of a text one after the
other, and `Token.ofSource` also supplies the last semicolon and checks the brackets.
-/

namespace LatinToScript

/-- Whether a character can stand in a word. -/
def isWordChar (c : Char) : Bool :=
  c.isAlpha || c = '_'

/-- The value of a run of glyphs with an optional minus sign in front. -/
def numeralValue (text : List Char) : Int :=
  (Numeral.value? text).getD 0

/-- What a word is. Numerals come first, so that no name is one. -/
def classify (word : List Char) : TokenKind :=
  let spelling := String.ofList word
  if Numeral.isNumeral word then
    .number (numeralValue word)
  else if let some keyword := Keyword.ofWord? spelling then
    .keyword keyword
  else if spelling = nullWord then
    .null
  else if spelling = copulaWord then
    .copula
  else if booleanWords.contains spelling then
    .boolean spelling
  else if operatorWords.contains spelling then
    .operator spelling
  else
    .name spelling

/-- The token that starts with the character `c`, which is no white space, and the number of
characters of `rest` that belong to it. -/
def lexeme (position : Position) (c : Char) (rest : List Char) :
    Except TokenError (TokenKind × Nat) :=
  if c = ';' then
    .ok (.semicolon, 0)
  else if c = '"' then
    let inside := rest.takeWhile (· ≠ '"')
    if inside.length < rest.length then
      .ok (.text (String.ofList inside), inside.length + 1)
    else
      .error (.unfinishedText position)
  else if c = Bracket.parenthesis.openingChar then
    .ok (.opening .parenthesis, 0)
  else if c = Bracket.parenthesis.closingChar then
    .ok (.closing .parenthesis, 0)
  else if c = Bracket.brace.openingChar then
    .ok (.opening .brace, 0)
  else if c = Bracket.brace.closingChar then
    .ok (.closing .brace, 0)
  else if c = '-' && rest.head?.any isGlyph then
    let glyphs := rest.takeWhile isGlyph
    .ok (.number (numeralValue (c :: glyphs)), glyphs.length)
  else if isWordChar c then
    let others := rest.takeWhile isWordChar
    .ok (classify (c :: others), others.length)
  else
    .error (.unknownCharacter c position)

/-- The tokens of a text that starts at a position. -/
def scan (position : Position) (text : List Char) : Except TokenError (List Token) :=
  match text with
  | [] => .ok []
  | c :: rest =>
    if isWhiteSpace c then
      scan (position.advance c) rest
    else
      match lexeme position c rest with
      | .error e => .error e
      | .ok (kind, length) =>
        match scan (position.advanceAll (c :: rest.take length)) (rest.drop length) with
        | .error e => .error e
        | .ok tokens => .ok (⟨kind, position⟩ :: tokens)
termination_by text.length
decreasing_by
  · simp
  · simp only [List.length_drop, List.length_cons]
    omega

/-- The text that is scanned for a source: it ends in a semicolon and a blank. -/
def scannedText (source : String) : List Char :=
  let text := source.toList
  if text.getLast? = some ';' then text ++ [' '] else text ++ [';', ' ']

/-- The tokens of a source text, with its brackets checked. -/
def Token.ofSource (source : String) : Except TokenError (List Token) :=
  match scan .start (scannedText source) with
  | .error e => .error e
  | .ok tokens =>
    match checkBalance tokens with
    | .error e => .error e
    | .ok () => .ok tokens

end LatinToScript
