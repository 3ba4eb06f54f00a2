import LatinToScript.Position

/-!
# Tokens

What a source text is made of: keywords, names, literals, operator words and brackets, each with
the place where it starts.
-/

namespace LatinToScript

/-- The three ways to declare names. -/
inductive Binding where
  | dico
  | constituo
  | pono
deriving DecidableEq, Repr

/-- The Latin keyword of a declaration. -/
def Binding.latin : Binding → String
  | .dico => "dico"
  | .constituo => "constituo"
  | .pono => "pono"

/-- The two statements that depend on a condition: `si` for a choice, `dum` for a loop. -/
inductive Control where
  | si
  | dum
deriving DecidableEq, Repr

/-- The Latin keyword of a control statement. -/
def Control.latin : Control → String
  | .si => "si"
  | .dum => "dum"

/-- The words that start a statement. -/
inductive Keyword where
  | declare (binding : Binding)
  | control (control : Control)
deriving DecidableEq, Repr

namespace Keyword

/-- How a keyword is written. -/
def word : Keyword → String
  | .declare b => b.latin
  | .control c => c.latin

/-- The keyword that a word is, if it is one. -/
def ofWord? : String → Option Keyword
  | "dico" => some (.declare .dico)
  | "constituo" => some (.declare .constituo)
  | "pono" => some (.declare .pono)
  | "si" => some (.control .si)
  | "dum" => some (.control .dum)
  | _ => none

end Keyword

/-- The word between a name and its value. -/
def copulaWord : String :=
  "esse"

/-- The word for the absence of a value. -/
def nullWord : String :=
  "nullus"

/-- The words for truth and falsehood. -/
def booleanWords : List String :=
  ["verum", "falsum"]

/-- The words that relate two operands. -/
def operatorWords : List String :=
  ["sit", "nonest", "maior", "minor", "additum", "detractum", "multiplicatum", "divisum"]

/-- The two pairs of brackets. -/
inductive Bracket where
  | parenthesis
  | brace
deriving DecidableEq, Repr

namespace Bracket

/-- The character that opens a pair. -/
def openingChar : Bracket → Char
  | .parenthesis => '('
  | .brace => '\x7b'

/-- The character that closes a pair. -/
def closingChar : Bracket → Char
  | .parenthesis => ')'
  | .brace => '\x7d'

/-- How messages name a bracket. -/
def describe : Bracket → String
  | .parenthesis => "parenthesis"
  | .brace => "curly brace"

end Bracket

/-- What a token is, wherever it stands. -/
inductive TokenKind where
  | keyword (keyword : Keyword)
  | name (name : String)
  | copula
  | number (value : Int)
  /-- A quoted text, without its quotes. -/
  | text (text : String)
  /-- A boolean literal, by its word. -/
  | boolean (word : String)
  | null
  | operator (word : String)
  | semicolon
  | opening (bracket : Bracket)
  | closing (bracket : Bracket)
deriving DecidableEq, Repr

/-- How messages name a token. -/
def TokenKind.describe : TokenKind → String
  | .keyword k => "keyword '" ++ k.word ++ "'"
  | .name n => "name '" ++ n ++ "'"
  | .copula => "'" ++ copulaWord ++ "'"
  | .number value => "number " ++ Decimal.ofInt value
  | .text t => "string \"" ++ t ++ "\""
  | .boolean word => "boolean '" ++ word ++ "'"
  | .null => "'" ++ nullWord ++ "'"
  | .operator word => "operator '" ++ word ++ "'"
  | .semicolon => "';'"
  | .opening bracket => "'" ++ bracket.openingChar.toString ++ "'"
  | .closing bracket => "'" ++ bracket.closingChar.toString ++ "'"

/-- A token and the place where it starts. -/
structure Token where
  kind : TokenKind
  position : Position
deriving DecidableEq, Repr

/-- Why a text has no tokens. -/
inductive TokenError where
  /-- A character that starts no token. -/
  | unknownCharacter (character : Char) (position : Position)
  /-- A quoted text without a closing quote; the place is that of the opening one. -/
  | unfinishedText (position : Position)
  | unmatchedOpening (bracket : Bracket) (position : Position)
  | unmatchedClosing (bracket : Bracket) (position : Position)
deriving DecidableEq, Repr

namespace TokenError

/-- Where the fault is. -/
def position : TokenError → Position
  | .unknownCharacter _ position => position
  | .unfinishedText position => position
  | .unmatchedOpening _ position => position
  | .unmatchedClosing _ position => position

/-- The text of the message. -/
def message : TokenError → String
  | .unknownCharacter character position =>
    "unknown character '" ++ character.toString ++ "' at " ++ position.describe
  | .unfinishedText position =>
    "unfinished string at " ++ position.describe
  | .unmatchedOpening bracket position =>
    "unmatched opening " ++ bracket.describe ++ " at " ++ position.describe
  | .unmatchedClosing bracket position =>
    "unmatched closing " ++ bracket.describe ++ " at " ++ position.describe

end TokenError

end LatinToScript
