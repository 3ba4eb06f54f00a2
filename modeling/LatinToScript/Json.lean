import LatinToScript.Text

/-!
# JSON

JSON values, and their text with two blanks for each level and every element on a line of its own.
The members of an object keep their order.
-/

namespace LatinToScript

/-- A JSON value. -/
inductive Json where
  | null
  | boolean (value : Bool)
  | number (value : Int)
  | text (text : String)
  | array (elements : List Json)
  | object (members : List (String × Json))

namespace Json

/-- The lower-case hexadecimal digit for a number below sixteen. -/
def hexDigit (n : Nat) : Char :=
  if n < 10 then Char.ofNat ('0'.toNat + n) else Char.ofNat ('a'.toNat + (n - 10))

/-- How a character is written inside quotes. -/
def escapeChar (c : Char) : List Char :=
  if c = '"' then ['\\', '"']
  else if c = '\\' then ['\\', '\\']
  else if c = '\x08' then ['\\', 'b']
  else if c = '\t' then ['\\', 't']
  else if c = '\n' then ['\\', 'n']
  else if c = '\x0c' then ['\\', 'f']
  else if c = '\r' then ['\\', 'r']
  else if c.toNat < 0x20 then
    ['\\', 'u', '0', '0', hexDigit (c.toNat / 16), hexDigit (c.toNat % 16)]
  else [c]

/-- A text in quotes. -/
def quote (text : String) : String :=
  "\"" ++ String.ofList (text.toList.flatMap escapeChar) ++ "\""

/-- A new line at a level. -/
def newLine (level : Nat) : String :=
  "\n" ++ String.ofList (List.replicate (2 * level) ' ')

/-- Items between two brackets, one in a line; without items the brackets stand side by side. -/
def bracketed (level : Nat) (opening closing : String) (items : List String) : String :=
  if items.isEmpty then
    opening ++ closing
  else
    opening ++ newLine (level + 1) ++ String.intercalate ("," ++ newLine (level + 1)) items
      ++ newLine level ++ closing

mutual

/-- The text of a value that starts at a level. -/
def write (level : Nat) : Json → String
  | .null => "null"
  | .boolean true => "true"
  | .boolean false => "false"
  | .number value => Decimal.ofInt value
  | .text t => quote t
  | .array elements => bracketed level "[" "]" (writeElements (level + 1) elements)
  | .object members => bracketed level "\x7b" "\x7d" (writeMembers (level + 1) members)

/-- The texts of the elements of an array. -/
def writeElements (level : Nat) : List Json → List String
  | [] => []
  | value :: values => write level value :: writeElements level values

/-- The texts of the members of an object. -/
def writeMembers (level : Nat) : List (String × Json) → List String
  | [] => []
  | (key, value) :: members =>
    (quote key ++ ": " ++ write level value) :: writeMembers level members

end

/-- The text of a value. -/
def pretty (value : Json) : String :=
  write 0 value

/-- An object with one member, as a tagged value is written. -/
def tagged (tag : String) (value : Json) : Json :=
  .object [(tag, value)]

end Json

end LatinToScript
