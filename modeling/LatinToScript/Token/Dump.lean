import LatinToScript.Json
import LatinToScript.Token.Basic

/-!
# Tokens as JSON
-/

namespace LatinToScript

/-- The tag of a declaring keyword. -/
def Binding.latinTag : Binding → String
  | .dico => "Dico"
  | .constituo => "Constituo"
  | .pono => "Pono"

/-- The tag of a keyword. -/
def Keyword.tag : Keyword → String
  | .declare b => b.latinTag
  | .control .si => "Si"
  | .control .dum => "Dum"

/-- A position as JSON. -/
def Position.toJson (position : Position) : Json :=
  .object [("offset", .number position.offset), ("line", .number position.line),
    ("column", .number position.column)]

/-- The tag of a kind of bracket. -/
def Bracket.tag : Bracket → String
  | .parenthesis => "Parenthesis"
  | .brace => "Brace"

/-- A bracket as JSON, with its direction. -/
def Bracket.toJson (bracket : Bracket) (opening : Bool) : Json :=
  .tagged bracket.tag (.tagged "is_opening" (.boolean opening))

/-- What a token is, as JSON. -/
def TokenKind.toJson : TokenKind → Json
  | .keyword k => .tagged "Keyword" (.text k.tag)
  | .name n => .tagged "Name" (.text n)
  | .copula => .text "Copula"
  | .number value => .tagged "Number" (.number value)
  | .text t => .tagged "String" (.text t)
  | .boolean word => .tagged "Boolean" (.text word)
  | .null => .text "Null"
  | .operator word => .tagged "Operator" (.text word)
  | .semicolon => .text "Semicolon"
  | .opening bracket => bracket.toJson true
  | .closing bracket => bracket.toJson false

/-- A token as JSON. -/
def Token.toJson (token : Token) : Json :=
  .object [("data", token.kind.toJson), ("position", token.position.toJson)]

/-- A token list as JSON text. -/
def Token.dump (tokens : List Token) : String :=
  (Json.array (tokens.map Token.toJson)).pretty

end LatinToScript
