import LatinToScript.Token.Dump
import LatinToScript.Program.Basic

/-!
# Programs as JSON
-/

namespace LatinToScript

/-- The tag of a native declaring keyword. -/
def Binding.nativeTag : Binding → String
  | .dico => "Var"
  | .constituo => "Const"
  | .pono => "Let"

/-- The tag of a declaration's wording. -/
def DeclarationKind.tag : DeclarationKind → String
  | .latin b => b.latinTag
  | .native b => b.nativeTag

/-- A boolean literal as JSON. -/
def BooleanValue.toJson : BooleanValue → Json
  | .word w => .tagged "Word" (.text w)
  | .native value => .tagged "Native" (.boolean value)

/-- A null literal as JSON. -/
def NullValue.toJson : NullValue → Json
  | .word w => .tagged "Word" (.text w)
  | .native => .text "Native"

/-- The parts of a relation as JSON, given those of its operands. -/
def Relation.membersJson (left : Json) (operator : String) (right : Json) : Json :=
  .object [("left", left), ("operator", .text operator), ("right", right)]

/-- An expression as JSON. -/
def Expression.toJson : Expression → Json
  | .name n => .tagged "Identifier" (.tagged "name" (.text n))
  | .number value => .tagged "Number" (.tagged "value" (.number value))
  | .text t => .tagged "String" (.tagged "value" (.text t))
  | .boolean value => .tagged "Boolean" (.tagged "value" value.toJson)
  | .null value => .tagged "Null" (.tagged "value" value.toJson)
  | .relation left operator right =>
    .tagged "Binary" (Relation.membersJson left.toJson operator right.toJson)

/-- A relation as JSON. -/
def Relation.toJson (r : Relation) : Json :=
  Relation.membersJson r.left.toJson r.operator r.right.toJson

/-- A declarator as JSON. -/
def Declarator.toJson (d : Declarator) : Json :=
  .object [("id", .tagged "name" (.text d.name)), ("init", d.value.toJson)]

/-- A declaration as JSON. -/
def Declaration.toJson (d : Declaration) : Json :=
  .object [("kind", .text d.kind.tag),
    ("declarations", .array (d.declarators.map Declarator.toJson))]

/-- A block as JSON, given its statements. -/
def blockJson (statements : List Json) : Json :=
  .tagged "body" (.array statements)

mutual

/-- A statement as JSON. -/
def Statement.toJson : Statement → Json
  | .declaration d => .tagged "VariableDeclaration" d.toJson
  | .binding d => .tagged "VariableDeclarator" d.toJson
  | .conditional test consequent alternate =>
    .tagged "If" (.object [("test", test.toJson),
      ("consequent", blockJson (Statement.elementsJson consequent)),
      ("alternate", Statement.alternateJson alternate)])
  | .loop test body =>
    .tagged "While" (.object [("test", test.toJson),
      ("body", blockJson (Statement.elementsJson body))])
  | .block body => .tagged "Block" (blockJson (Statement.elementsJson body))
  | .expression e => .tagged "Expression" e.toJson

/-- Some statements as JSON, each by itself. -/
def Statement.elementsJson : List Statement → List Json
  | [] => []
  | s :: ss => s.toJson :: Statement.elementsJson ss

/-- The second block of a choice as JSON. -/
def Statement.alternateJson : Option (List Statement) → Json
  | none => .null
  | some body => blockJson (Statement.elementsJson body)

end

/-- A program as JSON. -/
def Program.toJson (p : Program) : Json :=
  blockJson (Statement.elementsJson p.body)

/-- A program as JSON text. -/
def Program.dump (p : Program) : String :=
  p.toJson.pretty

end LatinToScript
