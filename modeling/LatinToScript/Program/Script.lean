import LatinToScript.Program.Basic

/-!
# The script of a program

A program as text. Each statement starts on a line of its own, and so does each declarator; a
relation inside a relation stands in parentheses.
-/

namespace LatinToScript

/-- How a boolean literal is written. -/
def BooleanValue.script : BooleanValue → String
  | .word w => w
  | .native true => "true"
  | .native false => "false"

/-- How a null literal is written. -/
def NullValue.script : NullValue → String
  | .word w => w
  | .native => "null"

/-- How an operand is written, given how it is written outside a relation. -/
def Expression.parenthesize (e : Expression) (script : String) : String :=
  match e with
  | .relation _ _ _ => "(" ++ script ++ ")"
  | _ => script

/-- How an expression is written. -/
def Expression.script : Expression → String
  | .name n => n
  | .number value => Decimal.ofInt value
  | .text t => "\"" ++ t ++ "\""
  | .boolean value => value.script
  | .null value => value.script
  | .relation left operator right =>
    left.parenthesize left.script ++ " " ++ operator ++ " " ++ right.parenthesize right.script

/-- How a relation is written. -/
def Relation.script (r : Relation) : String :=
  r.toExpression.script

/-- How a name and its value are written. -/
def Declarator.script (d : Declarator) : String :=
  d.name ++ " = " ++ d.value.script ++ ";"

/-- Texts in lines of their own. -/
def joinLines (texts : List String) : String :=
  String.intercalate "\n" texts

/-- How a declaration is written. -/
def Declaration.script (d : Declaration) : String :=
  d.kind.word ++ " " ++ joinLines (d.declarators.map Declarator.script)

/-- How a block is written, given how its statements are. -/
def braced (scripts : List String) : String :=
  "\x7b" ++ joinLines scripts ++ "\x7d"

mutual

/-- How a statement is written. -/
def Statement.script : Statement → String
  | .declaration d => d.script
  | .binding d => d.script
  | .conditional test consequent alternate =>
    Control.si.native ++ " (" ++ test.script ++ ") " ++ braced (Statement.scripts consequent)
      ++ Statement.scriptAlternate alternate
  | .loop test body =>
    Control.dum.native ++ " (" ++ test.script ++ ") " ++ braced (Statement.scripts body)
  | .block body => braced (Statement.scripts body)
  | .expression e => e.script

/-- How some statements are written, each by itself. -/
def Statement.scripts : List Statement → List String
  | [] => []
  | s :: ss => s.script :: Statement.scripts ss

/-- How the second block of a choice is written. -/
def Statement.scriptAlternate : Option (List Statement) → String
  | none => ""
  | some body => " else " ++ braced (Statement.scripts body)

end

/-- The text of a program. -/
def Program.script (p : Program) : String :=
  joinLines (Statement.scripts p.body)

end LatinToScript
