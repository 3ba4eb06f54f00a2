import LatinToScript.Token.Basic

/-!
# Programs

The tree of a program. Words of the source language stay in the tree as they were written until
they are exchanged for the native ones of the script language, so each place that holds such a word
can hold either.
-/

namespace LatinToScript

/-- The keyword of a declaration in the script language. -/
def Binding.native : Binding → String
  | .dico => "var"
  | .constituo => "const"
  | .pono => "let"

/-- The keyword of a control statement in the script language. -/
def Control.native : Control → String
  | .si => "if"
  | .dum => "while"

/-- How a declaration is worded: by the Latin keyword or by the native one. -/
inductive DeclarationKind where
  | latin (binding : Binding)
  | native (binding : Binding)
deriving DecidableEq, Repr

namespace DeclarationKind

/-- How the keyword of a declaration is written. -/
def word : DeclarationKind → String
  | .latin b => b.latin
  | .native b => b.native

/-- The declaration that a keyword starts, if it starts one. -/
def ofKeyword? : Keyword → Option DeclarationKind
  | .declare b => some (.latin b)
  | .control _ => none

end DeclarationKind

/-- A boolean literal: a word of the source, or a truth value. -/
inductive BooleanValue where
  | word (word : String)
  | native (value : Bool)
deriving DecidableEq, Repr

/-- A null literal: a word of the source, or the native null. -/
inductive NullValue where
  | word (word : String)
  | native
deriving DecidableEq, Repr

/-- What has a value. -/
inductive Expression where
  | name (name : String)
  | number (value : Int)
  | text (text : String)
  | boolean (value : BooleanValue)
  | null (value : NullValue)
  | relation (left : Expression) (operator : String) (right : Expression)
deriving DecidableEq, Repr

/-- Two operands and the operator between them. -/
structure Relation where
  left : Expression
  operator : String
  right : Expression
deriving DecidableEq, Repr

/-- A relation as an expression. -/
def Relation.toExpression (relation : Relation) : Expression :=
  .relation relation.left relation.operator relation.right

/-- A name and its value. -/
structure Declarator where
  name : String
  value : Expression
deriving DecidableEq, Repr

/-- Names declared with one keyword. -/
structure Declaration where
  kind : DeclarationKind
  declarators : List Declarator
deriving DecidableEq, Repr

/-- What a program does step by step. -/
inductive Statement where
  | declaration (declaration : Declaration)
  /-- A name bound to a value without a keyword. -/
  | binding (declarator : Declarator)
  | conditional (test : Relation) (consequent : List Statement)
      (alternate : Option (List Statement))
  | loop (test : Relation) (body : List Statement)
  | block (body : List Statement)
  | expression (expression : Expression)
deriving Repr

/-- A choice between two blocks, the second of which may be missing. -/
structure Conditional where
  test : Relation
  consequent : List Statement
  alternate : Option (List Statement)

/-- A block repeated while a relation holds. -/
structure Loop where
  test : Relation
  body : List Statement

/-- A whole program. -/
structure Program where
  body : List Statement
deriving Repr

end LatinToScript
