import LatinToScript.Program.Basic

/-!
# Faults of a token list

Why a token list is no program, where the fault is, and the text of the message.
-/

namespace LatinToScript

/-- How many blocks and parentheses may enclose one another. -/
def nestingLimit : Nat :=
  256

/-- What the grammar asks for at a token. -/
inductive Expectation where
  | name
  | copula
  | operator
  | closingParenthesis
  | expression
deriving DecidableEq, Repr

/-- How messages name what is asked for. -/
def Expectation.describe : Expectation → String
  | .name => "a variable name"
  | .copula => "'" ++ copulaWord ++ "'"
  | .operator => "an operator"
  | .closingParenthesis => "')'"
  | .expression => "an expression"

/-- What a block belongs to: a control statement, or nothing. -/
inductive BlockOwner where
  | control (control : Control)
  | bare
deriving DecidableEq, Repr

/-- How messages name the statement that a block belongs to. -/
def BlockOwner.describe : BlockOwner → String
  | .control c => c.native ++ " statement"
  | .bare => "block statement"

/-- Why a token list is no program. -/
inductive ParseError where
  | unexpectedEnd
  /-- A token that starts no statement. -/
  | unexpectedToken (found : TokenKind) (position : Position)
  | expected (expectation : Expectation) (found : TokenKind) (position : Position)
  /-- A control statement whose condition is no relation; the place is that of the keyword. -/
  | missingCondition (control : Control) (position : Position)
  | missingOpeningBrace (position : Position)
  /-- A block that does not end; the place is that of its opening brace. -/
  | missingClosingBrace (owner : BlockOwner) (position : Position)
  | emptyDeclaration (position : Position)
  | nestingTooDeep (position : Position)
deriving DecidableEq, Repr

namespace ParseError

/-- Where the fault is; the end of the tokens has no place. -/
def position? : ParseError → Option Position
  | .unexpectedEnd => none
  | .unexpectedToken _ position => some position
  | .expected _ _ position => some position
  | .missingCondition _ position => some position
  | .missingOpeningBrace position => some position
  | .missingClosingBrace _ position => some position
  | .emptyDeclaration position => some position
  | .nestingTooDeep position => some position

/-- The text of the message. -/
def message : ParseError → String
  | .unexpectedEnd => "unexpected end of input"
  | .unexpectedToken found position =>
    "unexpected " ++ found.describe ++ " at " ++ position.describe
  | .expected expectation found position =>
    "expected " ++ expectation.describe ++ ", found " ++ found.describe ++ " at "
      ++ position.describe
  | .missingCondition control position =>
    "expected condition after \"" ++ control.native ++ "\" at " ++ position.describe
  | .missingOpeningBrace position =>
    "expected '\x7b' after condition at " ++ position.describe
  | .missingClosingBrace owner position =>
    "expected '\x7d' after " ++ owner.describe ++ " body at " ++ position.describe
  | .emptyDeclaration position =>
    "declaration without any declarators at " ++ position.describe
  | .nestingTooDeep position =>
    "nesting deeper than " ++ Decimal.ofNat nestingLimit ++ " levels at " ++ position.describe

end ParseError

end LatinToScript
