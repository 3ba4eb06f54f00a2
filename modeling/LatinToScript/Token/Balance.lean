import LatinToScript.Token.Basic

/-!
# Balanced brackets

Each kind of bracket must close by itself; that the two kinds do not cross is the grammar's matter.
-/

namespace LatinToScript

/-- The places of the brackets still open, for each kind the innermost first. -/
structure OpenBrackets where
  parentheses : List Position := []
  braces : List Position := []

namespace OpenBrackets

/-- The open brackets of one kind. -/
def get (brackets : OpenBrackets) : Bracket → List Position
  | .parenthesis => brackets.parentheses
  | .brace => brackets.braces

/-- The open brackets with those of one kind replaced. -/
def set (brackets : OpenBrackets) (bracket : Bracket) (positions : List Position) : OpenBrackets :=
  match bracket with
  | .parenthesis => { brackets with parentheses := positions }
  | .brace => { brackets with braces := positions }

/-- The complaint at the end of the tokens: the outermost open parenthesis, else the outermost open
brace. -/
def close (brackets : OpenBrackets) : Except TokenError Unit :=
  match brackets.parentheses.getLast?, brackets.braces.getLast? with
  | some position, _ => .error (.unmatchedOpening .parenthesis position)
  | none, some position => .error (.unmatchedOpening .brace position)
  | none, none => .ok ()

/-- Reads tokens with some brackets open; a closing bracket without an open one is reported at
once. -/
def check (brackets : OpenBrackets) : List Token → Except TokenError Unit
  | [] => brackets.close
  | token :: tokens =>
    match token.kind with
    | .opening bracket =>
      (brackets.set bracket (token.position :: brackets.get bracket)).check tokens
    | .closing bracket =>
      match brackets.get bracket with
      | [] => .error (.unmatchedClosing bracket token.position)
      | _ :: outer => (brackets.set bracket outer).check tokens
    | _ => brackets.check tokens

end OpenBrackets

/-- Whether every bracket of a token list has its partner. -/
def checkBalance (tokens : List Token) : Except TokenError Unit :=
  ({} : OpenBrackets).check tokens

end LatinToScript
