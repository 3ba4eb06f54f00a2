import LatinToScript.Token.Scan
import LatinToScript.Token.Dump
import LatinToScript.Program.Parse
import LatinToScript.Program.Native
import LatinToScript.Program.Script
import LatinToScript.Program.Dump

/-!
# Compiling

From the source text to the script, or to one of the forms in between.
-/

namespace LatinToScript

/-- Why a source has no script. -/
inductive CompileError where
  | token (error : TokenError)
  | parse (error : ParseError)
deriving DecidableEq, Repr

namespace CompileError

/-- Where the fault is. -/
def position? : CompileError → Option Position
  | .token e => some e.position
  | .parse e => e.position?

/-- The text of the message. -/
def message : CompileError → String
  | .token e => e.message
  | .parse e => e.message

end CompileError

/-- The program of a source text, in its Latin words. -/
def Program.ofSource (source : String) : Except CompileError Program :=
  match Token.ofSource source with
  | .error e => .error (.token e)
  | .ok tokens =>
    match Program.ofTokens tokens with
    | .error e => .error (.parse e)
    | .ok program => .ok program

/-- The script of a source text. -/
def compile (source : String) : Except CompileError String :=
  match Program.ofSource source with
  | .error e => .error e
  | .ok program => .ok program.toNative.script

/-- The forms in which a source can be put out. -/
inductive Emission where
  | script
  | tokens
  | program
deriving DecidableEq, Repr

/-- A source text in one of the forms. Only the stages that the form needs are run. -/
def emit (emission : Emission) (source : String) : Except CompileError String :=
  match Token.ofSource source with
  | .error e => .error (.token e)
  | .ok tokens =>
    if emission = .tokens then
      .ok (Token.dump tokens)
    else
      match Program.ofTokens tokens with
      | .error e => .error (.parse e)
      | .ok program =>
        if emission = .program then .ok program.dump else .ok program.toNative.script

/-- Apart from the tokens, what is put out is made from the program. -/
theorem emit_of_ne_tokens (emission : Emission) (source : String) (other : emission ≠ .tokens) :
    emit emission source = (Program.ofSource source).map fun program =>
      if emission = .program then program.dump else program.toNative.script := by
  rw [emit, Program.ofSource]
  cases Token.ofSource source with
  | error e => rfl
  | ok tokens =>
    dsimp only
    rw [if_neg other]
    cases Program.ofTokens tokens with
    | error e => rfl
    | ok program =>
      dsimp only
      split <;> rfl

/-- The script that is put out is the one that is compiled. -/
theorem emit_script (source : String) : emit .script source = compile source := by
  rw [emit_of_ne_tokens .script source (by decide), compile]
  cases Program.ofSource source with
  | error e => rfl
  | ok program => rfl

/-- The program that is put out is the one in the Latin words. -/
theorem emit_program (source : String) : emit .program source = (Program.ofSource source).map Program.dump :=
  emit_of_ne_tokens .program source (by decide)

end LatinToScript
