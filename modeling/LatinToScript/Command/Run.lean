import LatinToScript.Command.Basic
import LatinToScript.Diagnostic.Report
import LatinToScript.Files.SourceFile

/-!
# Running commands

A command reads and writes through a file system and ends with an exit status and two texts, one for
each output stream.
-/

namespace LatinToScript

/-- How a command ends. -/
structure Outcome where
  status : Nat
  output : String
  errors : String
deriving DecidableEq, Repr

namespace Outcome

/-- The end of a command that prints a result. -/
def printed (text : String) : Outcome :=
  ⟨0, text ++ "\n", ""⟩

/-- The end of a command that has nothing to print. -/
def silent : Outcome :=
  ⟨0, "", ""⟩

/-- The end of a command that failed. -/
def failed (d : Diagnostic) : Outcome :=
  ⟨1, "", d.render ++ "\n"⟩

end Outcome

/-- The diagnostic for a file that cannot be read or written. -/
def Diagnostic.ofFileFailure (failure : FileFailure) : Diagnostic :=
  let message :=
    match failure with
    | .read _ _ => "failed to read source"
    | _ => "failed to write output"
  let d : Diagnostic := { code := "LATINC-IO-001", stage := .io, message := message }
  d.withCauses failure.chain

namespace Command

variable {m : Type → Type} [Monad m]

/-- Puts a result out. -/
def deliver (files : FileSystem m) (output : Option String) (text : String) : m Outcome :=
  match output with
  | none => return .printed text
  | some path => do
    match ← writeOutput files path text with
    | .error failure => return .failed (.ofFileFailure failure)
    | .ok () => return .silent

/-- Runs a command. -/
def run (files : FileSystem m) : Command → m Outcome
  | .build source output emission => do
    match ← readSource files source with
    | .error failure => return .failed (.ofFileFailure failure)
    | .ok text =>
      match emit emission text with
      | .error e => return .failed (.ofCompileError text (some source) e)
      | .ok result => deliver files output result
  | .eval code =>
    match compile code with
    | .error e => return .failed (.ofCompileError code none e)
    | .ok script => return .printed script

end Command

end LatinToScript
