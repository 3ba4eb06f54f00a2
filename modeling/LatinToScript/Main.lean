import LatinToScript.Command.Run

/-!
# The program

Runs the command that the arguments ask for on the file system of the machine.
-/

namespace LatinToScript

/-- How the program is called. -/
def usage : String :=
  "usage: build SOURCE [-o PATH] [--emit js|tokens|ast]\n       eval CODE\n"

/-- Why an operation of the machine failed. -/
def FileError.ofMachine : IO.Error → FileError
  | .alreadyExists .. => .alreadyExists
  | .inappropriateType .. => .isDirectory
  | _ => .notFound

/-- The result of an operation of the machine. -/
def attempt {α : Type} (action : IO α) : IO (Except FileError α) := do
  match ← action.toBaseIO with
  | .ok a => return .ok a
  | .error e => return .error (.ofMachine e)

/-- The file system of the machine. -/
def machine : FileSystem IO where
  read path := attempt (IO.FS.readBinFile path)
  createDirectories path := attempt (IO.FS.createDirAll path)
  write path content := attempt (IO.FS.writeBinFile path content)

end LatinToScript

open LatinToScript in
/-- Runs the command that the arguments ask for; arguments that ask for none end with status 2. -/
def main (arguments : List String) : IO UInt32 := do
  match Command.ofArguments? arguments with
  | none =>
    IO.eprint usage
    return 2
  | some command =>
    let outcome ← command.run machine
    IO.print outcome.output
    IO.eprint outcome.errors
    return UInt32.ofNat outcome.status
