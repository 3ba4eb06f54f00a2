import LatinToScript.Compile
import LatinToScript.Files.Basic

/-!
# Source files

Reading sources from files and writing what was made of them to files.
-/

namespace LatinToScript

/-- What was tried with a file when it failed, and why. -/
inductive FileFailure where
  | read (path : String) (cause : FileError)
  | createDirectory (path : String) (cause : FileError)
  | write (path : String) (cause : FileError)
deriving DecidableEq, Repr

namespace FileFailure

/-- What was tried. -/
def message : FileFailure → String
  | .read path _ => "failed to read source file " ++ path
  | .createDirectory path _ => "failed to create directory " ++ path
  | .write path _ => "failed to write output file " ++ path

/-- Why it failed. -/
def cause : FileFailure → FileError
  | .read _ e => e
  | .createDirectory _ e => e
  | .write _ e => e

/-- What was tried and why it failed, as a chain of causes. -/
def chain (failure : FileFailure) : List String :=
  [failure.message, failure.cause.message]

end FileFailure

/-- Why a file has no script. -/
inductive CompileFileError where
  | file (failure : FileFailure)
  | compile (error : CompileError)
deriving DecidableEq, Repr

variable {m : Type → Type} [Monad m]

/-- The text of a source file. -/
def readSource (files : FileSystem m) (path : String) : m (Except FileFailure String) := do
  match ← files.read path with
  | .error e => return .error (.read path e)
  | .ok content =>
    match String.fromUTF8? content with
    | none => return .error (.read path .notText)
    | some source => return .ok source

/-- The script of a source file. -/
def compileFile (files : FileSystem m) (path : String) : m (Except CompileFileError String) := do
  match ← readSource files path with
  | .error failure => return .error (.file failure)
  | .ok source =>
    match LatinToScript.compile source with
    | .error e => return .error (.compile e)
    | .ok script => return .ok script

/-- The directory that must be there before a file can be written. -/
def outputDirectory? (path : String) : Option String :=
  (Path.parent? path).filter fun directory => directory ≠ ""

/-- Makes the directory of an output file if it is missing. -/
def prepareOutput (files : FileSystem m) (path : String) : m (Except FileFailure Unit) :=
  match outputDirectory? path with
  | none => return .ok ()
  | some directory => do
    match ← files.createDirectories directory with
    | .error e => return .error (.createDirectory directory e)
    | .ok () => return .ok ()

/-- Writes a text to an output file. -/
def writeOutput (files : FileSystem m) (path text : String) : m (Except FileFailure Unit) := do
  match ← prepareOutput files path with
  | .error failure => return .error failure
  | .ok () =>
    match ← files.write path text.toUTF8 with
    | .error e => return .error (.write path e)
    | .ok () => return .ok ()

end LatinToScript
