import LatinToScript.Compile
import LatinToScript.Position

/-!
# Diagnostics

What is reported when something fails: a code, the stage that failed, a message, and, where they
exist, places in the source, notes and advice.
-/

namespace LatinToScript

/-- The stages that can fail. -/
inductive Stage where
  | tokenize
  | parse
  | io
  | internal
deriving DecidableEq, Repr

/-- How reports name a stage. -/
def Stage.describe : Stage → String
  | .tokenize => "tokenize"
  | .parse => "parse"
  | .io => "io"
  | .internal => "internal"

/-- A message about a span of the source. -/
structure Label where
  span : Span
  message : String
deriving DecidableEq, Repr

/-- A source text and the name of the file it comes from. -/
structure SourceText where
  file : String
  text : String
deriving DecidableEq, Repr

/-- What is reported when something fails. -/
structure Diagnostic where
  code : String
  stage : Stage
  message : String
  labels : List Label := []
  notes : List String := []
  help : Option String := none
  source : Option SourceText := none
deriving DecidableEq, Repr

namespace Diagnostic

/-- The diagnostic about a given source. -/
def withSource (d : Diagnostic) (source : SourceText) : Diagnostic :=
  { d with source := some source }

/-- The diagnostic with one more label. -/
def withLabel (d : Diagnostic) (label : Label) : Diagnostic :=
  { d with labels := d.labels ++ [label] }

/-- The diagnostic with one more note. -/
def withNote (d : Diagnostic) (note : String) : Diagnostic :=
  { d with notes := d.notes ++ [note] }

/-- The diagnostic with an advice in the place of an earlier one. -/
def withHelp (d : Diagnostic) (help : String) : Diagnostic :=
  { d with help := some help }

/-- The diagnostic for a chain of causes, the outermost first. It joins the message, and the others
become notes. -/
def withCauses (d : Diagnostic) : List String → Diagnostic
  | [] => d
  | primary :: causes =>
    causes.foldl (fun d cause => d.withNote ("caused by: " ++ cause))
      { d with message := d.message ++ ": " ++ primary }

/-- The name under which reports show a source. -/
def fileName (path : Option String) : String :=
  path.getD "<memory>"

/-- The diagnostic for a failed compilation, before any place is named. -/
def ofStage : CompileError → Diagnostic
  | .token _ =>
    { code := "LATINC-TOKENIZE-001", stage := .tokenize, message := "tokenization failed" }
  | .parse _ =>
    { code := "LATINC-PARSE-001", stage := .parse, message := "parse failed" }

/-- The diagnostic for a failed compilation. It points at the character where the fault is. -/
def ofCompileError (source : String) (path : Option String) (e : CompileError) : Diagnostic :=
  let d := (ofStage e).withSource ⟨fileName path, source⟩
  match e.position? with
  | some position =>
    (d.withLabel ⟨Span.ofPosition source.toList position, e.message⟩).withNote
      ("at line " ++ Decimal.ofNat position.line ++ ", column " ++ Decimal.ofNat position.column)
  | none =>
    (d.withNote e.message).withHelp
      "every statement must be complete before the end of the file"

/-- What failed, in one line. -/
def headline (d : Diagnostic) : String :=
  "error[" ++ d.stage.describe ++ ":" ++ d.code ++ "]: " ++ d.message

end Diagnostic

end LatinToScript
