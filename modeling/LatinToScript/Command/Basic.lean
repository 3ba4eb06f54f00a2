import LatinToScript.Compile

/-!
# Commands

The arguments of the command line: `build SOURCE` with the options `-o PATH`, `--output PATH` and
`--emit js|tokens|ast`, and `eval CODE`.
-/

namespace LatinToScript

/-- What can be asked for on the command line. -/
inductive Command where
  /-- Compile a file; the result goes to a file or is printed. -/
  | build (source : String) (output : Option String) (emission : Emission)
  /-- Compile a text. -/
  | eval (code : String)
deriving DecidableEq, Repr

/-- The form that a word of the command line asks for. -/
def Emission.ofWord? : String → Option Emission
  | "js" => some .script
  | "tokens" => some .tokens
  | "ast" => some .program
  | _ => none

namespace Command

/-- The arguments of `build` as far as they have been read. -/
structure BuildArguments where
  source : Option String := none
  output : Option String := none
  emission : Option Emission := none

namespace BuildArguments

/-- Takes the only positional argument. -/
def setSource? (arguments : BuildArguments) (value : String) : Option BuildArguments :=
  match arguments.source with
  | none => some { arguments with source := some value }
  | some _ => none

/-- Takes the output file, which can be given once. -/
def setOutput? (arguments : BuildArguments) (value : String) : Option BuildArguments :=
  match arguments.output with
  | none => some { arguments with output := some value }
  | some _ => none

/-- Takes the form of the output, which can be given once. -/
def setEmission? (arguments : BuildArguments) (value : String) : Option BuildArguments :=
  match arguments.emission, Emission.ofWord? value with
  | none, some emission => some { arguments with emission := some emission }
  | _, _ => none

/-- Takes an option by its long name. -/
def setOption? (arguments : BuildArguments) (name value : String) : Option BuildArguments :=
  match name with
  | "output" => arguments.setOutput? value
  | "emit" => arguments.setEmission? value
  | _ => none

/-- The command, if the source is known. -/
def toCommand? (arguments : BuildArguments) : Option Command :=
  arguments.source.map fun source =>
    .build source arguments.output (arguments.emission.getD .script)

end BuildArguments

/-- Whether an argument can be the value of the option in front of it: options cannot. -/
def isValue (argument : String) : Bool :=
  argument.toList.head? ≠ some '-' || argument = "-"

/-- How an argument is to be read. -/
inductive Argument where
  /-- All arguments behind it are positional. -/
  | separator
  | positional (value : String)
  /-- An option, by its long name, with its value if that is part of the argument. -/
  | option (name : String) (value : Option String)
  | unknown
deriving DecidableEq, Repr

/-- An option by its long name, with its value behind an equals sign. -/
def Argument.ofLong (text : List Char) : Argument :=
  let name := String.ofList (text.takeWhile (· ≠ '='))
  match text.dropWhile (· ≠ '=') with
  | [] => .option name none
  | _ :: value => .option name (some (String.ofList value))

/-- How an argument of `build` is to be read. -/
def Argument.ofBuild (argument : String) : Argument :=
  match argument.toList with
  | ['-', '-'] => .separator
  | '-' :: '-' :: long => .ofLong long
  | ['-', 'o'] => .option "output" none
  | '-' :: 'o' :: '=' :: value => .option "output" (some (String.ofList value))
  | '-' :: 'o' :: value => .option "output" (some (String.ofList value))
  | ['-'] => .positional argument
  | '-' :: _ => .unknown
  | _ => .positional argument

/-- How an argument of `eval` is to be read; there are no options. -/
def Argument.ofEval (argument : String) : Argument :=
  match argument.toList with
  | ['-', '-'] => .separator
  | ['-'] => .positional argument
  | '-' :: _ => .unknown
  | _ => .positional argument

/-- Reads the arguments behind `build`. -/
def readBuild? (arguments : BuildArguments) : List String → Option BuildArguments
  | [] => some arguments
  | argument :: rest =>
    match Argument.ofBuild argument with
    | .separator => rest.foldlM BuildArguments.setSource? arguments
    | .positional value =>
      match arguments.setSource? value with
      | none => none
      | some arguments => readBuild? arguments rest
    | .option name (some value) =>
      match arguments.setOption? name value with
      | none => none
      | some arguments => readBuild? arguments rest
    | .option name none =>
      match rest with
      | [] => none
      | value :: rest =>
        if isValue value then
          match arguments.setOption? name value with
          | none => none
          | some arguments => readBuild? arguments rest
        else
          none
    | .unknown => none

/-- The positional arguments of `eval`. -/
def readEval? : List String → Option (List String)
  | [] => some []
  | argument :: rest =>
    match Argument.ofEval argument with
    | .separator => some rest
    | .positional value => (readEval? rest).map (value :: ·)
    | _ => none

/-- The command that some arguments ask for, if they are well formed. -/
def ofArguments? : List String → Option Command
  | "build" :: rest => (readBuild? {} rest).bind BuildArguments.toCommand?
  | "eval" :: rest =>
    match readEval? rest with
    | some [code] => some (.eval code)
    | _ => none
  | _ => none

end Command

end LatinToScript
