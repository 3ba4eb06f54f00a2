import LatinToScript.Command.Run
import LatinToScript.Proofs.Files.Laws

/-!
# Effects of commands

What a command leaves behind on a file system that keeps the laws, and with which exit status and which texts on
its two output streams it ends. A `build` ends in one of five ways (`Command.BuildEnds`), and only when it has
written its output, or has failed to, is the file system not exactly as it was. An `eval` does nothing with files,
and it ends as a `build` of a file with its code does, up to the name of this file (`Command.run_effects`).
-/

namespace LatinToScript

variable {σ π : Type} {files : FileSystem (StateM σ)} {view : FileView σ π} {s : σ} {path text : String}

/-! ## Files -/

/-- The file at a path has been given a content, and no other file has changed. -/
def FileView.Written (view : FileView σ π) (path : String) (content : ByteArray) (s s' : σ) : Prop :=
  ∃ a, view.place s' path = some a ∧ view.entry s' a = some (.file content) ∧
    ∀ b, b ≠ a → Entry.Kept (view.entry s b) (view.entry s' b)

/-- A command that goes on behind another one starts in the state that the first one has left. -/
lemma run_bind_of_eq {α β : Type} {x : StateM σ α} {a : α} {s' : σ} (eq : x.run s = (a, s'))
    (f : α → StateM σ β) : (x >>= f).run s = (f a).run s' := by
  rw [StateT.run_bind, eq]
  rfl

section Laws

variable (laws : files.Laws view)

include laws

/-- Reading a file changes nothing. -/
lemma run_read (path : String) (s : σ) : (files.read path).run s = (((files.read path).run s).1, s) :=
  Prod.ext rfl (laws.read_state path s)

/-- Reading a source changes nothing, whether or not it is a text. -/
lemma run_readSource (path : String) (s : σ) :
    (readSource files path).run s = (((readSource files path).run s).1, s) := by
  rw [readSource, run_bind_of_eq (run_read laws path s)]
  cases ((files.read path).run s).1 with
  | error e => rfl
  | ok content =>
    dsimp only
    cases String.fromUTF8? content <;> rfl

/-- A file that holds a text is read as this text. -/
lemma readSource_of_file {a : π} (leads : view.place s path = some a)
    (found : view.entry s a = some (.file text.toUTF8)) : ((readSource files path).run s).1 = .ok text := by
  have back : String.fromUTF8? text.toUTF8 = some text := dif_pos text.isValidUTF8
  rw [readSource, run_bind_of_eq (run_read laws path s), laws.read_file path s a _ leads found]
  dsimp only
  rw [back]
  rfl

/-- The directory of an output file is made without a change to any file. -/
lemma run_prepareOutput (path : String) (s : σ) :
    ∃ ready s', (prepareOutput files path).run s = (ready, s') ∧ view.Spared s s' := by
  rw [prepareOutput]
  cases outputDirectory? path with
  | none => exact ⟨.ok (), s, rfl, fun _ => .same⟩
  | some directory =>
    have spared := laws.createDirectories directory s
    dsimp only
    cases eq : (files.createDirectories directory).run s with | mk made s' =>
    rw [eq] at spared
    rw [run_bind_of_eq eq]
    cases made with
    | error e => exact ⟨_, s', rfl, spared⟩
    | ok _ => exact ⟨_, s', rfl, spared⟩

/-- An output file is written, or no file changes. -/
lemma run_writeOutput (path text : String) (s : σ) :
    (∃ failure s', (writeOutput files path text).run s = (.error failure, s') ∧ view.Spared s s') ∨
      ∃ s', (writeOutput files path text).run s = (.ok (), s') ∧ view.Written path text.toUTF8 s s' := by
  obtain ⟨ready, s₁, eq, spared⟩ := run_prepareOutput laws path s
  rw [writeOutput, run_bind_of_eq eq]
  cases ready with
  | error failure => exact .inl ⟨failure, s₁, rfl, spared⟩
  | ok _ =>
    have unwritten := laws.write_error path text.toUTF8 s₁
    have written := laws.write_ok path text.toUTF8 s₁
    dsimp only
    cases eqw : (files.write path text.toUTF8).run s₁ with | mk result s₂ =>
    rw [eqw] at unwritten written
    rw [run_bind_of_eq eqw]
    cases result with
    | error e =>
      refine .inl ⟨_, s₂, rfl, ?_⟩
      intro a
      rw [unwritten e rfl a]
      exact spared a
    | ok _ =>
      obtain ⟨a, leads, found, others⟩ := written rfl
      refine .inr ⟨s₂, rfl, a, leads, found, ?_⟩
      intro b ne
      rw [others b ne]
      exact spared b

end Laws

/-! ## Diagnostics -/

/-- The diagnostic under another name of the source. -/
def Diagnostic.inFile (d : Diagnostic) (file : String) : Diagnostic :=
  { d with source := d.source.map fun source => { source with file } }

/-- Only the name of the source in a diagnostic comes from the path. -/
lemma Diagnostic.inFile_ofCompileError (source : String) (path path' : Option String) (e : CompileError) :
    (ofCompileError source path e).inFile (fileName path') = ofCompileError source path' e := by
  rw [ofCompileError, ofCompileError]
  cases e.position? <;> rfl

/-! ## Ends -/

namespace Outcome

variable {o o' : Outcome} {d : Diagnostic} {output file file' : String}

/-- A command has done its work: it has the exit status zero, and it has printed a text and no complaint. -/
structure Succeeds (o : Outcome) (output : String) : Prop where
  status : o.status = 0
  output : o.output = output
  errors : o.errors = ""

/-- A command has failed: it has the exit status one, and all that it has written is a diagnostic and a line feed
on the stream for errors. -/
structure Fails (o : Outcome) (d : Diagnostic) : Prop where
  status : o.status = 1
  output : o.output = ""
  errors : o.errors = d.render ++ "\n"

/-- Two ends with one exit status and one output. If they are failures, their diagnostics differ in the name of
the source only, which is another one in each. -/
structure AlikeIn (file file' : String) (o o' : Outcome) : Prop where
  status : o.status = o'.status
  output : o.output = o'.output
  success : o.status = 0 → o.errors = "" ∧ o'.errors = ""
  failure : o.status ≠ 0 → ∃ d : Diagnostic, o.Fails (d.inFile file) ∧ o'.Fails (d.inFile file')

/-- What is printed has a line feed behind it. -/
lemma succeeds_printed (text : String) : (printed text).Succeeds (text ++ "\n") :=
  ⟨rfl, rfl, rfl⟩

/-- A silent end is a success with nothing printed. -/
lemma succeeds_silent : silent.Succeeds "" :=
  ⟨rfl, rfl, rfl⟩

/-- A failed end shows its diagnostic. -/
lemma fails_failed (d : Diagnostic) : (failed d).Fails d :=
  ⟨rfl, rfl, rfl⟩

/-- Two successes that print the same text are alike. -/
lemma Succeeds.alikeIn (first : o.Succeeds output) (second : o'.Succeeds output) : AlikeIn file file' o o' where
  status := by rw [first.status, second.status]
  output := by rw [first.output, second.output]
  success _ := ⟨first.errors, second.errors⟩
  failure ne := absurd first.status ne

/-- Two failures with one diagnostic under two names are alike. -/
lemma Fails.alikeIn (first : o.Fails (d.inFile file)) (second : o'.Fails (d.inFile file')) :
    AlikeIn file file' o o' where
  status := by rw [first.status, second.status]
  output := by rw [first.output, second.output]
  success eq := by
    rw [first.status] at eq
    cases eq
  failure _ := ⟨d, first, second⟩

end Outcome

/-! ## Commands -/

namespace Command

/-- How a `build` ends, and what it leaves behind. -/
inductive BuildEnds (files : FileSystem (StateM σ)) (view : FileView σ π) (source : String) (emission : Emission)
    (s : σ) : Option String → Outcome × σ → Prop where
  /-- The source cannot be read. -/
  | unreadable {output failure o} :
    (readSource files source).run s = (.error failure, s) →
    o.Fails (.ofFileFailure failure) →
    BuildEnds files view source emission s output (o, s)
  /-- The source is at fault. -/
  | rejected {output text e o} :
    (readSource files source).run s = (.ok text, s) →
    emit emission text = .error e →
    o.Fails (.ofCompileError text (some source) e) →
    BuildEnds files view source emission s output (o, s)
  /-- The result is printed. -/
  | printed {text result o} :
    (readSource files source).run s = (.ok text, s) →
    emit emission text = .ok result →
    o.Succeeds (result ++ "\n") →
    BuildEnds files view source emission s none (o, s)
  /-- The result is in the output file, which reads back as it. -/
  | written {path text result s' o} :
    (readSource files source).run s = (.ok text, s) →
    emit emission text = .ok result →
    (writeOutput files path result).run s = (.ok (), s') →
    (readSource files path).run s' = (.ok result, s') →
    view.Written path result.toUTF8 s s' →
    o.Succeeds "" →
    BuildEnds files view source emission s (some path) (o, s')
  /-- The output file cannot be written. -/
  | unwritten {path text result failure s' o} :
    (readSource files source).run s = (.ok text, s) →
    emit emission text = .ok result →
    (writeOutput files path result).run s = (.error failure, s') →
    view.Spared s s' →
    o.Fails (.ofFileFailure failure) →
    BuildEnds files view source emission s (some path) (o, s')

/-- Every `build` ends in one of the five ways. -/
lemma buildEnds (laws : files.Laws view) (source : String) (output : Option String) (emission : Emission) (s : σ) :
    BuildEnds files view source emission s output ((run files (.build source output emission)).run s) := by
  have eqs := run_readSource laws source s
  rw [run, run_bind_of_eq eqs]
  cases read : ((readSource files source).run s).1 with
  | error failure =>
    rw [read] at eqs
    exact .unreadable eqs (Outcome.fails_failed _)
  | ok text =>
    rw [read] at eqs
    dsimp only
    cases eqe : emit emission text with
    | error e => exact .rejected eqs eqe (Outcome.fails_failed _)
    | ok result =>
      cases output with
      | none => exact .printed eqs eqe (Outcome.succeeds_printed result)
      | some path =>
        dsimp only
        rw [deliver]
        obtain ⟨failure, s', eqw, spared⟩ | ⟨s', eqw, written⟩ := run_writeOutput laws path result s
        · rw [run_bind_of_eq eqw]
          exact .unwritten eqs eqe eqw spared (Outcome.fails_failed _)
        · rw [run_bind_of_eq eqw]
          have ⟨a, leads, found, _⟩ := written
          have back := run_readSource laws path s'
          rw [readSource_of_file laws leads found] at back
          exact .written eqs eqe eqw back written Outcome.succeeds_silent

/-- How an `eval` ends. -/
inductive EvalEnds (code : String) (o : Outcome) : Prop where
  /-- The script is printed. -/
  | printed {script} :
    compile code = .ok script →
    o.Succeeds (script ++ "\n") →
    EvalEnds code o
  /-- The code is at fault. -/
  | rejected {e} :
    compile code = .error e →
    o.Fails (.ofCompileError code none e) →
    EvalEnds code o

/-- An `eval` ends in one of the two ways, and it does nothing else. -/
lemma exists_evalEnds (files : FileSystem (StateM σ)) (code : String) :
    ∃ o, run files (.eval code) = pure o ∧ EvalEnds code o := by
  rw [run]
  cases eq : compile code with
  | error e => exact ⟨_, rfl, .rejected eq (Outcome.fails_failed _)⟩
  | ok script => exact ⟨_, rfl, .printed eq (Outcome.succeeds_printed script)⟩

/-- A `build` of a file with some code ends as an `eval` of this code, up to the name of the file. -/
lemma EvalEnds.alikeIn {code source : String} {o o' : Outcome} {s' : σ} (evaluated : EvalEnds code o)
    (built : BuildEnds files view source .script s none (o', s'))
    (read : (readSource files source).run s = (.ok code, s)) : s' = s ∧ o.AlikeIn "<memory>" source o' := by
  cases built with
  | unreadable unread fails =>
    rw [read] at unread
    cases unread
  | rejected read' eqe fails =>
    obtain ⟨⟩ := read.symm.trans read'
    rw [emit_script] at eqe
    refine ⟨rfl, ?_⟩
    cases evaluated with
    | printed eq _ =>
      rw [eqe] at eq
      cases eq
    | rejected eq fails' =>
      obtain ⟨⟩ := eqe.symm.trans eq
      rw [← Diagnostic.inFile_ofCompileError code none none] at fails'
      rw [← Diagnostic.inFile_ofCompileError code none (some source)] at fails
      exact fails'.alikeIn fails
  | printed read' eqe succeeds =>
    obtain ⟨⟩ := read.symm.trans read'
    rw [emit_script] at eqe
    refine ⟨rfl, ?_⟩
    cases evaluated with
    | printed eq succeeds' =>
      obtain ⟨⟩ := eqe.symm.trans eq
      exact succeeds'.alikeIn succeeds
    | rejected eq _ =>
      rw [eqe] at eq
      cases eq

/-- On every file system that keeps the laws, and file trees do, a `build` ends in one of the ways of `BuildEnds`.
An `eval` touches no file and ends in one of the ways of `EvalEnds`. A `build` of a file with its code ends alike,
and leaves the file system as it is. -/
theorem run_effects :
    FileTree.fileSystem.Laws FileTree.view ∧
    ∀ (σ π : Type) (files : FileSystem (StateM σ)) (view : FileView σ π), files.Laws view →
      (∀ source output emission s,
        BuildEnds files view source emission s output ((run files (.build source output emission)).run s)) ∧
      ∀ code, ∃ o, run files (.eval code) = pure o ∧ EvalEnds code o ∧
        ∀ source s a, view.place s source = some a → view.entry s a = some (.file code.toUTF8) →
          ∃ o', (run files (.build source none .script)).run s = (o', s) ∧ o.AlikeIn "<memory>" source o' := by
  refine ⟨FileTree.laws, ?_⟩
  intro σ π files view laws
  refine ⟨fun source output emission s => buildEnds laws source output emission s, ?_⟩
  intro code
  obtain ⟨o, eq, evaluated⟩ := exists_evalEnds files code
  refine ⟨o, eq, evaluated, ?_⟩
  intro source s a leads found
  have read := run_readSource laws source s
  rw [readSource_of_file laws leads found] at read
  have built := buildEnds laws source none .script s
  cases eqb : (run files (.build source none .script)).run s with | mk o' s' =>
  rw [eqb] at built
  obtain ⟨rfl, alike⟩ := evaluated.alikeIn built read
  exact ⟨o', rfl, alike⟩

/-- A file tree with a source and a source at fault. -/
def twoSources : FileTree :=
  { entries := [(["fons"], .file "I".toUTF8), (["vitium"], .file "$".toUTF8)] }

/-- What is written about the source at fault under a name. -/
def faultReport (file : String) : String :=
  "[LATINC-TOKENIZE-001] Error: error[tokenize:LATINC-TOKENIZE-001]: tokenization failed\n" ++
  "   ╭─[ " ++ file ++ ":1:1 ]\n   │\n 1 │ $\n   │ ┬  \n" ++
  "   │ ╰── unknown character '$' at line 1 column 1\n   │ \n   │ Note: at line 1, column 1\n───╯\n"

/-- The source is built and printed, and built into a directory that is not there yet. The source at fault is
built, and its code is evaluated. -/
theorem run_effects_twoSources :
    FileTree.fileSystem.Laws FileTree.view ∧
    ((run FileTree.fileSystem (.build "fons" none .script)).run twoSources).1 = ⟨0, "1\n", ""⟩ ∧
    BuildEnds FileTree.fileSystem FileTree.view "fons" .script twoSources none
      ((run FileTree.fileSystem (.build "fons" none .script)).run twoSources) ∧
    ((run FileTree.fileSystem (.build "fons" (some "nova/exitus") .script)).run twoSources).1 = ⟨0, "", ""⟩ ∧
    BuildEnds FileTree.fileSystem FileTree.view "fons" .script twoSources (some "nova/exitus")
      ((run FileTree.fileSystem (.build "fons" (some "nova/exitus") .script)).run twoSources) ∧
    FileTree.view.place twoSources "vitium" = some ["vitium"] ∧
    (run FileTree.fileSystem (.build "vitium" none .script)).run twoSources =
      (⟨1, "", faultReport "vitium"⟩, twoSources) ∧
    run FileTree.fileSystem (.eval "$") = pure ⟨1, "", faultReport "<memory>"⟩ ∧
    Outcome.AlikeIn "<memory>" "vitium" ⟨1, "", faultReport "<memory>"⟩ ⟨1, "", faultReport "vitium"⟩ := by
  have leads : FileTree.view.place twoSources "vitium" = some ["vitium"] := by decide +kernel
  have found : FileTree.view.entry twoSources ["vitium"] = some (.file "$".toUTF8) := rfl
  obtain ⟨laws, effects⟩ := run_effects
  obtain ⟨ends, evaluates⟩ := effects FileTree (List String) FileTree.fileSystem FileTree.view laws
  obtain ⟨o, evaluated, _, agrees⟩ := evaluates "$"
  obtain ⟨o', built, alike⟩ := agrees "vitium" twoSources ["vitium"] leads found
  have first : ((run FileTree.fileSystem (.eval "$")).run twoSources).1 = ⟨1, "", faultReport "<memory>"⟩ := by
    decide +kernel
  have second : ((run FileTree.fileSystem (.build "vitium" none .script)).run twoSources).1 =
      ⟨1, "", faultReport "vitium"⟩ := by
    decide +kernel
  rw [evaluated] at first
  rw [built] at second
  obtain rfl : o = _ := first
  obtain rfl : o' = _ := second
  exact ⟨laws, by decide +kernel, ends "fons" none .script twoSources, by decide +kernel,
    ends "fons" (some "nova/exitus") .script twoSources, leads, built, evaluated, alike⟩

end Command

end LatinToScript
