import LatinToScript.Proofs.Grammar.Alike
import LatinToScript.Proofs.Grammar.Append
import LatinToScript.Proofs.Grammar.Balance
import LatinToScript.Proofs.Program.Latin
import LatinToScript.Proofs.Script.Splitting
import LatinToScript.Proofs.Token.Apart

/-!
# Sources one after the other

A source that is compiled leaves nothing open at a semicolon: no quoted text, no bracket and no
statement. So the source after the semicolon is compiled as if it stood alone, and its faults only
move (`compile_append_semicolon`).
-/

namespace LatinToScript

/-! ## Scanning a text that goes on -/

/-- Behind a semicolon a new token starts, whatever comes. -/
lemma apart_of_getLast? {text : List Char} (last : text.getLast? = some ';') (more : List Char) :
    Apart text more := by
  constructor
  · intro c mem word
    rw [last] at mem
    cases mem
    exact absurd word (by decide)
  · intro mem
    rw [last] at mem
    cases mem

/-- Behind a semicolon that is no part of a quoted text, scanning starts anew. -/
lemma Scans.scan_append {position : Position} {text : List Char} {ts : List Token}
    (sc : Scans position text ts) (last : text.getLast? = some ';') (more : List Char) :
    scan position (text ++ more) = (scan (position.advanceAll text) more).map (ts ++ ·) := by
  rw [LatinToScript.scan_append sc.even_quotes (apart_of_getLast? last more), scan_eq_ok_iff.mpr sc]
  rfl

/-- A second semicolon behind a first one is a token of its own. -/
lemma Scans.concat_semicolon {position : Position} {text : List Char} {ts : List Token}
    (sc : Scans position text ts) (last : text.getLast? = some ';') :
    Scans position (text ++ [';']) (ts ++ [⟨.semicolon, position.advanceAll text⟩]) := by
  have single : scan (position.advanceAll text) [';'] = .ok [⟨.semicolon, position.advanceAll text⟩] :=
    scan_eq_ok_iff.mpr (.token .semicolon .nil)
  rw [← scan_eq_ok_iff, sc.scan_append last, single]
  rfl

/-- The blank behind a text is no part of a token. -/
lemma Scans.of_concat_blank {position : Position} {text : List Char} {ts : List Token}
    (sc : Scans position (text ++ [' ']) ts) : Scans position text ts := by
  have even : Even (text.count '"') := by
    have even := sc.even_quotes
    rw [List.count_append] at even
    exact even
  have apart : Apart text [' '] := .of_stops (by rintro _ ⟨⟩; rfl)
  have eq := scan_eq_ok_iff.mpr sc
  rw [LatinToScript.scan_append even apart, scan_eq_ok_iff.mpr (.blank (by decide) .nil)] at eq
  rw [← scan_eq_ok_iff]
  cases scanned : scan position text with
  | error e =>
    rw [scanned] at eq
    cases eq
  | ok us =>
    rw [scanned] at eq
    rw [← Except.ok.inj eq]
    exact congrArg Except.ok (List.append_nil us).symm

/-! ## The text of two sources -/

/-- The end of a text that is scanned depends on the second of two sources only, if it is not empty. -/
lemma scannedText_append (a : String) {b : String} (some : b ≠ "") :
    scannedText (a ++ b) = a.toList ++ scannedText b := by
  have last : (a ++ b).toList.getLast? = b.toList.getLast? := by
    have nonempty : b.toList ≠ [] := mt String.toList_eq_nil_iff.mp some
    rw [String.toList_append, List.getLast?_append, List.getLast?_eq_some_getLast nonempty]
    rfl
  rw [scannedText, scannedText, last]
  split
  · rw [String.toList_append, List.append_assoc]
  · rw [String.toList_append, List.append_assoc]

/-- A source with a semicolon behind it ends in this semicolon. -/
lemma getLast?_append_semicolon (a : String) : (a ++ ";").toList.getLast? = some ';' := by
  rw [String.toList_append]
  exact List.getLast?_concat

/-- A source that ends in a semicolon gets no other one. -/
lemma scannedText_semicolon (a : String) : scannedText (a ++ ";") = (a ++ ";").toList ++ [' '] := by
  rw [scannedText, getLast?_append_semicolon, if_pos rfl]

/-- A source with a semicolon behind it has tokens that end in a semicolon and are some
statements. -/
structure Compiled (a : String) (ts : List Token) (ss : List Statement) : Prop where
  scans : Scans .start (a ++ ";").toList ts
  ended : Ended (kinds ts)
  statements : Grammar.statements nestingLimit ts = .ok ss

/-- A source that is a program is still this program with a semicolon behind it. -/
lemma exists_compiled {a : String} {ts : List Token} {p : Program}
    (eqt : Token.ofSource a = .ok ts) (eqp : Program.ofTokens ts = .ok p) :
    ∃ us, Compiled a us p.body := by
  obtain ⟨sc, _⟩ := Token.ofSource_eq_ok_iff.mp eqt
  have ended := Token.ofSource_ended eqt
  rw [Program.ofTokens_eq_ok_iff_statements] at eqp
  rw [scannedText] at sc
  split at sc
  · -- The source has a semicolon at its end already, and the one behind it is a token of its own.
    rename_i last
    refine ⟨ts ++ [⟨.semicolon, Position.start.advanceAll a.toList⟩], ?_, ?_, ?_⟩
    · rw [String.toList_append]
      exact sc.of_concat_blank.concat_semicolon last
    · rw [kinds_append]
      exact List.getLast?_concat
    · exact Grammar.statements_concat_semicolon eqp ended rfl
  · refine ⟨ts, ?_, ended, eqp⟩
    rw [String.toList_append]
    apply Scans.of_concat_blank
    rw [List.append_assoc]
    exact sc

/-! ## Places in the second source -/

/-- The second place is the first one with a source and a semicolon in front of it. Only the columns
of the first line change. -/
structure Position.MovedBy (a : String) (p q : Position) : Prop where
  counted : 1 ≤ p.line
  offset : q.offset = p.offset + a.utf8ByteSize + 1
  line : q.line = p.line + a.toList.count '\n'
  column : q.column =
    if p.line = 1 then p.column + (lastLine (a ++ ";").toList).length else p.column

/-- A place is moved by a source if it lies as far behind the source and its semicolon as it lay behind the start.
-/
lemma Position.movedBy_iff {a : String} {p q : Position} :
    Position.MovedBy a p q ↔ 1 ≤ p.line ∧ q = p.behind (a ++ ";").toList := by
  have bytes : byteLength (a ++ ";").toList = a.utf8ByteSize + 1 := by
    rw [byteLength_eq, String.ofList_toList, String.utf8ByteSize_append]
    rfl
  have lines : (a ++ ";").toList.count '\n' = a.toList.count '\n' := by
    rw [String.toList_append, List.count_append]
    rfl
  obtain ⟨offset, line, column⟩ := q
  simp only [behind, bytes, lines, mk.injEq]
  constructor
  · rintro ⟨counted, eqo, eql, eqc⟩
    exact ⟨counted, eqo, eql, eqc⟩
  · rintro ⟨counted, eqo, eql, eqc⟩
    exact ⟨counted, eqo, eql, eqc⟩

/-- Places that go on by the same character stay moved. -/
lemma Position.MovedBy.advance {a : String} {p q : Position} (c : Char)
    (moved : Position.MovedBy a p q) : Position.MovedBy a (p.advance c) (q.advance c) := by
  rw [Position.movedBy_iff] at moved ⊢
  obtain ⟨counted, rfl⟩ := moved
  exact ⟨Nat.le_trans counted (p.line_le_advance c), (Position.behind_advance counted _ c).symm⟩

/-- The start of a source is moved to the place behind the source in front of it. -/
lemma Position.movedBy_start (a : String) :
    Position.MovedBy a .start (Position.start.advanceAll (a ++ ";").toList) := by
  rw [Position.movedBy_iff]
  exact ⟨Nat.le_refl 1, (Position.start_behind _).symm⟩

/-! ## Scripts -/

/-- No expression has an empty script. -/
lemma Expression.WellFormed.script_ne_empty {e : Expression} (wf : e.WellFormed) (parent : NodeKind) :
    (e.relabel nativeWords parent).script ≠ "" := by
  cases e with
  | name n =>
    have nm : IsName n := wf
    exact nm.ne_empty
  | number value => exact mt String.toList_eq_nil_iff.mpr (Decimal.ofInt_ne_nil value)
  | text t => simp [relabel, nativeWords, script]
  | boolean value =>
    cases value with
    | native b => exact wf.elim
    | word w =>
      have mem : w ∈ booleanWords := wf
      simp only [booleanWords, List.mem_cons, List.not_mem_nil, or_false] at mem
      rcases mem with rfl | rfl
      · show "true" ≠ ""
        decide
      · show "false" ≠ ""
        decide
  | null value =>
    cases value with
    | native => exact wf.elim
    | word w =>
      obtain rfl : w = nullWord := wf
      show "null" ≠ ""
      decide
  | relation left word right => simp [relabel, script]

/-- No statement has an empty script. -/
lemma Statement.WellFormed.script_ne_empty {s : Statement} (wf : s.WellFormed) (parent : NodeKind) :
    (s.relabel nativeWords parent).script ≠ "" := by
  cases s with
  | expression e =>
    rw [Statement.relabel, Statement.script]
    exact wf.1.script_ne_empty parent
  | declaration d => simp [Statement.relabel, Statement.script, Declaration.script]
  | binding d => simp [Statement.relabel, Statement.script, Declarator.script]
  | conditional test consequent alternate => simp [Statement.relabel, Statement.script]
  | loop test body => simp [Statement.relabel, Statement.script]
  | block body => simp [Statement.relabel, Statement.script, braced]

/-- Statements are relabeled one by one, so it does not matter where they are cut. -/
lemma Statement.relabelAll_append (r : Relabeling) (parent : NodeKind) (ss ts : List Statement) :
    Statement.relabelAll r parent (ss ++ ts) =
      Statement.relabelAll r parent ss ++ Statement.relabelAll r parent ts := by
  induction ss with
  | nil => rfl
  | cons s ss ih =>
    rw [List.cons_append, Statement.relabelAll, Statement.relabelAll, ih, List.cons_append]

/-- A program with a statement has a script that is not empty. -/
lemma Program.script_ne_empty {s : Statement} {ss : List Statement}
    (wf : Statement.WellFormedAll (s :: ss)) : (⟨s :: ss⟩ : Program).toNative.script ≠ "" := by
  have first := wf.1.script_ne_empty .program
  rw [Program.toNative, Program.relabel_eq, Program.script, Statement.relabelAll, Statement.scripts]
  cases Statement.scripts (Statement.relabelAll nativeWords .program ss) with
  | nil =>
    rw [joinLines, String.intercalate_singleton]
    exact first
  | cons t ts =>
    rw [joinLines, String.intercalate_cons_cons]
    simp

/-- The scripts of statements one after the other stand in lines of their own. -/
lemma Program.script_append {ss ts : List Statement} (wfs : Statement.WellFormedAll ss)
    (wft : Statement.WellFormedAll ts) :
    (⟨ss ++ ts⟩ : Program).toNative.script =
      if (⟨ss⟩ : Program).toNative.script = "" then (⟨ts⟩ : Program).toNative.script
      else if (⟨ts⟩ : Program).toNative.script = "" then (⟨ss⟩ : Program).toNative.script
      else (⟨ss⟩ : Program).toNative.script ++ "\n" ++ (⟨ts⟩ : Program).toNative.script := by
  have empty : (⟨[]⟩ : Program).toNative.script = "" := by
    rw [Program.toNative, Program.relabel_eq]
    rfl
  cases ss with
  | nil => rw [empty, if_pos rfl, List.nil_append]
  | cons s ss =>
    rw [if_neg (Program.script_ne_empty wfs)]
    cases ts with
    | nil => rw [empty, if_pos rfl, List.append_nil]
    | cons t ts =>
      rw [if_neg (Program.script_ne_empty wft)]
      simp only [Program.toNative, Program.relabel_eq, Program.script, joinLines,
        Statement.relabelAll_append, Statement.scripts_append]
      exact String.intercalate_append_of_ne_nil (List.cons_ne_nil _ _) (List.cons_ne_nil _ _)

/-! ## Compiling -/

/-- The same fault of a source at related places. -/
inductive CompileError.Alike (r : Position → Position → Prop) : CompileError → CompileError → Prop where
  | token {e f} :
    TokenError.Alike r e f →
    CompileError.Alike r (.token e) (.token f)
  | parse {e f} :
    ParseError.Alike r e f →
    CompileError.Alike r (.parse e) (.parse f)

namespace Compiled

variable {a b : String} {ts bs : List Token} {ss : List Statement}

/-- Behind the semicolon scanning starts anew. -/
lemma scan_append (cp : Compiled a ts ss) (more : List Char) :
    scan .start ((a ++ ";").toList ++ more) =
      (scan (Position.start.advanceAll (a ++ ";").toList) more).map (ts ++ ·) :=
  cp.scans.scan_append (getLast?_append_semicolon a) more

/-- No bracket is open at the semicolon. -/
lemma nested (cp : Compiled a ts ss) : Nested (kinds ts) :=
  DerivesStatements.nested (Grammar.statements_eq_ok_iff_derives.mp cp.statements).1

/-- The tokens of the second source follow those of the first one, or its fault is found at its new
place. -/
lemma ofSource_alike (cp : Compiled a ts ss) (some : b ≠ "") :
    ResultsAlike (TokenError.Alike (Position.MovedBy a))
      (fun bs cs => ∃ us, cs = ts ++ us ∧ TokensAlike (Position.MovedBy a) bs us)
      (Token.ofSource b) (Token.ofSource (a ++ ";" ++ b)) := by
  have start := Position.movedBy_start a
  have scanned := scan_alike Position.MovedBy.advance start (scannedText b)
  unfold Token.ofSource
  rw [scannedText_append (a ++ ";") some, cp.scan_append]
  generalize scan .start (scannedText b) = result,
    scan (Position.start.advanceAll (a ++ ";").toList) (scannedText b) = other at scanned
  cases scanned with
  | error alike => exact .error alike
  | @ok bs us alike =>
    have balance : checkBalance (ts ++ us) = checkBalance us := OpenBrackets.check_of_nested cp.nested
    have checked := checkBalance_alike alike
    dsimp only [Except.map]
    rw [balance]
    generalize checkBalance bs = result, checkBalance us = other at checked
    cases checked with
    | error alike => exact .error alike
    | ok _ => exact .ok ⟨us, rfl, alike⟩

/-- The semicolon behind a source may also be the last token. -/
lemma ofSource_semicolon (cp : Compiled a ts ss) : Token.ofSource (a ++ ";") = .ok ts := by
  rw [Token.ofSource_eq_ok_iff, scannedText_semicolon]
  refine ⟨?_, cp.nested.checkBalance_eq⟩
  rw [← scan_eq_ok_iff, cp.scan_append, scan_eq_ok_iff.mpr (.blank (by decide) .nil)]
  exact congrArg Except.ok (List.append_nil ts)

/-- The statements of a second program come behind those of the first one. -/
lemma ofTokens_append {q : Program} (cp : Compiled a ts ss) (eqb : Token.ofSource b = .ok bs)
    (eqq : Program.ofTokens bs = .ok q) :
    ∃ cs, Token.ofSource (a ++ ";" ++ b) = .ok cs ∧ Program.ofTokens cs = .ok ⟨ss ++ q.body⟩ := by
  rw [Program.ofTokens_eq_ok_iff_statements] at eqq
  by_cases empty : b = ""
  · have single : Token.ofSource "" = .ok [⟨.semicolon, .start⟩] := by decide +kernel
    rw [empty, single] at eqb
    cases eqb
    rw [Grammar.statements_semicolon rfl, Grammar.statements_eq_ok_iff.mpr (.inl ⟨rfl, rfl⟩)] at eqq
    rw [empty, ← Except.ok.inj eqq, String.append_empty, List.append_nil]
    exact ⟨ts, cp.ofSource_semicolon, Program.ofTokens_eq_ok_iff_statements.mpr cp.statements⟩
  · obtain ⟨_, eqc, us, rfl, alike⟩ := (eqb ▸ cp.ofSource_alike empty).exists_ok
    obtain ⟨_, equ, rfl⟩ := (eqq ▸ Grammar.statements_alike alike).exists_ok
    refine ⟨ts ++ us, eqc, ?_⟩
    rw [Program.ofTokens_eq_ok_iff_statements,
      Grammar.statements_append cp.statements fun _ => cp.ended, equ]
    rfl

/-- A fault of the second source stays its first fault, moved by the source in front of it. -/
lemma compile_fault {e : CompileError} (cp : Compiled a ts ss) (eq : compile b = .error e) :
    ∃ f, compile (a ++ ";" ++ b) = .error f ∧ CompileError.Alike (Position.MovedBy a) e f := by
  have some : b ≠ "" := by
    rintro rfl
    have ok : compile "" = .ok "" := by decide +kernel
    rw [ok] at eq
    cases eq
  rcases compile_eq_error_iff.mp eq with ⟨e, eqb, rfl⟩ | ⟨bs, e, eqb, eqe, rfl⟩
  · obtain ⟨f, eqf, alike⟩ := (eqb ▸ cp.ofSource_alike some).exists_error
    exact ⟨_, compile_eq_error_iff.mpr (.inl ⟨f, eqf, rfl⟩), .token alike⟩
  · rw [Program.ofTokens_eq_error_iff_statements] at eqe
    obtain ⟨_, eqc, us, rfl, alike⟩ := (eqb ▸ cp.ofSource_alike some).exists_ok
    obtain ⟨f, eqf, alikee⟩ := Grammar.statements_fault_alike alike eqe
    refine ⟨_, compile_eq_error_iff.mpr (.inr ⟨ts ++ us, f, eqc, ?_, rfl⟩), .parse alikee⟩
    rw [Program.ofTokens_eq_error_iff_statements,
      Grammar.statements_append cp.statements fun _ => cp.ended, eqf]
    rfl

end Compiled

/-- Behind a semicolon a source is compiled as if it stood alone: its script follows in a line of
its own, and a fault is the same at its new place. -/
theorem compile_append_semicolon (a b x : String) (eq : compile a = .ok x) :
    (∀ y, compile b = .ok y →
      compile (a ++ ";" ++ b) = .ok (if x = "" then y else if y = "" then x else x ++ "\n" ++ y)) ∧
    ∀ e, compile b = .error e →
      ∃ f, compile (a ++ ";" ++ b) = .error f ∧ CompileError.Alike (Position.MovedBy a) e f := by
  obtain ⟨as, p, eqa, eqp, rfl⟩ := compile_eq_ok_iff.mp eq
  obtain ⟨ts, cp⟩ := exists_compiled eqa eqp
  refine ⟨?_, ?_⟩
  · intro y eqy
    obtain ⟨bs, q, eqb, eqq, rfl⟩ := compile_eq_ok_iff.mp eqy
    obtain ⟨cs, eqc, eqpq⟩ := cp.ofTokens_append eqb eqq
    have wfp := Program.wellFormed_of_source eqa eqp
    have wfq := Program.wellFormed_of_source eqb eqq
    exact compile_eq_ok_iff.mpr ⟨cs, _, eqc, eqpq, Program.script_append wfp.statements wfq.statements⟩
  · intro e eqe
    exact cp.compile_fault eqe

/-- A loop behind two lines, and one without its block, which is found in the second line. -/
theorem compile_append_semicolon_loop :
    compile "dico a esse \"é\";\nV" = .ok "var a = \"é\";\n5" ∧
    compile ("dico a esse \"é\";\nV" ++ ";" ++ "dum a maior II \x7b\x7d") =
      .ok "var a = \"é\";\n5\nwhile (a > 2) \x7b\x7d" ∧
    ∃ position, compile ("dico a esse \"é\";\nV" ++ ";" ++ "dum a maior II") =
        .error (.parse (.missingOpeningBrace position)) ∧
      Position.MovedBy "dico a esse \"é\";\nV" ⟨14, 1, 15⟩ position := by
  have eq : compile "dico a esse \"é\";\nV" = .ok "var a = \"é\";\n5" := by decide +kernel
  have loop : compile "dum a maior II \x7b\x7d" = .ok "while (a > 2) \x7b\x7d" := by decide +kernel
  have fault : compile "dum a maior II" = .error (.parse (.missingOpeningBrace ⟨14, 1, 15⟩)) := by
    decide +kernel
  obtain ⟨_, eqf, alike⟩ := (compile_append_semicolon _ _ _ eq).2 _ fault
  refine ⟨eq, (compile_append_semicolon _ _ _ eq).1 _ loop, ?_⟩
  cases alike with
  | parse alike =>
    cases alike with
    | missingOpeningBrace moved => exact ⟨_, eqf, moved⟩

end LatinToScript
