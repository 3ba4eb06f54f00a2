import LatinToScript.Proofs.Composition
import LatinToScript.Proofs.Grammar.FirstFault

/-!
# White space in a source

White space can stand wherever a source is not cut inside a quoted text, a word or a number. It moves the
tokens behind it, and at the end of a source it can bring one more semicolon. Neither changes the script
or the kind of the fault (`compile_whiteSpace`).
-/

namespace LatinToScript

/-- Any two places. -/
def AnyPlaces (_ _ : Position) : Prop :=
  True

/-! ## The end of the text -/

/-- No word goes on into what is put at the end of a text. -/
lemma stops_ending (text : List Char) : Stops isWordChar (ending text) := by
  unfold ending
  split
  · rintro _ ⟨⟩
    rfl
  · rintro _ ⟨⟩
    rfl

/-- White space matters to the end of the text only behind a last semicolon. -/
lemma ending_whiteSpace {blank : List Char} (white : ∀ c ∈ blank, isWhiteSpace c = true)
    (text more : List Char) :
    ending (text ++ blank ++ more) = ending (text ++ more) ∨
      more = [] ∧ ending (text ++ more) = [' '] ∧ ending (text ++ blank ++ more) = [';', ' '] := by
  rcases eq_or_ne more [] with rfl | some
  · rcases eq_or_ne blank [] with rfl | someb
    · left
      rw [List.append_nil]
    · have last : (text ++ blank ++ []).getLast? ≠ some ';' := by
        rw [List.append_nil, List.getLast?_append_of_ne_nil text someb]
        intro last
        exact absurd (white ';' (List.mem_of_getLast? last)) (by decide)
      have eq : ending (text ++ blank ++ []) = [';', ' '] := if_neg last
      rw [eq]
      unfold ending
      split
      · exact .inr ⟨rfl, rfl, rfl⟩
      · exact .inl rfl
  · left
    unfold ending
    rw [List.getLast?_append_of_ne_nil _ some, List.getLast?_append_of_ne_nil _ some]

/-! ## Tokens -/

/-- Tokens that are alike, or the same ones with one more semicolon behind them. -/
def Respaced (ts us : List Token) : Prop :=
  TokensAlike AnyPlaces ts us ∨ ∃ t : Token, t.kind = .semicolon ∧ us = ts ++ [t]

/-- The same tokens can be put in front. -/
lemma Respaced.append {us vs : List Token} (rs : Respaced us vs) (ts : List Token) :
    Respaced (ts ++ us) (ts ++ vs) := by
  rcases rs with alike | ⟨t, kt, rfl⟩
  · exact .inl (List.rel_append (List.forall₂_same.mpr fun _ _ => ⟨rfl, trivial⟩) alike)
  · exact .inr ⟨t, kt, (List.append_assoc ts us [t]).symm⟩

/-- The last part of a source is scanned alike with white space in front of it, up to a semicolon at its end. -/
lemma scan_ending {blank : List Char} (white : ∀ c ∈ blank, isWhiteSpace c = true) (p q : Position)
    (text more : List Char) :
    ResultsAlike (TokenError.Alike AnyPlaces) Respaced (scan p (more ++ ending (text ++ more)))
      (scan q (more ++ ending (text ++ blank ++ more))) := by
  rcases ending_whiteSpace white text more with eq | ⟨rfl, eqs, eqm⟩
  · rw [eq]
    have alike := scan_alike (r := AnyPlaces) (p := p) (q := q) (fun _ _ => trivial) trivial
      (more ++ ending (text ++ more))
    exact alike.imp .inl
  · have none : scan p [' '] = .ok [] := scan_eq_ok_iff.mpr (.blank (by decide) .nil)
    have single : scan q [';', ' '] = .ok [⟨.semicolon, q⟩] :=
      scan_eq_ok_iff.mpr (.token .semicolon (.blank (by decide) .nil))
    rw [eqs, eqm, List.nil_append, List.nil_append, none, single]
    exact .ok (.inr ⟨_, rfl, rfl⟩)

/-- Both texts have the tokens in front of the white space in common. -/
lemma scan_respaced {a b blank : String} (even : Even (a.toList.count '"'))
    (apart : Apart a.toList b.toList) (white : ∀ c ∈ blank.toList, isWhiteSpace c = true) :
    ResultsAlike (TokenError.Alike AnyPlaces) Respaced (scan .start (scannedText (a ++ b)))
      (scan .start (scannedText (a ++ blank ++ b))) := by
  have apart' : ∀ text, Apart a.toList (b.toList ++ ending text) :=
    fun text => apart.append (stops_ending text)
  have apartb : ∀ text, Apart a.toList (blank.toList ++ (b.toList ++ ending text)) := by
    intro text
    cases eq : blank.toList with
    | nil => exact apart' text
    | cons c cs =>
      apply Apart.of_stops
      rintro _ ⟨⟩
      rw [← Bool.not_eq_true]
      intro word
      have blankc := white c (eq ▸ List.mem_cons_self)
      rw [isWhiteSpace_of_isWordChar word] at blankc
      cases blankc
  rw [scannedText_eq, scannedText_eq, String.toList_append, String.toList_append, String.toList_append,
    List.append_assoc, List.append_assoc, List.append_assoc, scan_append even (apart' _),
    scan_append even (apartb _), scan_whiteSpace white]
  cases scan .start a.toList with
  | error e => exact .error (.refl (fun _ => trivial) e)
  | ok ts =>
    have tail := scan_ending white (Position.start.advanceAll a.toList)
      ((Position.start.advanceAll a.toList).advanceAll blank.toList) a.toList b.toList
    exact tail.map fun rs => rs.append ts

/-- A last semicolon neither opens nor closes a bracket. -/
lemma OpenBrackets.check_concat_semicolon {t : Token} (kt : t.kind = .semicolon)
    (brackets : OpenBrackets) (ts : List Token) : brackets.check (ts ++ [t]) = brackets.check ts := by
  induction ts generalizing brackets with
  | nil =>
    rw [List.nil_append, check.eq_def]
    simp only [kt]
  | cons u ts ih =>
    rw [List.cons_append, check.eq_def, check.eq_def _ (u :: ts)]
    simp only [ih]

/-- Brackets are balanced alike, since a semicolon is none. -/
lemma Respaced.checkBalance_alike {ts us : List Token} (rs : Respaced ts us) :
    ResultsAlike (TokenError.Alike AnyPlaces) Eq (checkBalance ts) (checkBalance us) := by
  rcases rs with alike | ⟨t, kt, rfl⟩
  · exact LatinToScript.checkBalance_alike alike
  · have eq : checkBalance (ts ++ [t]) = checkBalance ts := OpenBrackets.check_concat_semicolon kt _ ts
    rw [eq]
    cases checkBalance ts with
    | ok _ => exact .ok rfl
    | error e => exact .error (.refl (fun _ => trivial) e)

/-- With white space in it a source has the same tokens at other places, up to a semicolon at the end. -/
lemma ofSource_respaced {a b blank : String} (even : Even (a.toList.count '"'))
    (apart : Apart a.toList b.toList) (white : ∀ c ∈ blank.toList, isWhiteSpace c = true) :
    ResultsAlike (TokenError.Alike AnyPlaces) Respaced (Token.ofSource (a ++ b))
      (Token.ofSource (a ++ blank ++ b)) := by
  have scanned := scan_respaced even apart white
  unfold Token.ofSource
  generalize scan .start (scannedText (a ++ b)) = result,
    scan .start (scannedText (a ++ blank ++ b)) = other at scanned
  cases scanned with
  | error alike => exact .error alike
  | @ok ts us rs =>
    have checked := rs.checkBalance_alike
    dsimp only
    generalize checkBalance ts = result, checkBalance us = other at checked
    cases checked with
    | error alike => exact .error alike
    | ok _ => exact .ok rs

/-! ## Programs -/

/-- The tokens of a source already end in a semicolon, so one more changes nothing. -/
lemma Respaced.statements_alike {source : String} {ts us : List Token}
    (eqt : Token.ofSource source = .ok ts) (rs : Respaced ts us) :
    ResultsAlike (ParseError.Alike AnyPlaces) Eq (Grammar.statements nestingLimit ts)
      (Grammar.statements nestingLimit us) := by
  rcases rs with alike | ⟨t, kt, rfl⟩
  · exact Grammar.statements_alike alike
  · have ended := Token.ofSource_ended eqt
    cases eq : Grammar.statements nestingLimit ts with
    | ok ss =>
      rw [Grammar.statements_concat_semicolon eq ended kt]
      exact .ok rfl
    | error e =>
      have inside := Program.ofTokens_fault eqt (Program.ofTokens_eq_error_iff_statements.mpr eq)
      rw [Grammar.statements_append_fault ended inside eq]
      exact .error (.refl (fun _ => trivial) e)

/-- White space between two parts of a source, the first of which ends outside of quotes, changes
nothing but the place of a fault, unless the parts make a word or a number together. -/
theorem compile_whiteSpace (a b blank : String) (even : Even (a.toList.count '"'))
    (apart : Apart a.toList b.toList) (white : ∀ c ∈ blank.toList, isWhiteSpace c = true) :
    ResultsAlike (CompileError.Alike AnyPlaces) Eq (compile (a ++ b)) (compile (a ++ blank ++ b)) := by
  have tokens := ofSource_respaced even apart white
  cases eqt : Token.ofSource (a ++ b) with
  | error e =>
    obtain ⟨f, eqf, alike⟩ := (eqt ▸ tokens).exists_error
    rw [compile_eq_error_iff.mpr (.inl ⟨e, eqt, rfl⟩), compile_eq_error_iff.mpr (.inl ⟨f, eqf, rfl⟩)]
    exact .error (.token alike)
  | ok ts =>
    obtain ⟨us, equ, rs⟩ := (eqt ▸ tokens).exists_ok
    have read := rs.statements_alike eqt
    cases eqs : Grammar.statements nestingLimit ts with
    | error e =>
      obtain ⟨f, eqf, alike⟩ := (eqs ▸ read).exists_error
      rw [← Program.ofTokens_eq_error_iff_statements] at eqs eqf
      rw [compile_eq_error_iff.mpr (.inr ⟨ts, e, eqt, eqs, rfl⟩),
        compile_eq_error_iff.mpr (.inr ⟨us, f, equ, eqf, rfl⟩)]
      exact .error (.parse alike)
    | ok ss =>
      obtain ⟨_, eqv, rfl⟩ := (eqs ▸ read).exists_ok
      have eqp : Program.ofTokens ts = .ok ⟨ss⟩ := Program.ofTokens_eq_ok_iff_statements.mpr eqs
      have eqq : Program.ofTokens us = .ok ⟨ss⟩ := Program.ofTokens_eq_ok_iff_statements.mpr eqv
      rw [compile_eq_ok_iff.mpr ⟨ts, ⟨ss⟩, eqt, eqp, rfl⟩, compile_eq_ok_iff.mpr ⟨us, ⟨ss⟩, equ, eqq, rfl⟩]
      exact .ok rfl

/-- A line break behind a quoted text that holds a semicolon, in front of a block: the script is the same. -/
theorem compile_whiteSpace_block :
    Even ("si a sit \"x; y\"".toList.count '"') ∧
      Apart "si a sit \"x; y\"".toList "\x7bb esse -I\x7d".toList ∧
      (∀ c ∈ "\n  ".toList, isWhiteSpace c = true) ∧
      compile ("si a sit \"x; y\"" ++ "\x7bb esse -I\x7d") = .ok "if (a == \"x; y\") \x7bb = -1;\x7d" ∧
      compile ("si a sit \"x; y\"" ++ "\n  " ++ "\x7bb esse -I\x7d") =
        .ok "if (a == \"x; y\") \x7bb = -1;\x7d" := by
  have even : Even ("si a sit \"x; y\"".toList.count '"') := by decide
  have apart : Apart "si a sit \"x; y\"".toList "\x7bb esse -I\x7d".toList :=
    .of_stops (by rintro _ ⟨⟩; rfl)
  have white : ∀ c ∈ "\n  ".toList, isWhiteSpace c = true := List.all_eq_true.mp (by decide)
  have eq : compile ("si a sit \"x; y\"" ++ "\x7bb esse -I\x7d") = .ok "if (a == \"x; y\") \x7bb = -1;\x7d" := by
    decide +kernel
  have alike := compile_whiteSpace _ _ _ even apart white
  rw [eq] at alike
  obtain ⟨_, respaced, rfl⟩ := alike.exists_ok
  exact ⟨even, apart, white, eq, respaced⟩

end LatinToScript
