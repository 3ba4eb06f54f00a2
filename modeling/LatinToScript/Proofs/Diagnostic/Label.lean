import LatinToScript.Diagnostic.Basic
import LatinToScript.Proofs.Grammar.Alike
import LatinToScript.Proofs.Grammar.Failure
import LatinToScript.Proofs.Position
import LatinToScript.Proofs.Script.Translation
import LatinToScript.Proofs.Token.Fault

/-!
# Diagnostics point at one character

The place of a fault is that of a character of the source, or that of the semicolon which is added behind it
(`StandsAt.source_or_added`). The parser makes up no places, so this holds for its faults as well. The label
of a diagnostic covers that one character, or the last one of the source
(`Diagnostic.ofCompileError_label`).
-/

namespace LatinToScript

/-! ## Spans -/

/-- A span covers one character of a source, which stands between two parts of it. -/
structure Span.Covers (span : Span) (source : String) (before : List Char) (c : Char)
    (after : List Char) : Prop where
  text : source.toList = before ++ c :: after
  start : span.start = (String.ofList before).utf8ByteSize
  stop : span.stop = (String.ofList (before ++ [c])).utf8ByteSize

/-- The character at an offset is the one with as many bytes in front of it. -/
lemma charAt?_append (before after : List Char) (c : Char) :
    charAt? (before ++ c :: after) (byteLength before) = some c := by
  induction before with
  | nil => rfl
  | cons d before ih =>
    have pos := d.utf8Size_pos
    obtain ⟨n, eq⟩ : ∃ n, byteLength (d :: before) = n + 1 :=
      Nat.exists_eq_add_one_of_ne_zero (Nat.ne_of_gt (byteLength_pos (List.cons_ne_nil d before)))
    have ge : ¬ n + 1 < d.utf8Size := by
      rw [← eq, byteLength_cons]
      omega
    rw [List.cons_append, eq, charAt?, if_neg ge, ← eq, byteLength_cons, Nat.add_sub_cancel_left]
    exact ih

namespace Span

variable {source : String} {before after : List Char} {c : Char} {span : Span} {position : Position}

/-- Both ends of a covered character are boundaries of characters. -/
lemma Covers.bounds (covers : span.Covers source before c after) :
    span.start < span.stop ∧ span.stop ≤ source.utf8ByteSize ∧
      String.Pos.Raw.IsValid source ⟨span.start⟩ ∧ String.Pos.Raw.IsValid source ⟨span.stop⟩ := by
  have whole : source = String.ofList before ++ String.ofList (c :: after) := by
    rw [← String.ofList_append, ← covers.text, String.ofList_toList]
  have whole' : source = String.ofList (before ++ [c]) ++ String.ofList after := by
    rw [← String.ofList_append, ← List.append_cons, ← covers.text, String.ofList_toList]
  refine ⟨?_, ?_, ?_, ?_⟩
  · have pos := c.utf8Size_pos
    rw [covers.start, covers.stop, ← byteLength_eq, ← byteLength_eq, byteLength_append, byteLength_cons]
    omega
  · rw [covers.stop, whole', String.utf8ByteSize_append]
    exact Nat.le_add_right _ _
  · rw [covers.start, String.Pos.Raw.isValid_iff_exists_append]
    exact ⟨_, _, whole, rfl⟩
  · rw [covers.stop, String.Pos.Raw.isValid_iff_exists_append]
    exact ⟨_, _, whole', rfl⟩

/-- The character at an offset reaches up to the next boundary. -/
lemma covers_widen (text : source.toList = before ++ c :: after) :
    (Span.widen ⟨byteLength before, nextBoundary source.toList (byteLength before)⟩).Covers
      source before c after := by
  have pos := c.utf8Size_pos
  refine ⟨text, byteLength_eq before, ?_⟩
  rw [← byteLength_eq, widen, nextBoundary, text, charAt?_append, byteLength_append, byteLength_cons]
  dsimp only
  rw [byteLength_nil]
  omega

/-- A place in the source stands for the character there. -/
lemma ofPosition_inside (text : source.toList = before ++ c :: after)
    (place : position = Position.start.advanceAll before) :
    (ofPosition source.toList position).Covers source before c after := by
  have offset : position.offset = byteLength before := by
    rw [place, Position.start_advanceAll]
  have inside : position.offset < byteLength source.toList := by
    have pos := c.utf8Size_pos
    rw [offset, text, byteLength_append, byteLength_cons]
    omega
  rw [ofPosition, if_pos inside, offset]
  exact covers_widen text

/-- A place behind the source stands for its last character. -/
lemma ofPosition_behind (text : source.toList = before ++ [c])
    (place : position = Position.start.advanceAll source.toList) :
    (ofPosition source.toList position).Covers source before c [] := by
  have offset : position.offset = byteLength source.toList := by
    rw [place, Position.start_advanceAll]
  rw [ofPosition, if_neg (Nat.not_lt.mpr (Nat.le_of_eq offset.symm)), text, List.dropLast_concat, ← text]
  exact covers_widen text

end Span

/-! ## Places of faults -/

/-- Every fault has the place of a character that is scanned. -/
lemma compile_fault_standsAt {source : String} {e : CompileError} (eq : compile source = .error e) :
    ∃ position c, e.position? = some position ∧ StandsAt .start (scannedText source) position c ∧
      ∀ error, e = .token error → c = error.culprit ∧ c ≠ ';' := by
  rcases compile_eq_error_iff.mp eq with ⟨error, eqt, rfl⟩ | ⟨ts, error, eqt, eqp, rfl⟩
  · obtain ⟨st, nosemi⟩ := Token.ofSource_fault eqt
    refine ⟨_, _, rfl, st, ?_⟩
    rintro _ ⟨⟩
    exact ⟨rfl, nosemi⟩
  · have located := ParseError.isSome_position? (Program.ofTokens_fault eqt eqp)
    obtain ⟨position, place⟩ := Option.isSome_iff_exists.mp located
    obtain ⟨t, mem, rfl⟩ := Program.exists_token_of_fault eqp place
    obtain ⟨c, _, _, st, _⟩ := (Token.ofSource_eq_ok_iff.mp eqt).1.standsAt mem
    exact ⟨_, c, place, st, nofun⟩

/-- The first character behind a source that is no white space is the semicolon that is added. -/
lemma eq_of_ending {text mid after : List Char} {c : Char} (eq : ending text = mid ++ c :: after)
    (other : isWhiteSpace c = false) : mid = [] ∧ c = ';' ∧ text.getLast? ≠ some ';' := by
  unfold ending at eq
  split at eq
  · rcases List.cons_eq_append_iff.mp eq with ⟨_, eqc⟩ | ⟨_, _, eqc⟩
    · cases eqc
      exact absurd other (by decide)
    · simp at eqc
  · rename_i last
    rcases List.cons_eq_append_iff.mp eq with ⟨rfl, eqc⟩ | ⟨_, _, eqm⟩
    · cases eqc
      exact ⟨rfl, rfl, last⟩
    · rcases List.cons_eq_append_iff.mp eqm with ⟨_, eqc⟩ | ⟨_, _, eqc⟩
      · cases eqc
        exact absurd other (by decide)
      · simp at eqc

/-- A character that is scanned stands in the source, or it is the semicolon that is added behind. -/
lemma StandsAt.source_or_added {source : String} {position : Position} {c : Char}
    (st : StandsAt .start (scannedText source) position c) :
    (∃ before after, source.toList = before ++ c :: after ∧
      position = Position.start.advanceAll before) ∨
    c = ';' ∧ source.toList.getLast? ≠ some ';' ∧ position = Position.start.advanceAll source.toList := by
  obtain ⟨before, after, eq, place, other⟩ := st
  rw [scannedText_eq] at eq
  rcases List.append_eq_append_iff.mp eq with ⟨mid, eqb, eqe⟩ | ⟨mid, eqs, eqc⟩
  · obtain ⟨rfl, eqc, last⟩ := eq_of_ending eqe other
    rw [eqb, List.append_nil] at place
    exact .inr ⟨eqc, last, place⟩
  · cases mid with
    | nil =>
      obtain ⟨_, eqc, last⟩ := eq_of_ending (show _ = [] ++ c :: after from eqc.symm) other
      rw [List.append_nil] at eqs
      rw [← eqs] at place
      exact .inr ⟨eqc, last, place⟩
    | cons d mid =>
      cases eqc
      exact .inl ⟨before, mid, eqs, place⟩

/-- The span of a place where a character is scanned covers this character, or the last one of the source
if the character is the semicolon that is added. -/
lemma StandsAt.exists_covers {source : String} {position : Position} {c : Char}
    (st : StandsAt .start (scannedText source) position c) (nonempty : source ≠ "") :
    ∃ before d after, (Span.ofPosition source.toList position).Covers source before d after ∧
      (position.offset < source.utf8ByteSize →
        (Span.ofPosition source.toList position).start = position.offset) ∧
      (source.utf8ByteSize ≤ position.offset →
        after = [] ∧ position.offset = source.utf8ByteSize ∧ source.toList.getLast? ≠ some ';') ∧
      (c ≠ ';' → d = c) := by
  have bytes : source.utf8ByteSize = byteLength source.toList := by
    rw [byteLength_eq, String.ofList_toList]
  rcases st.source_or_added with ⟨before, after, text, inside⟩ | ⟨rfl, last, behind⟩
  · have covers := Span.ofPosition_inside text inside
    have offset : position.offset = byteLength before := by rw [inside, Position.start_advanceAll]
    refine ⟨before, c, after, covers, ?_, ?_, fun _ => rfl⟩
    · intro _
      rw [covers.start, offset, byteLength_eq]
    · intro le
      have pos := c.utf8Size_pos
      rw [bytes, offset, text, byteLength_append, byteLength_cons] at le
      omega
  · have chars : source.toList ≠ [] := mt String.toList_eq_nil_iff.mp nonempty
    have covers := Span.ofPosition_behind (List.dropLast_append_getLast chars).symm behind
    have offset : position.offset = source.utf8ByteSize := by rw [behind, Position.start_advanceAll, bytes]
    refine ⟨_, _, [], covers, ?_, fun _ => ⟨rfl, offset, last⟩, fun other => absurd rfl other⟩
    intro lt
    rw [offset] at lt
    exact absurd lt (Nat.lt_irrefl _)

/-! ## Diagnostics -/

/-- A fault with a place has one label, which is at this place, and a note with its line and its column. -/
lemma Diagnostic.ofCompileError_eq {e : CompileError} {position : Position} (source : String)
    (path : Option String) (place : e.position? = some position) :
    (Diagnostic.ofCompileError source path e).labels =
        [⟨Span.ofPosition source.toList position, e.message⟩] ∧
      (Diagnostic.ofCompileError source path e).notes =
        ["at line " ++ toString position.line ++ ", column " ++ toString position.column] := by
  rw [Diagnostic.ofCompileError, place, ← Decimal.ofNat_eq_toString, ← Decimal.ofNat_eq_toString]
  cases e with
  | token _ => exact ⟨rfl, rfl⟩
  | parse _ => exact ⟨rfl, rfl⟩

/-- The diagnostic for a source that is not compiled has one label and one note. The label covers one
character of the source: the one at the place of the fault, or the last one if the fault is at the semicolon
that is added. If the source has no tokens, this is the character that the fault is about. -/
theorem Diagnostic.ofCompileError_label (source : String) (path : Option String) (e : CompileError)
    (eq : compile source = .error e) :
    source ≠ "" ∧
    ∃ position span before c after, e.position? = some position ∧
      (Diagnostic.ofCompileError source path e).labels = [⟨span, e.message⟩] ∧
      (Diagnostic.ofCompileError source path e).notes =
        ["at line " ++ toString position.line ++ ", column " ++ toString position.column] ∧
      span.Covers source before c after ∧
      (span.start < span.stop ∧ span.stop ≤ source.utf8ByteSize ∧
        String.Pos.Raw.IsValid source ⟨span.start⟩ ∧ String.Pos.Raw.IsValid source ⟨span.stop⟩) ∧
      (position.offset < source.utf8ByteSize → span.start = position.offset) ∧
      (source.utf8ByteSize ≤ position.offset →
        after = [] ∧ position.offset = source.utf8ByteSize ∧ source.toList.getLast? ≠ some ';') ∧
      ∀ error, e = .token error → c = error.culprit := by
  have some : source ≠ "" := by
    rintro rfl
    have ok : compile "" = .ok "" := by decide +kernel
    rw [ok] at eq
    cases eq
  obtain ⟨position, c, place, st, culprit⟩ := compile_fault_standsAt eq
  obtain ⟨labels, notes⟩ := Diagnostic.ofCompileError_eq source path place
  obtain ⟨before, d, after, covers, inside, behind, same⟩ := st.exists_covers some
  refine ⟨some, position, _, before, d, after, place, labels, notes, covers, covers.bounds, inside,
    behind, ?_⟩
  intro error eqe
  obtain ⟨eqc, other⟩ := culprit error eqe
  rw [same other, eqc]

/-- An unknown character in the second line, behind a character of two bytes. -/
theorem Diagnostic.ofCompileError_label_secondLine :
    ∃ e span before after, compile "dico a esse \"é\";\n$" = .error e ∧
      (Diagnostic.ofCompileError "dico a esse \"é\";\n$" none e).labels = [⟨span, e.message⟩] ∧
      (Diagnostic.ofCompileError "dico a esse \"é\";\n$" none e).notes = ["at line 2, column 1"] ∧
      span.Covers "dico a esse \"é\";\n$" before '$' after ∧ span.start = 18 := by
  have eq : compile "dico a esse \"é\";\n$" = .error (.token (.unknownCharacter '$' ⟨18, 2, 1⟩)) := by
    decide +kernel
  obtain ⟨_, position, span, before, c, after, place, labels, notes, covers, _, inside, _, culprit⟩ :=
    Diagnostic.ofCompileError_label _ none _ eq
  cases place
  obtain rfl : c = '$' := culprit _ rfl
  exact ⟨_, span, before, after, eq, labels, notes, covers, inside (by decide)⟩

end LatinToScript
