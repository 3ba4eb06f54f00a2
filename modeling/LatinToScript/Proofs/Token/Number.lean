import LatinToScript.Proofs.Numeral.Runs
import LatinToScript.Proofs.Token.Fault

/-!
# Numbers in a text

A number is written as a run of glyphs after a minus sign or as a numeral, and its token has the value of
these characters: it is negative after a minus sign and lies between 1 and 3999 without one
(`Lexes.number`). So a value is never missing where one is asked for, and none is zero
(`Numeral.value?_safe`).
-/

namespace LatinToScript

/-- Only numerals are classified as numbers. -/
lemma isNumeral_of_classify {w : List Char} {n : Int} (eq : classify w = .number n) :
    Numeral.isNumeral w = true ∧ n = numeralValue w := by
  unfold classify at eq
  dsimp only at eq
  split at eq
  · rename_i num
    cases eq
    exact ⟨num, rfl⟩
  split at eq
  · cases eq
  split at eq
  · cases eq
  split at eq
  · cases eq
  split at eq
  · cases eq
  split at eq
  · cases eq
  · cases eq

/-- The characters of a number have its value, and the minus sign tells its range. -/
lemma Lexes.number {front more : List Char} {n : Int} (lx : Lexes front more (.number n)) :
    Numeral.value? front = some n ∧ (front.head? = some '-' → n < 0) ∧
      (front.head? ≠ some '-' → 1 ≤ n ∧ n ≤ 3999) := by
  generalize eqk : TokenKind.number n = kind at lx
  cases lx with
  | semicolon => cases eqk
  | text _ => cases eqk
  | opening => cases eqk
  | closing => cases eqk
  | negative some all _ =>
    cases eqk
    obtain ⟨gs, rfl⟩ := exists_glyphs all
    have pos : 0 < Numeral.value gs := by
      apply Numeral.value_pos
      rintro rfl
      exact some rfl
    rw [numeralValue, Numeral.value?_minus_map_toChar, Option.getD_some]
    refine ⟨rfl, fun _ => by omega, ?_⟩
    intro other
    exact absurd rfl other
  | word word _ _ =>
    obtain ⟨num, rfl⟩ := isNumeral_of_classify eqk.symm
    obtain ⟨m, pos, le, eqw⟩ := Numeral.isNumeral_iff.mp num
    have nosign := ne_of_isWordChar word (show isWordChar '-' = false by decide)
    refine ⟨?_, ?_, ?_⟩
    · rw [eqw, numeralValue_word, Numeral.word, Numeral.value?_map_toChar, Numeral.value_ofNat]
    · intro sign
      exact absurd (Option.some.inj sign) nosign
    · intro _
      rw [eqw, numeralValue_word]
      omega

/-- A token other than the semicolon has its characters in the source. -/
lemma Lexes.append_ending {text front lexeme more : List Char} {kind : TokenKind}
    (lx : Lexes lexeme more kind) (other : kind ≠ .semicolon)
    (eq : front ++ lexeme ++ more = text ++ ending text) :
    ∃ after, text = front ++ lexeme ++ after ∧ more = after ++ ending text := by
  rcases List.append_eq_append_iff.mp eq with ⟨after, eqt, eqm⟩ | ⟨mid, eqf, eqe⟩
  · exact ⟨after, eqt, eqm⟩
  · -- The lexeme would end with what is added to the source.
    rcases List.eq_nil_or_concat mid with rfl | ⟨mid, c, rfl⟩
    · rw [List.append_nil] at eqf
      exact ⟨[], by rw [List.append_nil, eqf], eqe.symm⟩
    · rw [List.concat_eq_append] at eqf eqe
      have added := eq_of_mem_ending (show c ∈ ending text by rw [eqe]; simp)
      have some : lexeme ≠ [] := by
        rintro rfl
        cases lx
      have last : c ∈ lexeme.getLast? := by
        rw [← List.getLast?_append_of_ne_nil front some, eqf, ← List.append_assoc,
          List.getLast?_concat]
        rfl
      obtain ⟨noblank, semicolon⟩ := lx.last c last
      rcases added with eqc | eqc
      · exact absurd (semicolon eqc) other
      · exact absurd eqc noblank

/-- Every number of a source is written there. -/
lemma Token.exists_numeral {source : String} {ts : List Token} (eq : Token.ofSource source = .ok ts)
    {t : Token} (mem : t ∈ ts) {n : Int} (kt : t.kind = .number n) :
    ∃ before numeral after, source.toList = before ++ numeral ++ after ∧
      t.position = .ofFront before ∧
      Lexes numeral (after ++ ending source.toList) (.number n) := by
  obtain ⟨sc, _⟩ := Token.ofSource_eq_ok_iff.mp eq
  obtain ⟨before, c, taken, more, eqs, place, lx⟩ := sc.exists_lexeme mem
  rw [kt] at lx
  rw [scannedText_eq] at eqs
  rw [Position.start_advanceAll_eq] at place
  have whole : before ++ c :: taken ++ more = source.toList ++ ending source.toList := by
    rw [eqs, List.append_assoc, List.cons_append]
  obtain ⟨after, text, rfl⟩ := lx.append_ending (fun semicolon => by cases semicolon) whole
  exact ⟨before, c :: taken, after, text, place, lx⟩

namespace Numeral

/-- Every run of glyphs has a value, and no total of the reading leaves the range of 64-bit integers. The
value is the sum of the glyphs, those in front of a larger one being negative, and it is positive. Only
texts with other characters have no value. So the number of a token is always the value of its
characters; it is negative if they start with a minus sign, and a number from 1 to 3999 otherwise. -/
theorem value?_safe :
    (∀ w : List Char, w ≠ [] → (∀ c ∈ w, isGlyph c = true) → 1000 * w.length < 2 ^ 63 →
      ∃ gs v, w = gs.map Glyph.toChar ∧ value? w = some v ∧
        v = ∑ i : Fin gs.length, contribution gs i ∧
        (∀ read, read <:+ gs → -2 ^ 63 ≤ (reading read).1 ∧ (reading read).1 < 2 ^ 63) ∧
        1 ≤ v ∧ v ≤ 1000 * w.length ∧ value? ('-' :: w) = some (-v)) ∧
    (∀ text, value? text = none ↔ ∃ c ∈ unsigned text, isGlyph c = false) ∧
    (∀ source ts, Token.ofSource source = .ok ts → ∀ t ∈ ts, ∀ n, t.kind = .number n →
      ∃ before numeral after, source.toList = before ++ numeral ++ after ∧
        t.position = .ofFront before ∧
        Lexes numeral (after ++ ending source.toList) (.number n) ∧
        value? numeral = some n ∧ (numeral.head? = some '-' → n < 0) ∧
        (numeral.head? ≠ some '-' → 1 ≤ n ∧ n ≤ 3999)) := by
  refine ⟨?_, fun text => value?_eq_none_iff, ?_⟩
  · intro w some all short
    obtain ⟨gs, rfl⟩ := exists_glyphs all
    have pos : 0 < value gs := value_pos (mt List.map_eq_nil_iff.mpr some)
    rw [List.length_map] at short ⊢
    refine ⟨gs, value gs, rfl, value?_map_toChar gs, value_eq_sum gs, ?_, pos, value_le gs,
      value?_minus_map_toChar gs⟩
    intro read suffix
    have bounds := reading_bounds suffix
    omega
  · intro source ts eq t mem n kt
    obtain ⟨before, numeral, after, text, place, lx⟩ := Token.exists_numeral eq mem kt
    exact ⟨before, numeral, after, text, place, lx, lx.number⟩

/-- A run in which every glyph but the last one is subtracted, alone and in a source. -/
theorem value?_safe_ascending :
    (∃ gs v, ['I', 'V', 'X', 'L', 'C', 'D', 'M'] = gs.map Glyph.toChar ∧
      value? ['I', 'V', 'X', 'L', 'C', 'D', 'M'] = some v ∧
      v = ∑ i : Fin gs.length, contribution gs i ∧ 1 ≤ v ∧ v ≤ 7000) ∧
    Token.ofSource "a esse -IVXLCDM" =
      .ok [⟨.name "a", ⟨0, 1, 1⟩⟩, ⟨.copula, ⟨2, 1, 3⟩⟩, ⟨.number (-334), ⟨7, 1, 8⟩⟩,
        ⟨.semicolon, ⟨15, 1, 16⟩⟩] ∧
    ∃ before numeral after, "a esse -IVXLCDM".toList = before ++ numeral ++ after ∧
      ⟨7, 1, 8⟩ = Position.ofFront before ∧ value? numeral = some (-334) := by
  obtain ⟨runs, _, numbers⟩ := value?_safe
  have eq : Token.ofSource "a esse -IVXLCDM" =
      .ok [⟨.name "a", ⟨0, 1, 1⟩⟩, ⟨.copula, ⟨2, 1, 3⟩⟩, ⟨.number (-334), ⟨7, 1, 8⟩⟩,
        ⟨.semicolon, ⟨15, 1, 16⟩⟩] := by
    decide +kernel
  have all : ∀ c ∈ ['I', 'V', 'X', 'L', 'C', 'D', 'M'], isGlyph c = true :=
    List.all_eq_true.mp (by decide)
  obtain ⟨gs, v, chars, value, sum, _, pos, le, _⟩ := runs _ (List.cons_ne_nil _ _) all (by decide)
  obtain ⟨before, numeral, after, text, place, _, valued, _⟩ :=
    numbers _ _ eq ⟨.number (-334), ⟨7, 1, 8⟩⟩ (by simp) _ rfl
  exact ⟨⟨gs, v, chars, value, sum, pos, le⟩, eq, before, numeral, after, text, place, valued⟩

end Numeral

end LatinToScript
