import LatinToScript.Proofs.Token.Balance
import LatinToScript.Proofs.Token.Lexeme

/-!
# What the tokens of a text can hold

`TokenKind.Lexical` says what names, numbers, texts and words a token can hold when it comes from a
text. Every token that is scanned is such a token (`Scans.lexical`).
-/

namespace LatinToScript

/-- The words with a meaning of their own. -/
def reservedWords : List String :=
  ["dico", "constituo", "pono", "si", "dum", nullWord, copulaWord] ++ booleanWords ++ operatorWords

/-- A word that can be a name. -/
structure IsName (n : String) : Prop where
  ne_empty : n ≠ ""
  word : ∀ c ∈ n.toList, isWordChar c = true
  not_numeral : Numeral.isNumeral n.toList = false
  not_reserved : n ∉ reservedWords

namespace TokenKind

/-- A token that can come from a text. -/
def Lexical : TokenKind → Prop
  | .name n => IsName n
  | .number value => value ≠ 0 ∧ value ≤ 3999
  | .text t => '"' ∉ t.toList
  | .boolean word => word ∈ booleanWords
  | .operator word => word ∈ operatorWords
  | _ => True

end TokenKind

/-! ## Words -/

/-- A word is no keyword when it is none of the five. -/
lemma Keyword.ofWord?_eq_none_iff {w : String} :
    Keyword.ofWord? w = none ↔ w ∉ ["dico", "constituo", "pono", "si", "dum"] := by
  constructor
  · intro none mem
    simp only [List.mem_cons, List.not_mem_nil, or_false] at mem
    rcases mem with rfl | rfl | rfl | rfl | rfl <;> cases none
  · intro no
    simp only [List.mem_cons, List.not_mem_nil, or_false, not_or] at no
    obtain ⟨nodico, noconstituo, nopono, nosi, nodum⟩ := no
    unfold Keyword.ofWord?
    split
    · exact absurd rfl nodico
    · exact absurd rfl noconstituo
    · exact absurd rfl nopono
    · exact absurd rfl nosi
    · exact absurd rfl nodum
    · rfl

/-- A word is not reserved when it falls under none of the classes of such words. -/
lemma not_mem_reservedWords_iff {w : String} :
    w ∉ reservedWords ↔
      Keyword.ofWord? w = none ∧ w ≠ nullWord ∧ w ≠ copulaWord ∧ w ∉ booleanWords ∧
        w ∉ operatorWords := by
  rw [Keyword.ofWord?_eq_none_iff]
  simp only [reservedWords, List.mem_append, List.mem_cons, List.not_mem_nil, or_false, not_or,
    and_assoc, ne_eq]

/-- The value of a numeral is a number from 1 to 3999. -/
lemma numeralValue_word (n : Nat) : numeralValue (Numeral.word n) = n := by
  rw [numeralValue, Numeral.word, Numeral.value?_map_toChar, Option.getD_some, Numeral.value_ofNat]

/-- Words are classified as tokens that can come from a text. -/
lemma classify_lexical {w : List Char} (some : w ≠ []) (word : ∀ c ∈ w, isWordChar c = true) :
    (classify w).Lexical := by
  unfold classify
  dsimp only
  split
  · rename_i num
    obtain ⟨n, pos, le, rfl⟩ := Numeral.isNumeral_iff.mp num
    rw [numeralValue_word]
    exact ⟨by omega, by omega⟩
  rename_i nonum
  split
  · trivial
  rename_i nokey
  split
  · trivial
  rename_i nonull
  split
  · trivial
  rename_i nocopula
  split
  · rename_i mem
    exact List.contains_iff_mem.mp mem
  rename_i nobool
  split
  · rename_i mem
    exact List.contains_iff_mem.mp mem
  rename_i noop
  -- Only a word that has failed every other test is left for a name.
  refine ⟨?_, ?_, ?_, ?_⟩
  · rwa [ne_eq, String.ofList_eq_empty_iff]
  · rwa [String.toList_ofList]
  · rwa [String.toList_ofList, ← Bool.not_eq_true]
  · exact not_mem_reservedWords_iff.mpr ⟨Option.eq_none_iff_forall_ne_some.mpr nokey, nonull,
      nocopula, mt List.contains_iff_mem.mpr nobool, mt List.contains_iff_mem.mpr noop⟩

/-! ## Tokens -/

/-- Every token of a text can come from a text. -/
lemma Lexes.lexical {front more : List Char} {kind : TokenKind} (lx : Lexes front more kind) :
    kind.Lexical := by
  cases lx with
  | semicolon => trivial
  | text no =>
    intro mem
    rw [String.toList_ofList] at mem
    exact no mem
  | opening => trivial
  | closing => trivial
  | negative some all _ =>
    obtain ⟨gs, rfl⟩ := exists_glyphs all
    have pos : 0 < Numeral.value gs := by
      apply Numeral.value_pos
      rintro rfl
      exact some rfl
    rw [numeralValue, Numeral.value?_minus_map_toChar, Option.getD_some]
    exact ⟨by omega, by omega⟩
  | word word all _ =>
    apply classify_lexical (List.cons_ne_nil _ _)
    intro c mem
    rcases List.mem_cons.mp mem with rfl | mem
    · exact word
    · exact all c mem

/-- All tokens of a text can come from a text. -/
lemma Scans.lexical {position : Position} {text : List Char} {ts : List Token}
    (sc : Scans position text ts) : ∀ t ∈ ts, t.kind.Lexical := by
  induction sc with
  | nil => exact nofun
  | blank _ _ ih => exact ih
  | token lx _ ih =>
    intro t mem
    rcases List.mem_cons.mp mem with rfl | mem
    · exact lx.lexical
    · exact ih t mem

/-- A source is tokenized exactly when its text is cut into tokens whose brackets are balanced. -/
lemma Token.ofSource_eq_ok_iff {source : String} {ts : List Token} :
    Token.ofSource source = .ok ts ↔
      Scans .start (scannedText source) ts ∧ checkBalance ts = .ok () := by
  rw [← scan_eq_ok_iff, Token.ofSource]
  constructor
  · intro eq
    split at eq
    · cases eq
    · rename_i us eqs
      split at eq
      · cases eq
      · rename_i eqb
        cases eq
        exact ⟨eqs, eqb⟩
  · rintro ⟨eqs, eqb⟩
    rw [eqs]
    dsimp only
    rw [eqb]

/-- All tokens of a source can come from a text. -/
lemma Token.ofSource_lexical {source : String} {ts : List Token}
    (eq : Token.ofSource source = .ok ts) : ∀ k ∈ kinds ts, k.Lexical := by
  intro k mem
  obtain ⟨t, memt, rfl⟩ := List.mem_map.mp mem
  exact (Token.ofSource_eq_ok_iff.mp eq).1.lexical t memt

end LatinToScript
