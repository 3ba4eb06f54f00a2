import LatinToScript.Proofs.Token.Lexical

/-!
# Latin spellings

`TokenKind.latin` writes a token down in the source language. Every token that can come from a text comes
back from its spelling (`TokenKind.Lexical.lexes`), and tokens with blanks between them come back from
their text (`spells_scannedText`), after which the text that is scanned may have a semicolon more.
-/

namespace LatinToScript

/-- The Roman numeral of an integer, with a minus sign in front of it when it is negative. It is the
canonical one up to 3999 and has more than three thousands above that. -/
def Numeral.spelling (value : Int) : List Char :=
  if value < 0 then
    '-' :: Numeral.word value.natAbs
  else
    Numeral.word value.natAbs

/-- How a token is spelled in the source language. -/
def TokenKind.latin : TokenKind → String
  | .keyword k => k.word
  | .name n => n
  | .copula => copulaWord
  | .number value => String.ofList (Numeral.spelling value)
  | .text t => "\"" ++ t ++ "\""
  | .boolean word => word
  | .null => nullWord
  | .operator word => word
  | .semicolon => ";"
  | .opening bracket => bracket.openingChar.toString
  | .closing bracket => bracket.closingChar.toString

/-- The spellings of tokens with single blanks between them. -/
def spaced (ks : List TokenKind) : String :=
  String.intercalate " " (ks.map TokenKind.latin)

/-! ## Single tokens -/

/-- A numeral is a word. -/
lemma Numeral.isWordChar_of_mem_word {n : Nat} {c : Char} (mem : c ∈ Numeral.word n) :
    isWordChar c = true := by
  obtain ⟨g, _, rfl⟩ := List.mem_map.mp mem
  exact isWordChar_of_isGlyph (isGlyph_toChar g)

/-- There is no empty numeral. -/
lemma Numeral.word_ne_nil {n : Nat} (pos : 0 < n) : Numeral.word n ≠ [] :=
  mt List.map_eq_nil_iff.mp (Numeral.ofNat_ne_nil pos)

/-- A word is a token if the text does not go on with it. -/
lemma lexes_classify {w more : List Char} (some : w ≠ []) (word : ∀ c ∈ w, isWordChar c = true)
    (stops : Stops isWordChar more) : Lexes w more (classify w) := by
  cases w with
  | nil => exact absurd rfl some
  | cons c others =>
    rw [List.forall_mem_cons] at word
    exact .word word.1 word.2 stops

/-- A name is classified as one. -/
lemma IsName.classify_eq {n : String} (nm : IsName n) : classify n.toList = .name n := by
  obtain ⟨nokey, nonull, nocopula, nobool, noop⟩ := not_mem_reservedWords_iff.mp nm.not_reserved
  unfold classify
  dsimp only
  rw [String.ofList_toList, if_neg (by rw [nm.not_numeral]; decide), nokey]
  dsimp only
  rw [if_neg nonull, if_neg nocopula, if_neg (mt List.contains_iff_mem.mp nobool),
    if_neg (mt List.contains_iff_mem.mp noop)]

/-- An integer that can come from a text is read back from its numeral. -/
lemma lexes_numeral {value : Int} {more : List Char} (ne : value ≠ 0) (le : value ≤ 3999)
    (stops : Stops isWordChar more) : Lexes (Numeral.spelling value) more (.number value) := by
  have pos : 0 < value.natAbs := Int.natAbs_pos.mpr ne
  unfold Numeral.spelling
  split
  · rename_i neg
    have eq : numeralValue ('-' :: Numeral.word value.natAbs) = value := by
      rw [numeralValue, Numeral.word, Numeral.value?_minus_map_toChar, Option.getD_some,
        Numeral.value_ofNat]
      omega
    have glyphs : ∀ c ∈ Numeral.word value.natAbs, isGlyph c = true := by
      intro c mem
      obtain ⟨g, _, rfl⟩ := List.mem_map.mp mem
      exact isGlyph_toChar g
    have stops' : Stops isGlyph more := by
      intro c mem
      apply Bool.eq_false_iff.mpr
      intro glyph
      have := stops c mem
      rw [isWordChar_of_isGlyph glyph] at this
      cases this
    have lx := Lexes.negative (Numeral.word_ne_nil pos) glyphs stops'
    rwa [eq] at lx
  · rename_i nonneg
    have num : Numeral.isNumeral (Numeral.word value.natAbs) = true :=
      Numeral.isNumeral_iff.mpr ⟨value.natAbs, pos, by omega, rfl⟩
    have eq : classify (Numeral.word value.natAbs) = .number value := by
      unfold classify
      dsimp only
      rw [if_pos num, numeralValue_word]
      congr 1
      omega
    rw [← eq]
    exact lexes_classify (Numeral.word_ne_nil pos) (fun _ => Numeral.isWordChar_of_mem_word) stops

/-- A token that can come from a text comes back from its spelling. -/
lemma TokenKind.Lexical.lexes {k : TokenKind} {more : List Char} (lex : k.Lexical)
    (stops : Stops isWordChar more) : Lexes k.latin.toList more k := by
  -- Words with a meaning of their own are finitely many.
  have reserved : ∀ {w : List Char} {k : TokenKind},
      (w ≠ [] ∧ w.all isWordChar = true ∧ classify w = k) → Lexes w more k := by
    rintro w _ ⟨some, word, rfl⟩
    exact lexes_classify some (List.all_eq_true.mp word) stops
  cases k with
  | keyword k =>
    rcases k with ⟨_ | _ | _⟩ | ⟨_ | _⟩ <;> exact reserved (by decide)
  | name n =>
    have nm : IsName n := lex
    have lx := lexes_classify (mt String.toList_eq_nil_iff.mp nm.ne_empty) nm.word stops
    rwa [nm.classify_eq] at lx
  | copula => exact reserved (by decide)
  | number value =>
    rw [TokenKind.latin, String.toList_ofList]
    exact lexes_numeral lex.1 lex.2 stops
  | text t =>
    have lx : Lexes ('"' :: (t.toList ++ ['"'])) more (.text (String.ofList t.toList)) := .text lex
    rw [String.ofList_toList] at lx
    rwa [show (TokenKind.text t).latin.toList = '"' :: (t.toList ++ ['"']) by simp [TokenKind.latin]]
  | boolean word =>
    have mem : word ∈ booleanWords := lex
    simp only [booleanWords, List.mem_cons, List.not_mem_nil, or_false] at mem
    rcases mem with rfl | rfl <;> exact reserved (by decide)
  | null => exact reserved (by decide)
  | operator word =>
    have mem : word ∈ operatorWords := lex
    simp only [operatorWords, List.mem_cons, List.not_mem_nil, or_false] at mem
    rcases mem with rfl | rfl | rfl | rfl | rfl | rfl | rfl | rfl <;> exact reserved (by decide)
  | semicolon => exact .semicolon
  | opening bracket =>
    have eq : (TokenKind.opening bracket).latin.toList = [bracket.openingChar] :=
      String.toList_singleton _
    rw [eq]
    exact .opening
  | closing bracket =>
    have eq : (TokenKind.closing bracket).latin.toList = [bracket.closingChar] :=
      String.toList_singleton _
    rw [eq]
    exact .closing

/-! ## Texts -/

/-- A text is cut into tokens of these kinds, wherever it starts. -/
def Spells (text : List Char) (ks : List TokenKind) : Prop :=
  ∀ position, ∃ ts, Scans position text ts ∧ kinds ts = ks

/-- The empty text spells no tokens. -/
lemma spells_nil : Spells [] [] := by
  intro position
  exact ⟨[], .nil, rfl⟩

/-- A blank in front of a text plays no part. -/
lemma Spells.blank {text : List Char} {ks : List TokenKind} (sp : Spells text ks) :
    Spells (' ' :: text) ks := by
  intro position
  obtain ⟨ts, sc, eq⟩ := sp (position.advance ' ')
  exact ⟨ts, .blank (by decide) sc, eq⟩

/-- A token in front of a text is its first one. -/
lemma Spells.token {front more : List Char} {k : TokenKind} {ks : List TokenKind}
    (lx : Lexes front more k) (sp : Spells more ks) : Spells (front ++ more) (k :: ks) := by
  intro position
  cases front with
  | nil => cases lx
  | cons c taken =>
    obtain ⟨ts, sc, eq⟩ := sp (position.advanceAll (c :: taken))
    exact ⟨⟨k, position⟩ :: ts, .token lx sc, by rw [kinds_cons, eq]⟩

/-- Tokens with blanks between them come back from their text. -/
lemma Spells.spaced {ks ls : List TokenKind} {more : List Char} (lex : ∀ k ∈ ks, k.Lexical)
    (stops : Stops isWordChar more) (sp : Spells more ls) :
    Spells ((spaced ks).toList ++ more) (ks ++ ls) := by
  induction ks with
  | nil => exact sp
  | cons k ks ih =>
    rw [List.forall_mem_cons] at lex
    cases ks with
    | nil =>
      rw [LatinToScript.spaced, List.map_singleton, String.intercalate_singleton]
      exact .token (lex.1.lexes stops) sp
    | cons l ks =>
      -- The blank ends the token, whatever it is.
      have stop : Stops isWordChar (' ' :: ((LatinToScript.spaced (l :: ks)).toList ++ more)) := by
        rintro c ⟨⟩
        decide
      have all := Spells.token (lex.1.lexes stop) (ih lex.2).blank
      rw [LatinToScript.spaced, List.map_cons, List.map_cons, String.intercalate_cons_cons]
      simpa [LatinToScript.spaced] using all

/-- Tokens with blanks between them are scanned as they are, perhaps with a semicolon more. -/
lemma spells_scannedText {ks : List TokenKind} (lex : ∀ k ∈ ks, k.Lexical) :
    ∃ ending, (ending = [] ∨ ending = [.semicolon]) ∧
      Spells (scannedText (spaced ks)) (ks ++ ending) := by
  have blank : Spells [' '] [] := spells_nil.blank
  unfold scannedText
  dsimp only
  split
  · refine ⟨[], .inl rfl, Spells.spaced lex ?_ blank⟩
    rintro c ⟨⟩
    decide
  · refine ⟨[.semicolon], .inr rfl, Spells.spaced lex ?_ (blank.token .semicolon)⟩
    rintro c ⟨⟩
    decide

end LatinToScript
