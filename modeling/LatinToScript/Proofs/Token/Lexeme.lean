import LatinToScript.Token.Scan
import LatinToScript.Proofs.Numeral
import Mathlib.Data.List.TakeWhile

/-!
# Lexemes

`Lexes` says which characters are a token, given the text that follows them, and `Scans` cuts a text
into tokens with white space around them. `lexeme` and `scan` compute just that (`lexeme_eq_ok_iff`,
`scan_eq_ok_iff`), so that what follows is proved by induction on `Scans`.
-/

namespace LatinToScript

/-- A text does not go on with a character of a class. -/
def Stops (class? : Char → Bool) (text : List Char) : Prop :=
  ∀ c ∈ text.head?, class? c = false

/-- The end of one text and the start of the next one make no word together. -/
def WordsApart (text more : List Char) : Prop :=
  ∀ c ∈ text.getLast?, isWordChar c = true → Stops isWordChar more

/-- Characters that are a token in front of a text. Words and runs of glyphs go as far as they can. -/
inductive Lexes : List Char → List Char → TokenKind → Prop where
  | semicolon {more} :
    Lexes [';'] more .semicolon
  | text {inside more} :
    '"' ∉ inside →
    Lexes ('"' :: (inside ++ ['"'])) more (.text (String.ofList inside))
  | opening {bracket : Bracket} {more} :
    Lexes [bracket.openingChar] more (.opening bracket)
  | closing {bracket : Bracket} {more} :
    Lexes [bracket.closingChar] more (.closing bracket)
  | negative {glyphs more} :
    glyphs ≠ [] →
    (∀ c ∈ glyphs, isGlyph c = true) →
    Stops isGlyph more →
    Lexes ('-' :: glyphs) more (.number (numeralValue ('-' :: glyphs)))
  | word {c others more} :
    isWordChar c = true →
    (∀ c ∈ others, isWordChar c = true) →
    Stops isWordChar more →
    Lexes (c :: others) more (classify (c :: others))

/-- A text that starts at a position is cut into tokens. -/
inductive Scans : Position → List Char → List Token → Prop where
  | nil {position} :
    Scans position [] []
  | blank {position c text ts} :
    isWhiteSpace c = true →
    Scans (position.advance c) text ts →
    Scans position (c :: text) ts
  | token {position c taken more kind ts} :
    Lexes (c :: taken) more kind →
    Scans (position.advanceAll (c :: taken)) more ts →
    Scans position (c :: (taken ++ more)) (⟨kind, position⟩ :: ts)

/-! ## Classes of characters -/

/-- A glyph can stand in a word. -/
lemma isWordChar_of_isGlyph {c : Char} (glyph : isGlyph c = true) : isWordChar c = true := by
  obtain ⟨g, eq⟩ := Option.isSome_iff_exists.mp glyph
  rw [Glyph.eq_toChar eq]
  cases g <;> decide

/-- The characters of words differ from those that start other tokens. -/
lemma ne_of_isWordChar {c d : Char} (word : isWordChar c = true) (other : isWordChar d = false) :
    c ≠ d := by
  rintro rfl
  rw [word] at other
  cases other

/-- The characters of words lie between `A` and `z`. -/
lemma toNat_of_isWordChar {c : Char} (word : isWordChar c = true) :
    65 ≤ c.toNat ∧ c.toNat ≤ 122 := by
  rw [isWordChar, Bool.or_eq_true, decide_eq_true_eq] at word
  rcases word with alpha | rfl
  · have eq : c.isAlpha = (decide (65 ≤ c.val ∧ c.val ≤ 90) ||
        (decide (97 ≤ c.val) && decide (c.val ≤ 122))) := rfl
    simp only [eq, Bool.or_eq_true, Bool.and_eq_true, decide_eq_true_eq,
      UInt32.le_iff_toNat_le] at alpha
    change (65 ≤ c.toNat ∧ c.toNat ≤ 90) ∨ (97 ≤ c.toNat ∧ c.toNat ≤ 122) at alpha
    omega
  · decide

/-- The characters of words are no white space. -/
lemma isWhiteSpace_of_isWordChar {c : Char} (word : isWordChar c = true) :
    isWhiteSpace c = false := by
  obtain ⟨low, high⟩ := toNat_of_isWordChar word
  -- No range meets the letters.
  have off : ∀ range ∈ whiteSpaceRanges, range.2 < 65 ∨ 122 < range.1 := by decide
  rw [isWhiteSpace, List.any_eq_false]
  intro range mem
  rw [Bool.and_eq_true, decide_eq_true_eq, decide_eq_true_eq]
  have := off range mem
  omega

/-- No digit stands in a word. -/
lemma isWordChar_of_isDigit {c : Char} (digit : c.isDigit = true) : isWordChar c = false := by
  rw [← Bool.not_eq_true]
  intro word
  have bounds := toNat_of_isWordChar word
  have digits : 48 ≤ c.toNat ∧ c.toNat ≤ 57 := Char.isDigit_iff_toNat.mp digit
  omega

/-- A text after the characters of a class is what the class leaves. -/
lemma takeWhile_append_of_stops {class? : Char → Bool} {taken more : List Char}
    (all : ∀ c ∈ taken, class? c = true) (stops : Stops class? more) :
    (taken ++ more).takeWhile class? = taken := by
  rw [List.takeWhile_append_of_pos all]
  cases more with
  | nil => simp
  | cons c more =>
    rw [List.takeWhile_cons_of_neg (by rw [stops c rfl]; decide), List.append_nil]

/-- A class takes characters up to where the text stops. -/
lemma exists_takeWhile (class? : Char → Bool) (text : List Char) :
    ∃ more, text = text.takeWhile class? ++ more ∧ Stops class? more := by
  refine ⟨text.dropWhile class?, List.takeWhile_append_dropWhile.symm, ?_⟩
  intro c mem
  have := List.head?_dropWhile_not class? text
  rw [Option.mem_def.mp mem] at this
  simpa using this

/-- Two runs of one class, where the class ends, are equal if the whole texts are. -/
lemma append_cancel_of_stops {class? : Char → Bool} {text text' more more' : List Char}
    (all : ∀ c ∈ text, class? c = true) (all' : ∀ c ∈ text', class? c = true)
    (stops : Stops class? more) (stops' : Stops class? more')
    (eq : text ++ more = text' ++ more') : text = text' ∧ more = more' := by
  have same : text = text' := by
    rw [← takeWhile_append_of_stops all stops, eq, takeWhile_append_of_stops all' stops']
  rw [same] at eq
  exact ⟨same, List.append_cancel_left eq⟩

/-- A text up to the first occurrence of a character is known from every longer text. -/
lemma append_cons_cancel {c : Char} {text text' more more' : List Char} (no : c ∉ text)
    (no' : c ∉ text') (eq : text ++ c :: more = text' ++ c :: more') : text = text' ∧ more = more' := by
  have all : ∀ text : List Char, c ∉ text → ∀ d ∈ text, decide (d ≠ c) = true := by
    intro text no d mem
    apply decide_eq_true
    rintro rfl
    exact no mem
  have stops : ∀ more : List Char, Stops (fun d => decide (d ≠ c)) (c :: more) := by
    rintro more d ⟨⟩
    exact decide_eq_false (not_not_intro rfl)
  obtain ⟨same, rest⟩ := append_cancel_of_stops (all text no) (all text' no') (stops more)
    (stops more') eq
  exact ⟨same, (List.cons.inj rest).2⟩

/-! ## Single tokens -/

/-- A quoted text that is not finished holds no second quote. -/
lemma takeWhile_quote_eq {rest : List Char}
    (short : (rest.takeWhile (· ≠ '"')).length < rest.length) :
    ∃ more, rest = rest.takeWhile (· ≠ '"') ++ '"' :: more := by
  obtain ⟨more, eq, stops⟩ := exists_takeWhile (· ≠ '"') rest
  cases more with
  | nil =>
    rw [List.append_nil] at eq
    rw [← eq] at short
    exact absurd short (Nat.lt_irrefl _)
  | cons c more =>
    have := stops c rfl
    simp only [ne_eq, decide_not, Bool.not_eq_false', decide_eq_true_eq] at this
    subst this
    exact ⟨more, eq⟩

/-- The token at the front of a text is read exactly as far as its characters go. -/
lemma lexeme_eq_ok_iff {position : Position} {c : Char} {rest : List Char} {kind : TokenKind}
    {length : Nat} :
    lexeme position c rest = .ok (kind, length) ↔
      ∃ taken more, rest = taken ++ more ∧ length = taken.length ∧ Lexes (c :: taken) more kind := by
  constructor
  · intro eq
    unfold lexeme at eq
    split at eq
    · rename_i eqc
      cases eq
      subst eqc
      exact ⟨[], rest, rfl, rfl, .semicolon⟩
    split at eq
    · rename_i eqc
      subst eqc
      dsimp only at eq
      split at eq
      · rename_i short
        cases eq
        obtain ⟨more, eqr⟩ := takeWhile_quote_eq short
        refine ⟨rest.takeWhile (· ≠ '"') ++ ['"'], more, ?_, ?_, .text ?_⟩
        · rw [List.append_assoc, List.singleton_append]
          exact eqr
        · rw [List.length_append, List.length_singleton]
        · intro mem
          have := List.mem_takeWhile_imp mem
          simp at this
      · cases eq
    split at eq
    · rename_i eqc
      cases eq
      subst eqc
      exact ⟨[], rest, rfl, rfl, .opening⟩
    split at eq
    · rename_i eqc
      cases eq
      subst eqc
      exact ⟨[], rest, rfl, rfl, .closing⟩
    split at eq
    · rename_i eqc
      cases eq
      subst eqc
      exact ⟨[], rest, rfl, rfl, .opening⟩
    split at eq
    · rename_i eqc
      cases eq
      subst eqc
      exact ⟨[], rest, rfl, rfl, .closing⟩
    split at eq
    · rename_i minus
      rw [Bool.and_eq_true, decide_eq_true_eq] at minus
      obtain ⟨rfl, next⟩ := minus
      cases eq
      obtain ⟨more, eqr, stops⟩ := exists_takeWhile isGlyph rest
      -- The character after the sign is a glyph, so the run is not empty.
      refine ⟨_, more, eqr, rfl, .negative ?_ (fun c mem => List.mem_takeWhile_imp mem) stops⟩
      cases rest with
      | nil => cases next
      | cons d rest =>
        have glyph : isGlyph d = true := next
        rw [List.takeWhile_cons_of_pos glyph]
        exact List.cons_ne_nil _ _
    split at eq
    · rename_i word
      cases eq
      obtain ⟨more, eqr, stops⟩ := exists_takeWhile isWordChar rest
      exact ⟨_, more, eqr, rfl, .word word (fun c mem => List.mem_takeWhile_imp mem) stops⟩
    · cases eq
  · rintro ⟨taken, more, rfl, rfl, lx⟩
    generalize eqt : c :: taken = front at lx
    cases lx with
    | semicolon =>
      cases eqt
      rfl
    | @text inside more no =>
      cases eqt
      have all : ∀ d ∈ inside, decide (d ≠ '"') = true := by
        intro d mem
        rw [decide_eq_true_eq]
        rintro rfl
        exact no mem
      have eq : (inside ++ ['"'] ++ more).takeWhile (· ≠ '"') = inside := by
        rw [List.append_assoc]
        exact takeWhile_append_of_stops all (by intro d mem; cases mem; decide)
      have short : inside.length < (inside ++ ['"'] ++ more).length := by
        simp only [List.length_append, List.length_singleton]
        omega
      simp only [lexeme, eq, short, if_true]
      simp
    | @opening bracket more =>
      cases eqt
      cases bracket <;> rfl
    | @closing bracket more =>
      cases eqt
      cases bracket <;> rfl
    | @negative glyphs more some all stops =>
      cases eqt
      have next : ((taken ++ more).head?.any isGlyph) = true := by
        cases taken with
        | nil => exact absurd rfl some
        | cons d taken => exact all d List.mem_cons_self
      have eq := takeWhile_append_of_stops all stops
      rw [lexeme, if_neg (by decide), if_neg (by decide), if_neg (by decide), if_neg (by decide),
        if_neg (by decide), if_neg (by decide), if_pos (by rw [next]; decide)]
      simp only [eq]
    | @word c others more word all stops =>
      cases eqt
      have eq := takeWhile_append_of_stops all stops
      have ne {d : Char} (other : isWordChar d = false) : c ≠ d := ne_of_isWordChar word other
      rw [lexeme, if_neg (ne (by decide)), if_neg (ne (by decide)), if_neg (ne (by decide)),
        if_neg (ne (by decide)), if_neg (ne (by decide)), if_neg (ne (by decide)),
        if_neg (by simp [ne (show isWordChar '-' = false by decide)]), if_pos word]
      simp only [eq]

/-- No token starts with white space. -/
lemma Lexes.not_blank {c : Char} {taken more : List Char} {kind : TokenKind}
    (lx : Lexes (c :: taken) more kind) : isWhiteSpace c = false := by
  generalize eqt : c :: taken = front at lx
  cases lx with
  | semicolon => cases eqt; decide
  | text _ => cases eqt; decide
  | @opening bracket _ => cases eqt; cases bracket <;> decide
  | @closing bracket _ => cases eqt; cases bracket <;> decide
  | negative _ _ _ => cases eqt; decide
  | word word _ _ => cases eqt; exact isWhiteSpace_of_isWordChar word

/-! ## Whole texts -/

/-- A text is scanned exactly as it is cut into tokens. -/
lemma scan_eq_ok_iff {position : Position} {text : List Char} {ts : List Token} :
    scan position text = .ok ts ↔ Scans position text ts := by
  constructor
  · intro eq
    fun_induction scan position text generalizing ts with
    | case1 position =>
      cases eq
      exact .nil
    | case2 position c rest blank ih => exact .blank blank (ih eq)
    | case3 position c rest _ e eqe => cases eq
    | case4 position c rest _ kind length eql e eqe _ => cases eq
    | case5 position c rest _ kind length eql us eqs ih =>
      cases eq
      obtain ⟨taken, more, rfl, rfl, lx⟩ := lexeme_eq_ok_iff.mp eql
      rw [List.take_left, List.drop_left] at ih eqs
      exact .token lx (ih eqs)
  · intro sc
    induction sc with
    | nil => rw [scan]
    | blank blank _ ih => rw [scan, if_pos blank, ih]
    | @token position c taken more kind ts lx _ ih =>
      have eql : lexeme position c (taken ++ more) = .ok (kind, taken.length) :=
        lexeme_eq_ok_iff.mpr ⟨taken, more, rfl, rfl, lx⟩
      rw [scan, if_neg (by rw [lx.not_blank]; decide), eql]
      dsimp only
      rw [List.take_left, List.drop_left, ih]

end LatinToScript
