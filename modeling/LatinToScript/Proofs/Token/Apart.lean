import LatinToScript.Proofs.Position
import LatinToScript.Proofs.Token.Lexeme
import Mathlib.Algebra.Group.Nat.Even

/-!
# Texts that are scanned apart

A text that is cut outside of quotes, and not inside a word or a number, has the tokens of its two parts
(`scan_append`). Quotes come in pairs, so a part ends outside of them when it has an even number of them.
-/

namespace LatinToScript

/-- The end of one text and the start of the next one make no word or number together. -/
structure Apart (text more : List Char) : Prop where
  word : WordsApart text more
  sign : '-' ∈ text.getLast? → Stops isGlyph more

/-- Where no word goes on no numeral does. -/
lemma Stops.glyph {more : List Char} (stops : Stops isWordChar more) : Stops isGlyph more := by
  intro c mem
  rw [← Bool.not_eq_true]
  intro glyph
  exact ne_of_isWordChar (isWordChar_of_isGlyph glyph) (stops c mem) rfl

/-- Where a class stops the next character is not in it. -/
lemma Stops.any_head? {class? : Char → Bool} {text : List Char} (stops : Stops class? text) :
    text.head?.any class? = false := by
  cases text with
  | nil => rfl
  | cons c text => exact stops c rfl

namespace Apart

variable {text more : List Char}

/-- Texts are apart if the second one goes on with no word. -/
lemma of_stops (stops : Stops isWordChar more) : Apart text more :=
  ⟨fun _ _ _ => stops, fun _ => stops.glyph⟩

/-- Only the last character of the first text counts. -/
lemma of_append {front : List Char} (apart : Apart (front ++ text) more) : Apart text more := by
  have last : ∀ {c}, c ∈ text.getLast? → c ∈ (front ++ text).getLast? := by
    intro c mem
    rw [List.getLast?_append, Option.mem_def.mp mem]
    rfl
  exact ⟨fun c mem => apart.word c (last mem), fun mem => apart.sign (last mem)⟩

/-- Texts are apart without the first character of the first one. -/
lemma of_cons {c : Char} (apart : Apart (c :: text) more) : Apart text more :=
  of_append (show Apart ([c] ++ text) more from apart)

/-- Texts are apart with more text behind, as long as no word goes on there. -/
lemma append {others : List Char} (apart : Apart text more) (stops : Stops isWordChar others) :
    Apart text (more ++ others) := by
  cases more with
  | nil => exact of_stops stops
  | cons c more => exact ⟨apart.word, apart.sign⟩

/-- Behind a text that is a word no word goes on, if the next one is apart from it. -/
lemma stops_of_word (apart : Apart text more) (some : text ≠ [])
    (all : ∀ c ∈ text, isWordChar c = true) : Stops isWordChar more :=
  apart.word _ (List.getLast?_eq_some_getLast some) (all _ (List.getLast_mem some))

end Apart

/-! ## Single tokens -/

/-- More text does not change the run of a class that it does not go on with. -/
lemma takeWhile_append_eq {class? : Char → Bool} {text more : List Char}
    (stops : (∀ c ∈ text, class? c = true) → Stops class? more) :
    (text ++ more).takeWhile class? = text.takeWhile class? := by
  obtain ⟨rest, eq, stopsr⟩ := exists_takeWhile class? text
  have all : ∀ c ∈ text.takeWhile class?, class? c = true := fun c mem => List.mem_takeWhile_imp mem
  generalize text.takeWhile class? = taken at eq all
  subst eq
  cases rest with
  | nil =>
    rw [List.append_nil] at stops ⊢
    exact takeWhile_append_of_stops all (stops all)
  | cons c rest =>
    rw [List.append_assoc]
    exact takeWhile_append_of_stops all stopsr

/-- The token at the front of a text, or the fault there, is the same if more text stands apart. -/
lemma lexeme_append {position : Position} {c : Char} {rest more : List Char}
    (apart : Apart (c :: rest) more) (closed : c = '"' → '"' ∈ rest) :
    lexeme position c (rest ++ more) = lexeme position c rest := by
  unfold lexeme
  dsimp only
  -- Only quoted texts, negative numbers and words look at the characters behind the first one.
  refine ite_congr rfl (fun _ => rfl) fun _ => ite_congr rfl (fun quote => ?_) fun _ => ?_
  · have mem := closed quote
    have eq : (rest ++ more).takeWhile (· ≠ '"') = rest.takeWhile (· ≠ '"') :=
      takeWhile_append_eq fun all => absurd (all '"' mem) (by decide)
    have short : (rest.takeWhile (· ≠ '"')).length < rest.length := by
      apply Nat.lt_of_le_of_ne (List.takeWhile_sublist _).length_le
      intro same
      have whole := (List.takeWhile_sublist _).eq_of_length same
      rw [← whole] at mem
      exact absurd (List.mem_takeWhile_imp mem) (by decide)
    rw [eq, if_pos short, if_pos (Nat.lt_of_lt_of_le short (by simp))]
  refine ite_congr rfl (fun _ => rfl) fun _ => ite_congr rfl (fun _ => rfl) fun _ => ?_
  refine ite_congr rfl (fun _ => rfl) fun _ => ite_congr rfl (fun _ => rfl) fun _ => ?_
  refine ite_congr ?_ (fun negative => ?_) fun _ => ite_congr rfl (fun word => ?_) fun _ => rfl
  · cases rest with
    | cons d rest => rfl
    | nil =>
      by_cases minus : c = '-'
      · rw [minus] at apart
        rw [List.nil_append, (apart.sign rfl).any_head?]
        rfl
      · rw [decide_eq_false minus, Bool.false_and, Bool.false_and]
  · rw [takeWhile_append_eq]
    intro all
    have some : rest ≠ [] := by
      rintro rfl
      rw [Bool.and_eq_true] at negative
      cases negative.2
    have inner : Apart rest more := apart.of_cons
    exact (inner.stops_of_word some fun d mem => isWordChar_of_isGlyph (all d mem)).glyph
  · rw [takeWhile_append_eq]
    intro all
    apply apart.stops_of_word (List.cons_ne_nil _ _)
    intro d mem
    rcases List.mem_cons.mp mem with rfl | mem
    · exact word
    · exact all d mem

/-- The quotes of a token are its first and its last character. -/
lemma Lexes.even_quotes {front more : List Char} {kind : TokenKind} (lx : Lexes front more kind) :
    Even (front.count '"') := by
  have of_word : ∀ {word : List Char}, (∀ c ∈ word, isWordChar c = true) → word.count '"' = 0 := by
    intro word all
    rw [List.count_eq_zero]
    intro mem
    exact absurd (all '"' mem) (by decide)
  cases lx with
  | semicolon => decide
  | text no =>
    rw [List.count_cons_self, List.count_append, List.count_eq_zero_of_not_mem no]
    decide
  | @opening bracket => cases bracket <;> decide
  | @closing bracket => cases bracket <;> decide
  | negative _ all _ =>
    rw [List.count_cons_of_ne (by decide), of_word fun c mem => isWordChar_of_isGlyph (all c mem)]
    decide
  | word word all _ =>
    rw [List.count_cons_of_ne (ne_of_isWordChar word (by decide)), of_word all]
    decide

/-- A token takes its quotes in pairs. -/
lemma Lexes.even_rest {front more rest : List Char} {kind : TokenKind} (lx : Lexes front more kind)
    (even : Even ((front ++ rest).count '"')) : Even (rest.count '"') := by
  rw [List.count_append] at even
  exact (Nat.even_add.mp even).mp lx.even_quotes

/-! ## Whole texts -/

/-- A token that is found is the first one, and scanning goes on behind its characters. -/
lemma scan_of_lexeme {position : Position} {c : Char} {taken rest : List Char} {kind : TokenKind}
    (other : ¬ isWhiteSpace c = true) (eq : lexeme position c (taken ++ rest) = .ok (kind, taken.length)) :
    scan position (c :: (taken ++ rest)) =
      (scan (position.advanceAll (c :: taken)) rest).map (⟨kind, position⟩ :: ·) := by
  rw [scan, if_neg other, eq]
  dsimp only
  rw [List.take_left, List.drop_left]
  cases scan (position.advanceAll (c :: taken)) rest <;> rfl

/-- Quotes come in pairs in a text that has tokens. -/
lemma Scans.even_quotes {position : Position} {text : List Char} {ts : List Token}
    (sc : Scans position text ts) : Even (text.count '"') := by
  induction sc with
  | nil => decide
  | blank white _ ih =>
    rw [List.count_cons_of_ne]
    · exact ih
    · rintro rfl
      exact absurd white (by decide)
  | token lx _ ih =>
    rw [← List.cons_append, List.count_append]
    exact lx.even_quotes.add ih

/-- White space in front of a text moves its tokens and does nothing else. -/
lemma scan_whiteSpace {blank : List Char} (white : ∀ c ∈ blank, isWhiteSpace c = true)
    (position : Position) (text : List Char) :
    scan position (blank ++ text) = scan (position.advanceAll blank) text := by
  induction blank generalizing position with
  | nil => rfl
  | cons c blank ih =>
    rw [List.cons_append, scan, if_pos (white c List.mem_cons_self)]
    exact ih (fun d mem => white d (List.mem_cons_of_mem c mem)) (position.advance c)

/-- Behind a text that ends outside of quotes, a text that stands apart is scanned as if it were alone.
A fault of the first text comes first. -/
lemma scan_append {position : Position} {text more : List Char} (even : Even (text.count '"'))
    (apart : Apart text more) :
    scan position (text ++ more) =
      (scan position text).bind fun ts => (scan (position.advanceAll text) more).map (ts ++ ·) := by
  -- The induction is along the scan of the first text; each token of it leaves an even number of quotes.
  have closed : ∀ {c : Char} {rest : List Char}, Even ((c :: rest).count '"') → c = '"' → '"' ∈ rest := by
    rintro c rest even rfl
    rw [List.count_cons_self] at even
    by_contra no
    rw [List.count_eq_zero_of_not_mem no] at even
    exact absurd even (by decide)
  fun_induction scan position text with
  | case1 position =>
    change scan position more = (scan position more).map _
    cases scan position more <;> rfl
  | case2 position c rest blank ih =>
    have other : c ≠ '"' := by
      rintro rfl
      exact absurd blank (by decide)
    rw [List.count_cons_of_ne other] at even
    rw [List.cons_append, scan, if_pos blank]
    exact ih even apart.of_cons
  | case3 position c rest other e eql =>
    rw [List.cons_append, scan, if_neg other, lexeme_append apart (closed even), eql]
    rfl
  | case4 position c rest other kind length eql e eqs ih =>
    obtain ⟨taken, rest, rfl, rfl, lx⟩ := lexeme_eq_ok_iff.mp eql
    rw [← lexeme_append apart (closed even), List.append_assoc] at eql
    rw [List.take_left, List.drop_left] at eqs ih
    rw [← List.cons_append] at even apart
    rw [List.cons_append, List.append_assoc, scan_of_lexeme other eql,
      ih (lx.even_rest even) apart.of_append, eqs]
    rfl
  | case5 position c rest other kind length eql ts eqs ih =>
    obtain ⟨taken, rest, rfl, rfl, lx⟩ := lexeme_eq_ok_iff.mp eql
    rw [← lexeme_append apart (closed even), List.append_assoc] at eql
    rw [List.take_left, List.drop_left] at eqs ih
    rw [← List.cons_append] at even apart
    rw [List.cons_append, List.append_assoc, scan_of_lexeme other eql,
      ih (lx.even_rest even) apart.of_append, eqs, ← List.cons_append, Position.advanceAll_append]
    cases scan ((position.advanceAll (c :: taken)).advanceAll rest) more <;> rfl

end LatinToScript
