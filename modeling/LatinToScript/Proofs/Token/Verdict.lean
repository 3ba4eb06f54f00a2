import LatinToScript.Proofs.Token.Apart
import LatinToScript.Proofs.Token.Source

/-!
# What scanning says about a text

Whether a text has tokens can be told from its characters one by one. A character stands outside of quotes
when an even number of them is in front of it. Scanning stops at the first character outside of quotes
that is not `Legal` there, which is a matter of the character itself and of the next one. Without such a
character it stops at the last quote if their number is odd, and it succeeds if their number is even
(`scan_verdict`). The semicolon and the blank that are added to a source change nothing about that
(`Token.ofSource_verdict`).
-/

namespace LatinToScript

/-- A character can stand outside of quotes, given what follows it. -/
def Legal (c : Char) (after : List Char) : Prop :=
  isWhiteSpace c = true ∨ c ∈ [';', '"', '(', ')', '\x7b', '\x7d', '_'] ∨ c.isAlpha = true ∨
    c = '-' ∧ after.head?.any isGlyph = true

instance Legal.decidable (c : Char) (after : List Char) : Decidable (Legal c after) :=
  inferInstanceAs (Decidable (_ ∨ _ ∨ _ ∨ _ ∧ _))

/-- A character of a text, between two parts of it, stands outside of quotes and is not legal there. -/
structure Illegal (text before : List Char) (c : Char) (after : List Char) : Prop where
  text : text = before ++ c :: after
  outside : Even (before.count '"')
  not_legal : ¬ Legal c after

/-- All characters outside of quotes are legal. -/
def AllLegal (text : List Char) : Prop :=
  ∀ before c after, ¬ Illegal text before c after

/-- The characters of a text can be looked at one by one. -/
lemma allLegal_iff {text : List Char} :
    AllLegal text ↔ ∀ i : Fin text.length, Even ((text.take i).count '"') →
      Legal text[i] (text.drop (i + 1)) := by
  constructor
  · intro all i outside
    by_contra not
    have eq : text = text.take i ++ text[i] :: text.drop (i + 1) := by
      rw [Fin.getElem_fin, List.getElem_cons_drop, List.take_append_drop]
    exact all _ _ _ ⟨eq, outside, not⟩
  · rintro legal before c after ⟨rfl, outside, not⟩
    have here := legal ⟨before.length, by simp⟩
    simp only [List.take_left, Fin.getElem_fin, List.getElem_append_right (Nat.le_refl _), Nat.sub_self,
      List.getElem_cons_zero, List.drop_append, List.drop_eq_nil_of_le (Nat.le_succ _),
      Nat.add_sub_cancel_left, List.nil_append, List.drop_succ_cons, List.drop_zero] at here
    exact not (here outside)

instance AllLegal.decidable (text : List Char) : Decidable (AllLegal text) :=
  decidable_of_iff _ allLegal_iff.symm

/-- What scanning a text from a position comes to: the first illegal character, else the last quote if it
opens a quoted text, else tokens. -/
inductive Verdict (position : Position) (text : List Char) : Except TokenError (List Token) → Prop where
  | unknown {before c after} :
    Illegal text before c after →
    (∀ before' c' after', Illegal text before' c' after' → before.length ≤ before'.length) →
    Verdict position text (.error (.unknownCharacter c (position.advanceAll before)))
  | unfinished {before after} :
    AllLegal text →
    text = before ++ '"' :: after →
    '"' ∉ after →
    Even (before.count '"') →
    Verdict position text (.error (.unfinishedText (position.advanceAll before)))
  | scanned {ts} :
    AllLegal text →
    Even (text.count '"') →
    Verdict position text (.ok ts)

/-! ## The front of a text -/

/-- Characters in front of a text leave it outside of quotes and are legal where they are outside
themselves. -/
structure Passes (front more : List Char) : Prop where
  even : Even (front.count '"')
  legal : ∀ before c after, front = before ++ c :: after → Even (before.count '"') → Legal c (after ++ more)

variable {position : Position} {text before front more after rest : List Char} {c : Char} {kind : TokenKind}

/-- Behind such characters the illegal ones are the same. -/
lemma Passes.illegal_iff (ps : Passes front more) :
    Illegal (front ++ more) before c after ↔ ∃ rest, before = front ++ rest ∧ Illegal more rest c after := by
  constructor
  · rintro ⟨eq, outside, not⟩
    rcases List.append_eq_append_iff.mp eq with ⟨rest, rfl, eqm⟩ | ⟨inner, eqf, eqc⟩
    · rw [List.count_append] at outside
      exact ⟨rest, rfl, eqm, (Nat.even_add.mp outside).mp ps.even, not⟩
    · cases inner with
      | nil =>
        rw [List.append_nil] at eqf
        rw [List.nil_append] at eqc
        exact ⟨[], by rw [List.append_nil, eqf], eqc.symm, Even.zero, not⟩
      | cons d inner =>
        cases eqc
        exact absurd (ps.legal before c inner eqf outside) not
  · rintro ⟨rest, rfl, eqm, outside, not⟩
    refine ⟨by rw [eqm, List.append_assoc], ?_, not⟩
    rw [List.count_append]
    exact ps.even.add outside

/-- All characters are legal if those behind the front are. -/
lemma Passes.allLegal (ps : Passes front more) (all : AllLegal more) : AllLegal (front ++ more) := by
  intro before c after il
  obtain ⟨rest, _, il⟩ := ps.illegal_iff.mp il
  exact all rest c after il

/-- What scanning says about a text holds behind such characters, too. -/
lemma Verdict.behind {result : Except TokenError (List Token)} (ps : Passes front more)
    (vd : Verdict (position.advanceAll front) more result) (f : List Token → List Token) :
    Verdict position (front ++ more) (result.map f) := by
  cases vd with
  | @unknown before c after il first =>
    rw [← Position.advanceAll_append]
    refine .unknown (ps.illegal_iff.mpr ⟨before, rfl, il⟩) ?_
    intro before' c' after' il'
    obtain ⟨rest, rfl, later⟩ := ps.illegal_iff.mp il'
    rw [List.length_append, List.length_append]
    exact Nat.add_le_add_left (first rest c' after' later) _
  | @unfinished before after all eq no even =>
    rw [← Position.advanceAll_append]
    refine .unfinished (ps.allLegal all) (by rw [eq, List.append_assoc]) no ?_
    rw [List.count_append]
    exact ps.even.add even
  | scanned all even =>
    refine .scanned (ps.allLegal all) ?_
    rw [List.count_append]
    exact ps.even.add even

/-! ## Single tokens -/

/-- A character of a word is legal, whatever follows. -/
lemma legal_of_isWordChar (word : isWordChar c = true) (after : List Char) : Legal c after := by
  rw [isWordChar, Bool.or_eq_true, decide_eq_true_eq] at word
  rcases word with alpha | rfl
  · exact .inr (.inr (.inl alpha))
  · exact .inr (.inl (by decide))

/-- A legal character other than a quote passes by itself. -/
lemma passes_single (legal : Legal c more) (other : c ≠ '"') : Passes [c] more := by
  refine ⟨?_, ?_⟩
  · rw [List.count_singleton, if_neg (by simpa using other)]
    exact Even.zero
  · intro before d after eq _
    rcases List.cons_eq_append_iff.mp eq with ⟨_, eqd⟩ | ⟨_, _, eqd⟩
    · cases eqd
      exact legal
    · simp at eqd

/-- Inside of a quoted text no character is outside of quotes. -/
lemma legal_quoted {inside : List Char} (no : '"' ∉ inside)
    (eq : '"' :: (inside ++ ['"']) = before ++ c :: after) (even : Even (before.count '"')) :
    Legal c (after ++ more) := by
  cases before with
  | nil =>
    cases eq
    exact .inr (.inl (by decide))
  | cons d before =>
    -- Only the first quote is in front of the character.
    rw [List.cons_append] at eq
    obtain ⟨rfl, tail⟩ := List.cons.inj eq
    have whole : inside = before ++ (c :: after).dropLast := by
      rw [← List.dropLast_append_cons, ← tail, List.dropLast_concat]
    have front : before <+: inside := ⟨_, whole.symm⟩
    have none : before.count '"' = 0 := List.count_eq_zero.mpr fun mem => no (front.subset mem)
    rw [List.count_cons_self, none] at even
    exact absurd even (by decide)

/-- The characters of a token are legal. -/
lemma Lexes.passes (lx : Lexes front more kind) : Passes front more := by
  refine ⟨lx.even_quotes, ?_⟩
  cases lx with
  | semicolon => exact (passes_single (.inr (.inl (by decide))) (by decide)).legal
  | text no => exact fun before c after eq even => legal_quoted no eq even
  | @opening bracket =>
    cases bracket <;> exact (passes_single (.inr (.inl (by decide))) (by decide)).legal
  | @closing bracket =>
    cases bracket <;> exact (passes_single (.inr (.inl (by decide))) (by decide)).legal
  | @negative glyphs _ some all _ =>
    intro before c after eq _
    cases before with
    | nil =>
      cases eq
      cases glyphs with
      | nil => exact absurd rfl some
      | cons d glyphs => exact .inr (.inr (.inr ⟨rfl, all d List.mem_cons_self⟩))
    | cons d before =>
      obtain ⟨_, rfl⟩ := List.cons.inj eq
      exact legal_of_isWordChar (isWordChar_of_isGlyph (all c (by simp))) _
  | @word d others _ word all _ =>
    intro before c after eq _
    have mem : c ∈ d :: others := by
      rw [eq]
      simp
    rcases List.mem_cons.mp mem with rfl | mem
    · exact legal_of_isWordChar word _
    · exact legal_of_isWordChar (all c mem) _

/-- No token starts with a character that is not legal, nor with a quote that is not closed. -/
lemma lexeme_eq_error {e : TokenError} (other : ¬ isWhiteSpace c = true)
    (eq : lexeme position c rest = .error e) :
    ¬ Legal c rest ∧ e = .unknownCharacter c position ∨
      c = '"' ∧ '"' ∉ rest ∧ e = .unfinishedText position := by
  unfold lexeme at eq
  split at eq
  · cases eq
  rename_i nosemi
  split at eq
  · rename_i quote
    dsimp only at eq
    split at eq
    · cases eq
    · rename_i long
      cases eq
      refine .inr ⟨quote, ?_, rfl⟩
      intro mem
      have whole : rest.takeWhile (· ≠ '"') = rest :=
        (List.takeWhile_sublist _).eq_of_length_le (Nat.not_lt.mp long)
      rw [← whole] at mem
      exact absurd (List.mem_takeWhile_imp mem) (by decide)
  rename_i noquote
  split at eq
  · cases eq
  rename_i noopen
  split at eq
  · cases eq
  rename_i noclose
  split at eq
  · cases eq
  rename_i noleft
  split at eq
  · cases eq
  rename_i noright
  split at eq
  · cases eq
  rename_i nosign
  split at eq
  · cases eq
  rename_i noword
  cases eq
  refine .inl ⟨?_, rfl⟩
  rw [isWordChar, Bool.or_eq_true, decide_eq_true_eq, not_or] at noword
  rintro (white | mem | alpha | ⟨rfl, glyph⟩)
  · exact other white
  · simp only [List.mem_cons, List.not_mem_nil, or_false] at mem
    rcases mem with eq | eq | eq | eq | eq | eq | eq
    · exact nosemi eq
    · exact noquote eq
    · exact noopen eq
    · exact noclose eq
    · exact noleft eq
    · exact noright eq
    · exact noword.2 eq
  · exact noword.1 alpha
  · apply nosign
    rw [glyph]
    rfl

/-! ## Whole texts -/

/-- Scanning comes to what the characters of the text say. -/
lemma scan_verdict (position : Position) (text : List Char) : Verdict position text (scan position text) := by
  fun_induction scan position text with
  | case1 position =>
    refine .scanned ?_ Even.zero
    rintro before c after ⟨eq, _, _⟩
    simp at eq
  | case2 position c rest blank ih =>
    have noquote : c ≠ '"' := by
      rintro rfl
      exact absurd blank (by decide)
    have vd := Verdict.behind (passes_single (.inl blank) noquote) ih id
    rwa [Except.map_id] at vd
  | case3 position c rest other e eql =>
    rcases lexeme_eq_error other eql with ⟨illegal, rfl⟩ | ⟨rfl, no, rfl⟩
    · have il : Illegal (c :: rest) [] c rest := ⟨rfl, Even.zero, illegal⟩
      exact .unknown il fun _ _ _ _ => Nat.zero_le _
    · refine @Verdict.unfinished position _ [] rest ?_ rfl no Even.zero
      -- Everything behind the quote is inside of it.
      rintro before c after ⟨eq, outside, illegal⟩
      rcases List.cons_eq_append_iff.mp eq with ⟨_, eqc⟩ | ⟨inner, rfl, eqr⟩
      · cases eqc
        exact illegal (.inr (.inl (by decide)))
      · have none : inner.count '"' = 0 := by
          apply List.count_eq_zero.mpr
          intro mem
          apply no
          rw [eqr]
          exact List.mem_append_left _ mem
        rw [List.count_cons_self, none] at outside
        exact absurd outside (by decide)
  | case4 position c rest other kind length eql e eqs ih =>
    obtain ⟨taken, more, rfl, rfl, lx⟩ := lexeme_eq_ok_iff.mp eql
    rw [List.take_left, List.drop_left] at eqs ih
    rw [eqs] at ih
    exact Verdict.behind lx.passes ih id
  | case5 position c rest other kind length eql ts eqs ih =>
    obtain ⟨taken, more, rfl, rfl, lx⟩ := lexeme_eq_ok_iff.mp eql
    rw [List.take_left, List.drop_left] at eqs ih
    rw [eqs] at ih
    exact Verdict.behind lx.passes ih (⟨kind, position⟩ :: ·)

/-! ## Sources -/

/-- What is added behind a source is no glyph. -/
lemma legal_append_ending_iff : Legal c (after ++ ending text) ↔ Legal c after := by
  have head : (after ++ ending text).head?.any isGlyph = after.head?.any isGlyph := by
    cases after with
    | cons d after => rfl
    | nil =>
      unfold ending
      split
      · rfl
      · rfl
  rw [Legal, Legal, head]

/-- The characters that are added behind a source are legal, and they make no other character legal. -/
lemma illegal_append_ending_iff :
    Illegal (text ++ ending text) before c after ↔
      ∃ rest, after = rest ++ ending text ∧ Illegal text before c rest := by
  constructor
  · rintro ⟨eq, outside, not⟩
    rcases of_append_ending eq with ⟨rest, eqt, rfl⟩ | added
    · exact ⟨rest, rfl, eqt, outside, mt legal_append_ending_iff.mpr not⟩
    · rcases eq_of_mem_ending added with rfl | rfl
      · exact absurd (.inr (.inl (by decide))) not
      · exact absurd (.inl (by decide)) not
  · rintro ⟨rest, rfl, rfl, outside, not⟩
    exact ⟨by simp, outside, mt legal_append_ending_iff.mp not⟩

/-- The ending of a source is legal, and it does not matter to the characters in front of it. -/
lemma allLegal_append_ending_iff : AllLegal (text ++ ending text) ↔ AllLegal text := by
  constructor
  · intro all before c rest il
    exact all before c _ (illegal_append_ending_iff.mpr ⟨rest, rfl, il⟩)
  · intro all before c after il
    obtain ⟨rest, _, il⟩ := illegal_append_ending_iff.mp il
    exact all before c rest il

/-- The ending of a source has no quotes. -/
lemma count_append_ending : (text ++ ending text).count '"' = text.count '"' := by
  have none : (ending text).count '"' = 0 := by
    apply List.count_eq_zero.mpr
    intro mem
    rcases eq_of_mem_ending mem with eq | eq
    · cases eq
    · cases eq
  rw [List.count_append, none, Nat.add_zero]

/-- What is added behind a source does not change what scanning says about it. -/
lemma Verdict.of_append_ending {result : Except TokenError (List Token)}
    (vd : Verdict position (text ++ ending text) result) : Verdict position text result := by
  cases vd with
  | unknown il first =>
    obtain ⟨rest, _, il⟩ := illegal_append_ending_iff.mp il
    refine .unknown il ?_
    intro before' c' after' il'
    exact first before' c' _ (illegal_append_ending_iff.mpr ⟨after', rfl, il'⟩)
  | unfinished all eq no even =>
    rcases LatinToScript.of_append_ending eq with ⟨rest, eqt, rfl⟩ | added
    · exact .unfinished (allLegal_append_ending_iff.mp all) eqt (mt (List.mem_append_left _) no) even
    · rcases eq_of_mem_ending added with eq | eq
      · cases eq
      · cases eq
  | scanned all even =>
    rw [count_append_ending] at even
    exact .scanned (allLegal_append_ending_iff.mp all) even

/-- If a source has an illegal character outside of quotes, the first one is reported at its place;
otherwise, if its quotes do not come in pairs, the last one is; otherwise the source is scanned, and only
its brackets decide whether it has tokens. -/
theorem Token.ofSource_verdict (source : String) :
    ((∃ before c after, Illegal source.toList before c after) →
      ∃ before c after, Illegal source.toList before c after ∧
        (∀ before' c' after', Illegal source.toList before' c' after' →
          before.length ≤ before'.length) ∧
        Token.ofSource source = .error (.unknownCharacter c (.ofFront before))) ∧
    (AllLegal source.toList → Odd (source.toList.count '"') →
      ∃ before after, source.toList = before ++ '"' :: after ∧ '"' ∉ after ∧
        Token.ofSource source = .error (.unfinishedText (.ofFront before))) ∧
    (AllLegal source.toList → Even (source.toList.count '"') →
      ∃ ts, scan .start (scannedText source) = .ok ts ∧
        Token.ofSource source = (checkBalance ts).map fun _ => ts) := by
  have vd := scan_verdict .start (scannedText source)
  rw [scannedText_eq] at vd
  have verdict := vd.of_append_ending
  rw [← scannedText_eq] at verdict
  generalize eqr : scan .start (scannedText source) = result at verdict
  unfold Token.ofSource
  rw [eqr]
  cases verdict with
  | @unknown before c after il first =>
    rw [Position.start_advanceAll_eq]
    refine ⟨fun _ => ⟨before, c, after, il, first, rfl⟩, ?_, ?_⟩
    · intro all
      exact absurd il (all before c after)
    · intro all
      exact absurd il (all before c after)
  | @unfinished before after all eq no even =>
    have odd : Odd (source.toList.count '"') := by
      rw [eq, List.count_append, List.count_cons_self, List.count_eq_zero_of_not_mem no]
      exact even.add_one
    rw [Position.start_advanceAll_eq]
    refine ⟨?_, fun _ _ => ⟨before, after, eq, no, rfl⟩, ?_⟩
    · rintro ⟨before, c, after, il⟩
      exact absurd il (all before c after)
    · intro _ even
      exact absurd even (Nat.not_even_iff_odd.mpr odd)
  | @scanned ts all even =>
    refine ⟨?_, ?_, ?_⟩
    · rintro ⟨before, c, after, il⟩
      exact absurd il (all before c after)
    · intro _ odd
      exact absurd even (Nat.not_even_iff_odd.mpr odd)
    · intro _ _
      refine ⟨ts, rfl, ?_⟩
      dsimp only
      cases checkBalance ts with
      | error e => rfl
      | ok _ => rfl

/-- A minus sign in front of a name is reported before a quote that is not closed; without it the quote
is; and with the quote closed only the brackets are left to check. -/
theorem Token.ofSource_verdict_inTurn :
    (∃ before c after, Illegal "(-a \"$".toList before c after ∧
      Token.ofSource "(-a \"$" = .error (.unknownCharacter c (.ofFront before))) ∧
    (AllLegal "(-I \"$".toList ∧ Odd ("(-I \"$".toList.count '"') ∧
      ∃ before after, "(-I \"$".toList = before ++ '"' :: after ∧ '"' ∉ after ∧
        Token.ofSource "(-I \"$" = .error (.unfinishedText (.ofFront before))) ∧
    (AllLegal "(-I \"$\"".toList ∧ Even ("(-I \"$\"".toList.count '"') ∧
      ∃ ts, scan .start (scannedText "(-I \"$\"") = .ok ts ∧
        Token.ofSource "(-I \"$\"" = (checkBalance ts).map fun _ => ts) := by
  have illegal : Illegal "(-a \"$".toList ['('] '-' ['a', ' ', '"', '$'] :=
    ⟨by decide, by decide, by decide⟩
  have opening : AllLegal "(-I \"$".toList ∧ Odd ("(-I \"$".toList.count '"') := by decide
  have paired : AllLegal "(-I \"$\"".toList ∧ Even ("(-I \"$\"".toList.count '"') := by decide
  obtain ⟨before, c, after, il, _, eq⟩ := (Token.ofSource_verdict "(-a \"$").1 ⟨_, _, _, illegal⟩
  refine ⟨⟨before, c, after, il, eq⟩, ⟨opening.1, opening.2, ?_⟩, ⟨paired.1, paired.2, ?_⟩⟩
  · exact (Token.ofSource_verdict "(-I \"$").2.1 opening.1 opening.2
  · exact (Token.ofSource_verdict "(-I \"$\"").2.2 paired.1 paired.2

end LatinToScript
