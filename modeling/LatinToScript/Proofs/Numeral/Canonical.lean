import LatinToScript.Proofs.Numeral
import Mathlib.Computability.RegularExpressions
import Mathlib.Data.Set.Function
import Mathlib.Tactic.IntervalCases

/-!
# Canonical numerals

Three descriptions of the numerals from 1 to 3999 and a proof that they agree: the recogniser, which
drops one decimal place after the other and never goes back; a regular expression (`pattern`), whose
parts may match in several ways; and the greedy way to write a number, which takes each of thirteen
amounts as often as it fits (`canonical`). Reading a numeral is the inverse of writing it.
-/

namespace LatinToScript.Numeral

/-! ## The regular expression -/

/-- At most `n` copies of a character. -/
def upTo : Nat → Char → RegularExpression Char
  | 0, _ => 1
  | n + 1, c => 1 + .char c * upTo n c

/-- One digit of a decimal place: nine, four, or an optional five and at most three ones. -/
def digitPattern (one five ten : Char) : RegularExpression Char :=
  .char one * .char ten + (.char one * .char five + upTo 1 five * upTo 3 one)

/-- At most three thousands, and one digit each for the hundreds, the tens and the ones. -/
def pattern : RegularExpression Char :=
  upTo 3 'M' * (digitPattern 'C' 'D' 'M' * (digitPattern 'X' 'L' 'C' * digitPattern 'I' 'V' 'X'))

/-- The regular expression for a digit of a place. -/
def Place.pattern (p : Place) : RegularExpression Char :=
  digitPattern p.one.toChar p.five.toChar p.ten.toChar

/-- The expression for up to some copies of a glyph matches just these copies. -/
lemma mem_upTo_iff {n : Nat} {g : Glyph} {w : List Char} :
    w ∈ (upTo n g.toChar).matches' ↔ ∃ k ≤ n, w = (List.replicate k g).map Glyph.toChar := by
  induction n generalizing w with
  | zero =>
    rw [upTo, RegularExpression.matches'_epsilon, Language.mem_one]
    constructor
    · rintro rfl
      exact ⟨0, Nat.le_refl 0, rfl⟩
    · rintro ⟨k, le, rfl⟩
      rw [Nat.le_zero.mp le]
      rfl
  | succ n ih =>
    rw [upTo, RegularExpression.matches'_add, Language.mem_add, RegularExpression.matches'_epsilon,
      Language.mem_one, RegularExpression.matches'_mul, Language.mem_mul]
    constructor
    · rintro (rfl | ⟨_, rfl, rest, mem, rfl⟩)
      · exact ⟨0, Nat.zero_le _, rfl⟩
      · obtain ⟨k, le, rfl⟩ := ih.mp mem
        exact ⟨k + 1, Nat.succ_le_succ le, rfl⟩
    · rintro ⟨k, le, rfl⟩
      cases k with
      | zero => exact .inl rfl
      | succ k => exact .inr ⟨[g.toChar], rfl, _, ih.mpr ⟨k, Nat.le_of_succ_le_succ le, rfl⟩, rfl⟩

/-- The regular expression for a digit matches the ten ways to write one. -/
lemma Place.mem_pattern_iff {p : Place} {w : List Char} :
    w ∈ p.pattern.matches' ↔ ∃ d < 10, w = (p.digit d).map Glyph.toChar := by
  rw [Place.pattern, digitPattern, RegularExpression.matches'_add, Language.mem_add,
    RegularExpression.matches'_add, Language.mem_add]
  constructor
  · rintro (⟨_, rfl, _, rfl, rfl⟩ | ⟨_, rfl, _, rfl, rfl⟩ | mem)
    · exact ⟨9, by decide, rfl⟩
    · exact ⟨4, by decide, rfl⟩
    · obtain ⟨_, memf, _, memo, rfl⟩ := Language.mem_mul.mp mem
      obtain ⟨j, lej, rfl⟩ := mem_upTo_iff.mp memf
      obtain ⟨k, lek, rfl⟩ := mem_upTo_iff.mp memo
      refine ⟨5 * j + k, by omega, ?_⟩
      interval_cases j <;> interval_cases k <;> rfl
  · rintro ⟨d, lt, rfl⟩
    -- Nine and four are pairs of glyphs; every other digit is made of fives and ones.
    have additive : ∀ j k, j ≤ 1 → k ≤ 3 →
        (List.replicate j p.five).map Glyph.toChar ++ (List.replicate k p.one).map Glyph.toChar ∈
          (upTo 1 p.five.toChar * upTo 3 p.one.toChar).matches' := by
      intro j k lej lek
      exact Language.append_mem_mul (mem_upTo_iff.mpr ⟨j, lej, rfl⟩) (mem_upTo_iff.mpr ⟨k, lek, rfl⟩)
    unfold Place.digit
    split
    · exact .inr (.inr (additive 0 d (by decide) (by omega)))
    · split
      · exact .inr (.inl ⟨_, rfl, _, rfl, rfl⟩)
      · split
        · exact .inr (.inr (additive 1 (d - 5) (by decide) (by omega)))
        · exact .inl ⟨_, rfl, _, rfl, rfl⟩

/-- The regular expression matches the canonical numerals below 4000, zero being the empty one. -/
lemma mem_pattern_iff {w : List Char} : w ∈ pattern.matches' ↔ ∃ n ≤ 3999, w = word n := by
  have eq : pattern = upTo 3 Glyph.M.toChar * (hundreds.pattern * (tens.pattern * ones.pattern)) := rfl
  rw [eq]
  simp only [RegularExpression.matches'_mul, Language.mem_mul, mem_upTo_iff, Place.mem_pattern_iff]
  constructor
  · rintro ⟨_, ⟨k, le, rfl⟩, _, ⟨_, ⟨a, lta, rfl⟩, _, ⟨_, ⟨b, ltb, rfl⟩, _, ⟨c, ltc, rfl⟩, rfl⟩, rfl⟩, rfl⟩
    refine ⟨1000 * k + 100 * a + 10 * b + c, by omega, ?_⟩
    rw [word, ← append_digits lta ltb ltc]
    simp only [List.map_append]
  · rintro ⟨n, le, rfl⟩
    refine ⟨_, ⟨n / 1000, by omega, rfl⟩, _, ⟨_, ⟨n / 100 % 10, by omega, rfl⟩, _,
      ⟨_, ⟨n / 10 % 10, by omega, rfl⟩, _, ⟨n % 10, by omega, rfl⟩, rfl⟩, rfl⟩, ?_⟩
    simp only [word, ofNat, List.map_append]

/-! ## The greedy way to write -/

/-- Takes each amount of a table as often as it fits into what is left of a number. -/
def greedy : List (Nat × List Glyph) → Nat → List Glyph
  | [], _ => []
  | (amount, gs) :: table, n =>
    (List.replicate (n / amount) gs).flatten ++ greedy table (n % amount)

/-- The amounts with numerals of one or two glyphs. -/
def amounts : List (Nat × List Glyph) :=
  [(1000, [.M]), (900, [.C, .M]), (500, [.D]), (400, [.C, .D]), (100, [.C]), (90, [.X, .C]),
    (50, [.L]), (40, [.X, .L]), (10, [.X]), (9, [.I, .X]), (5, [.V]), (4, [.I, .V]), (1, [.I])]

/-- The numeral of a number, written greedily. -/
def canonical (n : Nat) : List Char :=
  (greedy amounts n).map Glyph.toChar

/-- The amounts of a place, given what one of its units is worth. -/
def Place.amounts (p : Place) (unit : Nat) : List (Nat × List Glyph) :=
  [(unit * 9, [p.one, p.ten]), (unit * 5, [p.five]), (unit * 4, [p.one, p.five]), (unit * 1, [p.one])]

/-- An amount of full units takes nothing of what is less than a unit. -/
lemma greedy_unit {unit r : Nat} (lt : r < unit) (k d : Nat) (gs : List Glyph)
    (table : List (Nat × List Glyph)) :
    greedy ((unit * k, gs) :: table) (unit * d + r) =
      (List.replicate (d / k) gs).flatten ++ greedy table (unit * (d % k) + r) := by
  have pos : 0 < unit := Nat.zero_lt_of_lt lt
  have quotient : (unit * d + r) / unit = d := by
    rw [Nat.mul_add_div pos, Nat.div_eq_of_lt lt, Nat.add_zero]
  have remainder : (unit * d + r) % unit = r := by
    rw [Nat.mul_add_mod, Nat.mod_eq_of_lt lt]
  rw [greedy, ← Nat.div_div_eq_div_mul, Nat.mod_mul, quotient, remainder, Nat.add_comm r]

/-- The amounts of a place write its digit. -/
lemma greedy_place (p : Place) {unit n : Nat} (pos : 0 < unit) (lt : n < unit * 10)
    (table : List (Nat × List Glyph)) :
    greedy (p.amounts unit ++ table) n = p.digit (n / unit) ++ greedy table (n % unit) := by
  have ltr : n % unit < unit := Nat.mod_lt n pos
  have ltd : n / unit < 10 := Nat.div_lt_of_lt_mul lt
  generalize eqd : n / unit = d at ltd
  have eqn : n = unit * d + n % unit := by rw [← eqd, Nat.div_add_mod]
  generalize n % unit = r at ltr eqn
  rw [eqn, Place.amounts, List.cons_append, List.cons_append, List.cons_append, List.cons_append,
    List.nil_append, greedy_unit ltr, greedy_unit ltr, greedy_unit ltr, greedy_unit ltr, Nat.mod_one,
    Nat.mul_zero, Nat.zero_add]
  interval_cases d <;> rfl

/-- The greedy way writes one decimal place after the other. -/
lemma greedy_eq_ofNat (n : Nat) : greedy amounts n = ofNat n := by
  have eq : amounts =
      (1000, [.M]) :: (hundreds.amounts 100 ++ (tens.amounts 10 ++ (ones.amounts 1 ++ []))) := rfl
  have places : n % 1000 / 100 = n / 100 % 10 ∧ n % 1000 % 100 / 10 = n / 10 % 10 ∧
      n % 1000 % 100 % 10 / 1 = n % 10 := by omega
  rw [eq, greedy, List.flatten_replicate_singleton, greedy_place hundreds (by decide) (by omega),
    greedy_place tens (by decide) (by omega), greedy_place ones (by decide) (by omega), places.1,
    places.2.1, places.2.2, greedy, List.append_nil, ofNat]

/-- The greedy way and the decimal places give the same word. -/
lemma canonical_eq_word (n : Nat) : canonical n = word n := by
  rw [canonical, greedy_eq_ofNat, word]

/-! ## Agreement -/

/-- A canonical numeral is read as the number that it writes, and as its opposite after a minus sign. -/
lemma value?_word (n : Nat) :
    value? (word n) = some (n : Int) ∧ value? ('-' :: word n) = some (-(n : Int)) := by
  rw [word, value?_map_toChar, value?_minus_map_toChar, value_ofNat]
  exact ⟨rfl, rfl⟩

/-- Two numbers with the same word are equal. -/
lemma word_injective : Function.Injective word := by
  intro m n eq
  have values : some (m : Int) = some (n : Int) := by
    rw [← (value?_word m).1, eq, (value?_word n).1]
  exact Int.ofNat.inj (Option.some.inj values)

/-- The numerals are what the pattern matches, apart from the empty word. -/
lemma isNumeral_iff_pattern {w : List Char} :
    isNumeral w = true ↔ w ≠ [] ∧ w ∈ pattern.matches' := by
  rw [isNumeral_iff, mem_pattern_iff]
  constructor
  · rintro ⟨n, pos, le, rfl⟩
    exact ⟨mt List.map_eq_nil_iff.mp (ofNat_ne_nil pos), n, le, rfl⟩
  · rintro ⟨some, n, le, rfl⟩
    refine ⟨n, Nat.pos_of_ne_zero ?_, le, rfl⟩
    rintro rfl
    exact some rfl

/-- A numeral is the canonical form of exactly one number from 1 to 3999. -/
lemma isNumeral_iff_canonical {w : List Char} :
    isNumeral w = true ↔ ∃! v, 1 ≤ v ∧ v ≤ 3999 ∧ w = canonical v := by
  simp only [isNumeral_iff, canonical_eq_word]
  constructor
  · rintro ⟨n, pos, le, rfl⟩
    refine ⟨n, ⟨pos, le, rfl⟩, ?_⟩
    rintro m ⟨_, _, eq⟩
    exact word_injective eq.symm
  · rintro ⟨n, ⟨pos, le, eq⟩, _⟩
    exact ⟨n, pos, le, eq⟩

/-- Reading takes the numerals one to one to the numbers from 1 to 3999. -/
lemma bijOn_value? :
    Set.BijOn value? {w | isNumeral w = true} (some '' {v : Int | 1 ≤ v ∧ v ≤ 3999}) := by
  refine ⟨?_, ?_, ?_⟩
  · intro w num
    obtain ⟨n, pos, le, rfl⟩ := isNumeral_iff.mp num
    exact ⟨n, ⟨by omega, by omega⟩, (value?_word n).1.symm⟩
  · intro w num w' num' eq
    obtain ⟨n, _, _, rfl⟩ := isNumeral_iff.mp num
    obtain ⟨m, _, _, rfl⟩ := isNumeral_iff.mp num'
    rw [(value?_word n).1, (value?_word m).1] at eq
    rw [Int.ofNat.inj (Option.some.inj eq)]
  · rintro _ ⟨v, ⟨ge, le⟩, rfl⟩
    have eq : ((v.toNat : Nat) : Int) = v := Int.toNat_of_nonneg (by omega)
    refine ⟨word v.toNat, isNumeral_iff.mpr ⟨v.toNat, by omega, by omega, rfl⟩, ?_⟩
    rw [(value?_word _).1, eq]

/-- A word is a numeral exactly when it is not empty and the regular expression matches it, and exactly
when it is the canonical numeral of one number from 1 to 3999. That number is its value, and the
opposite number is its value after a minus sign. -/
theorem isNumeral_characterized :
    (∀ w, isNumeral w = true ↔ w ≠ [] ∧ w ∈ pattern.matches') ∧
    (∀ w, isNumeral w = true ↔ ∃! v, 1 ≤ v ∧ v ≤ 3999 ∧ w = canonical v) ∧
    (∀ w v, 1 ≤ v → v ≤ 3999 → w = canonical v →
      value? w = some (v : Int) ∧ value? ('-' :: w) = some (-(v : Int))) ∧
    Set.BijOn value? {w | isNumeral w = true} (some '' {v : Int | 1 ≤ v ∧ v ≤ 3999}) := by
  refine ⟨fun w => isNumeral_iff_pattern, fun w => isNumeral_iff_canonical, ?_, bijOn_value?⟩
  rintro _ v _ _ rfl
  rw [canonical_eq_word]
  exact value?_word v

/-- A numeral with a nine or a four in each decimal place. -/
theorem isNumeral_characterized_subtractive :
    canonical 1994 = ['M', 'C', 'M', 'X', 'C', 'I', 'V'] ∧
      isNumeral ['M', 'C', 'M', 'X', 'C', 'I', 'V'] = true ∧
      ['M', 'C', 'M', 'X', 'C', 'I', 'V'] ∈ pattern.matches' ∧
      value? ['M', 'C', 'M', 'X', 'C', 'I', 'V'] = some 1994 ∧
      value? ['-', 'M', 'C', 'M', 'X', 'C', 'I', 'V'] = some (-1994) := by
  obtain ⟨matched, _, valued, _⟩ := isNumeral_characterized
  have written : ['M', 'C', 'M', 'X', 'C', 'I', 'V'] = canonical 1994 := rfl
  have num : isNumeral ['M', 'C', 'M', 'X', 'C', 'I', 'V'] = true := rfl
  obtain ⟨value, opposite⟩ := valued _ 1994 (by decide) (by decide) written
  exact ⟨written.symm, num, ((matched _).mp num).2, value, opposite⟩

end LatinToScript.Numeral
