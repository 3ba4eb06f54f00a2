import LatinToScript.Numeral
import Mathlib.Tactic.Ring

/-!
# The theory of numerals

`Numeral.ofNat` writes the canonical numeral of a number below 4000, one decimal place after the
other. A word is a numeral exactly when it is written so (`Numeral.isNumeral_iff`), and its value is the
number that was written (`Numeral.value_ofNat`). The value of any other run of glyphs is positive, too
(`Numeral.value_pos`).
-/

namespace LatinToScript

/-- The character of a glyph. -/
def Glyph.toChar : Glyph → Char
  | I => 'I'
  | V => 'V'
  | X => 'X'
  | L => 'L'
  | C => 'C'
  | D => 'D'
  | M => 'M'

/-- A glyph is read back from its character. -/
lemma Glyph.ofChar?_toChar (g : Glyph) : Glyph.ofChar? g.toChar = some g := by
  cases g <;> rfl

/-- Only the character of a glyph is read as this glyph. -/
lemma Glyph.eq_toChar {c g} (eq : Glyph.ofChar? c = some g) : c = g.toChar := by
  unfold Glyph.ofChar? at eq
  split at eq <;> cases eq <;> rfl

/-- Every glyph is worth something. -/
lemma Glyph.value_pos (g : Glyph) : 0 < g.value := by
  cases g <;> decide

/-- No glyph is worth more than a thousand. -/
lemma Glyph.value_le (g : Glyph) : g.value ≤ 1000 := by
  cases g <;> decide

/-- A larger glyph is worth at least twice as much. -/
lemma Glyph.two_mul_le {g h : Glyph} (lt : g.value < h.value) : 2 * g.value ≤ h.value := by
  cases g <;> cases h <;> revert lt <;> decide

namespace Numeral

/-! ## Words of glyphs -/

/-- A word consists of glyphs exactly when it is written with their characters. -/
lemma glyphs?_eq_some_iff {word gs} : glyphs? word = some gs ↔ word = gs.map Glyph.toChar := by
  induction word generalizing gs with
  | nil => cases gs <;> simp [glyphs?]
  | cons c word ih =>
    rw [glyphs?, List.mapM_cons]
    constructor
    · intro eq
      obtain ⟨g, eqg, eq⟩ := Option.bind_eq_some_iff.mp eq
      obtain ⟨hs, eqs, eq⟩ := Option.bind_eq_some_iff.mp eq
      cases eq
      rw [List.map_cons, ← ih.mp eqs, Glyph.eq_toChar eqg]
    · intro eq
      cases gs with
      | nil => cases eq
      | cons g gs =>
        obtain ⟨rfl, eqs⟩ := List.cons.inj eq
        rw [Glyph.ofChar?_toChar]
        exact Option.bind_eq_some_iff.mpr ⟨g, rfl, Option.bind_eq_some_iff.mpr ⟨gs, ih.mpr eqs, rfl⟩⟩

/-! ## Values -/

/-- The total and the glyph read last after the reading of some glyphs. -/
def reading (gs : List Glyph) : Int × Int :=
  gs.foldr count (0, 0)

/-- The value of a numeral is the total after its reading. -/
lemma value_eq (gs : List Glyph) : value gs = (reading gs).1 := rfl

/-- Glyphs are read from the right, so the first one is counted last. -/
lemma reading_cons (g : Glyph) (gs : List Glyph) : reading (g :: gs) = count g (reading gs) := rfl

/-- The glyph read last is the first one. -/
lemma reading_snd (gs : List Glyph) : (reading gs).2 = ((gs.head?).map Glyph.value).getD 0 := by
  cases gs with
  | nil => rfl
  | cons g gs => rfl

/-- A glyph that is not smaller than the next one is added. -/
lemma value_cons_of_le {g gs} (le : (reading gs).2 ≤ g.value) :
    value (g :: gs) = value gs + g.value := by
  rw [value_eq, reading_cons, count]
  simp only [le, if_true]
  rfl

/-- A glyph that is smaller than the next one is subtracted. -/
lemma value_cons_of_lt {g gs} (lt : g.value < (reading gs).2) :
    value (g :: gs) = value gs - g.value := by
  rw [value_eq, reading_cons, count]
  simp only [not_le.mpr lt, if_false]
  rfl

/-- Throughout the reading the total is at least the glyph read last: a glyph that is subtracted is
worth at most half of the one after it. -/
lemma head_le_value (g : Glyph) (gs : List Glyph) : g.value ≤ value (g :: gs) := by
  induction gs generalizing g with
  | nil => simp [value, count, g.value_pos.le]
  | cons h gs ih =>
    have le := ih h
    have pos := h.value_pos
    rcases lt_or_ge g.value h.value with lt | ge
    · -- Twice the glyph is at most the next one, so at least the glyph is left of the total.
      have eq : value (g :: h :: gs) = value (h :: gs) - g.value := value_cons_of_lt lt
      have := Glyph.two_mul_le lt
      omega
    · have eq : value (g :: h :: gs) = value (h :: gs) + g.value := value_cons_of_le ge
      omega

/-- Every run of glyphs is worth something. -/
lemma value_pos {gs : List Glyph} (some : gs ≠ []) : 0 < value gs := by
  cases gs with
  | nil => exact absurd rfl some
  | cons g gs => exact lt_of_lt_of_le g.value_pos (head_le_value g gs)

/-! ## Canonical numerals -/

/-- How a decimal place writes a digit. -/
def Place.digit (p : Place) (d : Nat) : List Glyph :=
  if d < 4 then List.replicate d p.one
  else if d = 4 then [p.one, p.five]
  else if d < 9 then p.five :: List.replicate (d - 5) p.one
  else [p.one, p.ten]

/-- The hundreds. -/
def hundreds : Place := ⟨.C, .D, .M⟩

/-- The tens. -/
def tens : Place := ⟨.X, .L, .C⟩

/-- The ones. -/
def ones : Place := ⟨.I, .V, .X⟩

/-- The canonical numeral of a number. -/
def ofNat (n : Nat) : List Glyph :=
  List.replicate (n / 1000) .M ++
    (hundreds.digit (n / 100 % 10) ++ (tens.digit (n / 10 % 10) ++ ones.digit (n % 10)))

/-- The glyphs of a place are worth one, five and ten units. -/
structure Place.Decimal (p : Place) : Prop where
  five : p.five.value = 5 * p.one.value
  ten : p.ten.value = 10 * p.one.value

/-- The glyphs of the hundreds are C, D and M, worth one, five and ten hundreds. -/
lemma hundreds_decimal : hundreds.Decimal := ⟨rfl, rfl⟩

/-- The glyphs of the tens are X, L and C, worth one, five and ten tens. -/
lemma tens_decimal : tens.Decimal := ⟨rfl, rfl⟩

/-- The glyphs of the ones are I, V and X, worth one, five and ten. -/
lemma ones_decimal : ones.Decimal := ⟨rfl, rfl⟩

/-- Glyphs that start with less than one unit of a place. -/
def Place.Above (p : Place) (gs : List Glyph) : Prop :=
  ∀ g ∈ gs.head?, g.value < p.one.value

/-- A digit of a lower place stays below one unit. -/
lemma Place.Above.digit {p q : Place} {gs : List Glyph} (above : q.Above gs) (d : Nat)
    (one : q.one.value < p.one.value) (five : q.five.value < p.one.value) :
    p.Above (q.digit d ++ gs) := by
  intro g mem
  unfold Place.digit at mem
  split at mem
  · cases d with
    | zero =>
      have := above g mem
      omega
    | succ d =>
      cases mem
      exact one
  · split at mem
    · cases mem
      exact one
    · split at mem
      · cases mem
        exact five
      · cases mem
        exact one

/-- The head of the glyphs counts for no more than one unit in the reading. -/
lemma Place.Above.reading_le {p : Place} {gs : List Glyph} (above : p.Above gs) :
    (reading gs).2 ≤ p.one.value := by
  rw [reading_snd]
  cases gs with
  | nil => exact p.one.value_pos.le
  | cons g gs => exact (above g rfl).le

/-- Copies of a glyph that is not smaller than what follows are all added. -/
lemma value_replicate {g gs} (le : (reading gs).2 ≤ Glyph.value g) (k : Nat) :
    value (List.replicate k g ++ gs) = k * g.value + value gs ∧
      (reading (List.replicate k g ++ gs)).2 ≤ g.value := by
  induction k with
  | zero => simp [le]
  | succ k ih =>
    rw [List.replicate_succ, List.cons_append]
    refine ⟨?_, le_refl _⟩
    rw [value_cons_of_le ih.2, ih.1]
    push_cast
    ring

/-- A digit counts as often as one unit of its place. -/
lemma value_digit {p : Place} {gs : List Glyph} (dec : p.Decimal) (above : p.Above gs) {d : Nat}
    (lt : d < 10) : value (p.digit d ++ gs) = d * p.one.value + value gs := by
  have pos := p.one.value_pos
  have le := above.reading_le
  have five := dec.five
  have ten := dec.ten
  unfold Place.digit
  split
  · exact (value_replicate le d).1
  · split
    · subst d
      have inner : value (p.five :: gs) = value gs + p.five.value := value_cons_of_le (by omega)
      have outer : value (p.one :: p.five :: gs) = value (p.five :: gs) - p.one.value :=
        value_cons_of_lt (show p.one.value < p.five.value by omega)
      rw [List.cons_append, List.singleton_append, outer, inner]
      push_cast
      omega
    · split
      · obtain ⟨inner, le'⟩ := value_replicate le (d - 5)
        rw [List.cons_append, value_cons_of_le (by omega), inner, five]
        have : ((d - 5 : Nat) : Int) = d - 5 := by omega
        rw [this]
        ring
      · obtain rfl : d = 9 := by omega
        have inner : value (p.ten :: gs) = value gs + p.ten.value := value_cons_of_le (by omega)
        have outer : value (p.one :: p.ten :: gs) = value (p.ten :: gs) - p.one.value :=
          value_cons_of_lt (show p.one.value < p.ten.value by omega)
        rw [List.cons_append, List.singleton_append, outer, inner]
        push_cast
        omega

/-- The ones follow the tens. -/
lemma tens_above (n : Nat) : tens.Above (ones.digit (n % 10)) := by
  have none : ones.Above [] := nofun
  have above : tens.Above (ones.digit (n % 10) ++ []) := none.digit _ (by decide) (by decide)
  rwa [List.append_nil] at above

/-- The tens and ones follow the hundreds. -/
lemma hundreds_above (n : Nat) :
    hundreds.Above (tens.digit (n / 10 % 10) ++ ones.digit (n % 10)) :=
  (tens_above n).digit _ (by decide) (by decide)

/-- The thousands, of which there is only the glyph for one. -/
def thousands : Place := ⟨.M, .M, .M⟩

/-- The hundreds, tens and ones follow the thousands. -/
lemma thousands_above (n : Nat) :
    thousands.Above (hundreds.digit (n / 100 % 10) ++
      (tens.digit (n / 10 % 10) ++ ones.digit (n % 10))) :=
  (hundreds_above n).digit _ (by decide) (by decide)

/-- Canonical numerals are worth the number that they write. -/
lemma value_ofNat (n : Nat) : value (ofNat n) = n := by
  have none : ones.Above [] := nofun
  have one := value_digit ones_decimal none (Nat.mod_lt n (by decide : 10 > 0))
  rw [List.append_nil] at one
  have many := (value_replicate (thousands_above n).reading_le (n / 1000)).1
  rw [ofNat, show Glyph.M = thousands.one from rfl, many,
    value_digit hundreds_decimal (hundreds_above n) (Nat.mod_lt _ (by decide)),
    value_digit tens_decimal (tens_above n) (Nat.mod_lt _ (by decide)), one]
  simp only [thousands, hundreds, tens, ones, Glyph.value, value, List.foldr_nil]
  omega

/-! ## Recognition -/

/-- At most `n` copies of a glyph are dropped. -/
lemma dropUpTo_spec (n : Nat) (g : Glyph) (gs : List Glyph) :
    ∃ k ≤ n, gs = List.replicate k g ++ dropUpTo n g gs := by
  induction n generalizing gs with
  | zero => exact ⟨0, Nat.le_refl _, by cases gs <;> rfl⟩
  | succ n ih =>
    cases gs with
    | nil => exact ⟨0, Nat.zero_le _, rfl⟩
    | cons h gs =>
      rw [dropUpTo]
      split
      · rename_i eq
        subst eq
        obtain ⟨k, le, eq⟩ := ih gs
        refine ⟨k + 1, Nat.succ_le_succ le, ?_⟩
        rw [List.replicate_succ, List.cons_append, ← eq]
      · exact ⟨0, Nat.zero_le _, rfl⟩

/-- All copies of a glyph are dropped if there are few and another one follows. -/
lemma dropUpTo_replicate {n k : Nat} {g : Glyph} {gs : List Glyph} (le : k ≤ n)
    (other : ∀ h ∈ gs.head?, h ≠ g) : dropUpTo n g (List.replicate k g ++ gs) = gs := by
  induction k generalizing n with
  | zero =>
    cases gs with
    | nil => cases n <;> rfl
    | cons h gs =>
      cases n with
      | zero => rfl
      | succ n =>
        rw [List.replicate_zero, List.nil_append, dropUpTo, if_neg (other h rfl)]
  | succ k ih =>
    cases n with
    | zero => cases le
    | succ n =>
      rw [List.replicate_succ, List.cons_append, dropUpTo, if_pos rfl]
      exact ih (Nat.le_of_succ_le_succ le)

/-- What a place drops is one of its digits. -/
lemma Place.drop_spec (p : Place) (gs : List Glyph) : ∃ d < 10, gs = p.digit d ++ p.drop gs := by
  have additive : ∀ gs, ∃ d < 10, gs = p.digit d ++ p.dropAdditive gs := by
    intro gs
    cases gs with
    | nil => exact ⟨0, by decide, rfl⟩
    | cons g gs =>
      rw [Place.dropAdditive]
      split
      · rename_i eq
        subst eq
        obtain ⟨k, le, eq⟩ := dropUpTo_spec 3 p.one gs
        refine ⟨k + 5, by omega, ?_⟩
        rw [Place.digit, if_neg (by omega), if_neg (by omega), if_pos (by omega), Nat.add_sub_cancel,
          List.cons_append, ← eq]
      · obtain ⟨k, le, eq⟩ := dropUpTo_spec 3 p.one (g :: gs)
        refine ⟨k, by omega, ?_⟩
        rw [Place.digit, if_pos (by omega), ← eq]
  unfold Place.drop
  split
  · split
    · rename_i eq
      obtain ⟨rfl, rfl | rfl⟩ := eq
      · exact ⟨9, by decide, rfl⟩
      · exact ⟨4, by decide, rfl⟩
    · exact additive _
  · exact additive _

/-- Without a nine or a four in front only the additive form is dropped. -/
lemma Place.drop_eq_dropAdditive {p : Place} {gs : List Glyph}
    (no : ∀ h rest, gs = p.one :: h :: rest → h ≠ p.ten ∧ h ≠ p.five) :
    p.drop gs = p.dropAdditive gs := by
  unfold Place.drop
  split
  · split
    · rename_i eq
      obtain ⟨rfl, eq⟩ := eq
      obtain ⟨noten, nofive⟩ := no _ _ rfl
      rcases eq with eq | eq
      · exact absurd eq noten
      · exact absurd eq nofive
    · rfl
  · rfl

/-- Without a five in front only ones are dropped. -/
lemma Place.dropAdditive_eq_dropUpTo {p : Place} {gs : List Glyph}
    (nofive : ∀ h ∈ gs.head?, h ≠ p.five) : p.dropAdditive gs = dropUpTo 3 p.one gs := by
  cases gs with
  | nil => rfl
  | cons g gs => rw [Place.dropAdditive, if_neg (nofive g rfl)]

/-- A digit is dropped where less than one unit follows. -/
lemma Place.drop_digit {p : Place} {gs : List Glyph} (dec : p.Decimal) (above : p.Above gs) {d : Nat}
    (lt : d < 10) : p.drop (p.digit d ++ gs) = gs := by
  have pos := p.one.value_pos
  have five := dec.five
  have ten := dec.ten
  -- The three glyphs of the place differ, and what follows starts with none of them.
  have ne15 : p.one ≠ p.five := by intro eq; rw [← eq] at five; omega
  have ne1t : p.one ≠ p.ten := by intro eq; rw [← eq] at ten; omega
  have no1 : ∀ h ∈ gs.head?, h ≠ p.one := by
    rintro h mem rfl
    exact absurd (above _ mem) (lt_irrefl _)
  have no5 : ∀ h ∈ gs.head?, h ≠ p.five := by
    rintro h mem rfl
    have := above _ mem
    omega
  have not : ∀ h ∈ gs.head?, h ≠ p.ten := by
    rintro h mem rfl
    have := above _ mem
    omega
  unfold Place.digit
  split
  · rw [Place.drop_eq_dropAdditive, Place.dropAdditive_eq_dropUpTo, dropUpTo_replicate (by omega) no1]
    · intro h mem
      cases d with
      | zero => exact no5 h mem
      | succ d =>
        cases mem
        exact ne15
    · intro h rest eq
      rcases d with _ | _ | d
      · rw [List.replicate_zero, List.nil_append] at eq
        exact absurd rfl (no1 p.one (by rw [eq]; rfl))
      · obtain ⟨_, rfl⟩ := List.cons.inj eq
        exact ⟨not h rfl, no5 h rfl⟩
      · cases eq
        exact ⟨ne1t, ne15⟩
  · split
    · rw [List.cons_append, List.singleton_append, Place.drop, if_pos ⟨rfl, .inr rfl⟩]
    · split
      · rw [Place.drop_eq_dropAdditive, List.cons_append, Place.dropAdditive, if_pos rfl,
          dropUpTo_replicate (by omega) no1]
        intro h rest eq
        exact absurd (List.cons.inj eq).1.symm ne15
      · rw [List.cons_append, List.singleton_append, Place.drop, if_pos ⟨rfl, .inl rfl⟩]

/-- Thousands and one digit for each decimal place are a canonical numeral. -/
lemma append_digits {k a b c : Nat} (lta : a < 10) (ltb : b < 10) (ltc : c < 10) :
    List.replicate k .M ++ (hundreds.digit a ++ (tens.digit b ++ ones.digit c)) =
      ofNat (1000 * k + 100 * a + 10 * b + c) := by
  have thousand : (1000 * k + 100 * a + 10 * b + c) / 1000 = k := by omega
  have hundred : (1000 * k + 100 * a + 10 * b + c) / 100 % 10 = a := by omega
  have ten : (1000 * k + 100 * a + 10 * b + c) / 10 % 10 = b := by omega
  have one : (1000 * k + 100 * a + 10 * b + c) % 10 = c := by omega
  rw [ofNat, thousand, hundred, ten, one]

/-- Glyphs are well formed exactly when they are the canonical numeral of a number below 4000. -/
lemma wellFormed_iff {gs : List Glyph} : wellFormed gs = true ↔ ∃ n ≤ 3999, gs = ofNat n := by
  have eq : wellFormed gs = (ones.drop (tens.drop (hundreds.drop (dropUpTo 3 .M gs)))).isEmpty := rfl
  rw [eq, List.isEmpty_iff]
  constructor
  · intro empty
    obtain ⟨k, le, eqk⟩ := dropUpTo_spec 3 .M gs
    obtain ⟨a, lta, eqa⟩ := hundreds.drop_spec (dropUpTo 3 .M gs)
    obtain ⟨b, ltb, eqb⟩ := tens.drop_spec (hundreds.drop (dropUpTo 3 .M gs))
    obtain ⟨c, ltc, eqc⟩ := ones.drop_spec (tens.drop (hundreds.drop (dropUpTo 3 .M gs)))
    rw [empty, List.append_nil] at eqc
    refine ⟨1000 * k + 100 * a + 10 * b + c, by omega, ?_⟩
    rw [eqk, eqa, eqb, eqc, append_digits lta ltb ltc]
  · rintro ⟨n, le, rfl⟩
    have nothousand : ∀ h ∈ (hundreds.digit (n / 100 % 10) ++
        (tens.digit (n / 10 % 10) ++ ones.digit (n % 10))).head?, h ≠ .M := by
      rintro h mem rfl
      exact absurd (thousands_above n _ mem) (lt_irrefl _)
    have none : ones.Above [] := nofun
    have last := Place.drop_digit ones_decimal none (Nat.mod_lt n (by decide : 10 > 0))
    rw [List.append_nil] at last
    rw [ofNat, dropUpTo_replicate (by omega) nothousand,
      Place.drop_digit hundreds_decimal (hundreds_above n) (Nat.mod_lt _ (by decide)),
      Place.drop_digit tens_decimal (tens_above n) (Nat.mod_lt _ (by decide)), last]

/-- Only zero is written with no glyphs. -/
lemma ofNat_ne_nil {n : Nat} (pos : 0 < n) : ofNat n ≠ [] := by
  intro eq
  have := value_ofNat n
  rw [eq] at this
  simp [value] at this
  omega

/-- The canonical numeral of a number as a word. -/
def word (n : Nat) : List Char :=
  (ofNat n).map Glyph.toChar

/-- The numerals are the canonical ones from 1 to 3999. -/
lemma isNumeral_iff {w : List Char} : isNumeral w = true ↔ ∃ n, 0 < n ∧ n ≤ 3999 ∧ w = word n := by
  constructor
  · intro num
    unfold isNumeral at num
    split at num
    · rename_i gs eq
      rw [Bool.and_eq_true, wellFormed_iff] at num
      obtain ⟨some, n, le, rfl⟩ := num
      refine ⟨n, ?_, le, glyphs?_eq_some_iff.mp eq⟩
      rcases Nat.eq_zero_or_pos n with rfl | pos
      · cases some
      · exact pos
    · cases num
  · rintro ⟨n, pos, le, rfl⟩
    have eq : glyphs? (word n) = some (ofNat n) := glyphs?_eq_some_iff.mpr rfl
    have wf : wellFormed (ofNat n) = true := wellFormed_iff.mpr ⟨n, le, rfl⟩
    simp [isNumeral, eq, wf, ofNat_ne_nil pos]

/-- A glyph is not a minus sign. -/
lemma toChar_ne_minus (g : Glyph) : g.toChar ≠ '-' := by
  cases g <;> decide

/-- A run of glyphs has its value. -/
lemma value?_map_toChar (gs : List Glyph) : value? (gs.map Glyph.toChar) = some (value gs) := by
  have eq : glyphs? (gs.map Glyph.toChar) = some gs := glyphs?_eq_some_iff.mpr rfl
  unfold value?
  split
  · rename_i w eqw
    cases gs with
    | nil => cases eqw
    | cons g gs => exact absurd (List.cons.inj eqw).1 (toChar_ne_minus g)
  · rw [eq]
    rfl

/-- A run of glyphs after a minus sign has the opposite value. -/
lemma value?_minus_map_toChar (gs : List Glyph) :
    value? ('-' :: gs.map Glyph.toChar) = some (-value gs) := by
  have eq : glyphs? (gs.map Glyph.toChar) = some gs := glyphs?_eq_some_iff.mpr rfl
  rw [value?, eq]
  rfl

end Numeral

/-- Characters that are all glyphs are the characters of some glyphs. -/
lemma exists_glyphs {w : List Char} (all : ∀ c ∈ w, isGlyph c = true) :
    ∃ gs : List Glyph, w = gs.map Glyph.toChar := by
  induction w with
  | nil => exact ⟨[], rfl⟩
  | cons c w ih =>
    obtain ⟨gs, rfl⟩ := ih (fun d mem => all d (List.mem_cons_of_mem _ mem))
    obtain ⟨g, eq⟩ := Option.isSome_iff_exists.mp (all c List.mem_cons_self)
    exact ⟨g :: gs, by rw [Glyph.eq_toChar eq]; rfl⟩

/-- The character of a glyph is a glyph. -/
lemma isGlyph_toChar (g : Glyph) : isGlyph g.toChar = true := by
  cases g <;> rfl

end LatinToScript
