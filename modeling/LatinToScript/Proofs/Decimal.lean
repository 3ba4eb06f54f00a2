import LatinToScript.Text
import Mathlib.Tactic.Common

/-!
# Decimal forms

Numbers are written in the standard decimal form, and from their digits they can be read back.
-/

namespace LatinToScript.Decimal

/-- The digits are those of the standard decimal form. -/
lemma digits_eq (n : Nat) : digits n = Nat.toDigits 10 n := by
  have digit_eq : ∀ d < 10, digit d = d.digitChar := by decide
  induction n using Nat.strongRecOn with
  | _ n ih =>
    rw [digits]
    split
    · rename_i lt
      rw [digit_eq n lt, Nat.toDigits_of_lt_base lt]
    · rename_i ge
      have lt : n % 10 < 10 := Nat.mod_lt n (by decide)
      rw [ih (n / 10) (by omega), digit_eq _ lt, ← Nat.toDigits_of_lt_base lt,
        Nat.toDigits_append_toDigits (by decide) (by omega) lt, Nat.div_add_mod]

/-- A number is written as the standard library writes it. -/
lemma ofNat_eq_toString (n : Nat) : ofNat n = toString n := by
  rw [ofNat, digits_eq, Nat.toString_eq_ofList_toDigits]

/-- Integers are written in their standard decimal form. -/
lemma ofInt_eq_toString (value : Int) : ofInt value = toString value := by
  cases value with
  | ofNat n => exact ofNat_eq_toString n
  | negSucc n => exact congrArg ("-" ++ ·) (ofNat_eq_toString (n + 1))

/-- Only digits are written for a natural number. -/
lemma isDigit_of_mem_ofNat {n : Nat} {c : Char} (mem : c ∈ (ofNat n).toList) : c.isDigit = true := by
  rw [ofNat, String.toList_ofList, digits_eq] at mem
  exact Nat.isDigit_of_mem_toDigits (by decide) (by decide) mem

/-- A number is written with digits and a minus sign. -/
lemma ofInt_chars {value : Int} : ∀ c ∈ (ofInt value).toList, (c.isDigit || c == '-') = true := by
  intro c mem
  cases value with
  | ofNat n => rw [isDigit_of_mem_ofNat mem, Bool.true_or]
  | negSucc n =>
    rw [ofInt, String.toList_append] at mem
    rcases List.mem_append.mp mem with mem | mem
    · rw [List.mem_singleton.mp mem]
      decide
    · rw [isDigit_of_mem_ofNat mem, Bool.true_or]

/-- Only zero starts with a zero. -/
lemma eq_zero_of_head?_digits {n : Nat} (zero : (digits n).head? = some '0') : n = 0 := by
  induction n using Nat.strongRecOn with
  | _ n ih =>
    rw [digits] at zero
    split at zero
    · rename_i lt
      have small : ∀ d < 10, digit d = '0' → d = 0 := by decide
      exact small n lt (Option.some.inj zero)
    · -- The first digit is that of a tenth, which is not zero.
      rename_i ge
      have some : digits (n / 10) ≠ [] := by
        rw [digits_eq]
        exact Nat.toDigits_ne_nil
      obtain ⟨c, ds, eq⟩ := List.exists_cons_of_ne_nil some
      rw [eq] at zero
      have tenth := ih (n / 10) (by omega) (eq ▸ zero)
      omega

/-- A number is never written with nothing. -/
lemma ofInt_ne_nil (value : Int) : (ofInt value).toList ≠ [] := by
  cases value with
  | ofNat n =>
    rw [ofInt, ofNat, String.toList_ofList, digits_eq]
    exact Nat.toDigits_ne_nil
  | negSucc n =>
    rw [ofInt, String.toList_append]
    exact List.cons_ne_nil _ _

/-- Two natural numbers with the same decimal form are equal. -/
lemma ofNat_injective {n m : Nat} (eq : ofNat n = ofNat m) : n = m := by
  have chars := congrArg String.toList eq
  rw [ofNat, ofNat, String.toList_ofList, String.toList_ofList, digits_eq, digits_eq] at chars
  rw [← Nat.ofDigitChars_ten_toDigits (n := n), chars, Nat.ofDigitChars_ten_toDigits]

/-- Only a negative number has a sign. -/
lemma ofNat_ne_minus (n m : Nat) : ofNat n ≠ "-" ++ ofNat m := by
  intro eq
  have mem : '-' ∈ (ofNat n).toList := by
    rw [eq, String.toList_append]
    exact List.mem_cons_self
  exact absurd (isDigit_of_mem_ofNat mem) (by decide)

/-- Two numbers with the same decimal form are equal; only a negative one has a sign. -/
lemma ofInt_injective {value value' : Int} (eq : ofInt value = ofInt value') : value = value' := by
  cases value with
  | ofNat n =>
    cases value' with
    | ofNat m => rw [ofNat_injective eq]
    | negSucc m => exact absurd eq (ofNat_ne_minus n (m + 1))
  | negSucc n =>
    cases value' with
    | ofNat m => exact absurd eq.symm (ofNat_ne_minus m (n + 1))
    | negSucc m =>
      have eq' := ofNat_injective (String.append_right_inj _ |>.mp eq)
      rw [Nat.succ.inj eq']

end LatinToScript.Decimal
