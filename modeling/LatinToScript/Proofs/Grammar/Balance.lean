import LatinToScript.Proofs.Script.Translation
import LatinToScript.Proofs.Token.Source

/-!
# The check of brackets and the grammar

`checkBalance` keeps the two kinds of brackets apart, so it lets them cross. The grammar does not:
what it derives is `Nested`, and nested brackets pass the check. The check therefore refuses no
program, and a source is compiled whenever its text can be scanned and its tokens are a program,
with or without the check.

Whether brackets are nested is decided with one stack for both kinds (`closesAll_iff_nested`).
-/

namespace LatinToScript

/-! ## Nesting with one stack -/

/-- Whether some tokens close the open brackets and their own, always the innermost one first. -/
def closesAll : List Bracket → List TokenKind → Bool
  | stack, [] => stack.isEmpty
  | stack, .opening bracket :: ks => closesAll (bracket :: stack) ks
  | [], .closing _ :: _ => false
  | innermost :: stack, .closing bracket :: ks => innermost == bracket && closesAll stack ks
  | stack, _ :: ks => closesAll stack ks

/-- A token that is no bracket leaves the open brackets as they are. -/
lemma closesAll_cons {stack : List Bracket} {k : TokenKind} {ks : List TokenKind}
    (op : k.isOpening = false) (cl : k.isClosing = false) :
    closesAll stack (k :: ks) = closesAll stack ks := by
  cases k with
  | opening bracket => cases op
  | closing bracket => cases cl
  | _ => cases stack <;> rfl

/-- So do nested tokens. -/
lemma Nested.closesAll_append {ks : List TokenKind} (nk : Nested ks) (stack : List Bracket)
    (ls : List TokenKind) : closesAll stack (ks ++ ls) = closesAll stack ls := by
  induction nk generalizing stack ls with
  | nil => rfl
  | plain op cl _ ih =>
    rw [List.cons_append, closesAll_cons op cl]
    exact ih stack ls
  | @enclosed bracket ks ms _ _ ihk ihm =>
    rw [List.cons_append, List.append_assoc, List.cons_append]
    change closesAll (bracket :: stack) (ks ++ .closing bracket :: (ms ++ ls)) = _
    rw [ihk]
    change (bracket == bracket && closesAll stack (ms ++ ls)) = _
    rw [beq_self_eq_true, Bool.true_and, ihm]

/-- Nested tokens, each followed by the end of one open bracket, and nested tokens after that. -/
def NestedTail : List Bracket → List TokenKind → Prop
  | [], ks => Nested ks
  | bracket :: stack, ks =>
    ∃ inner rest, ks = inner ++ .closing bracket :: rest ∧ Nested inner ∧ NestedTail stack rest

/-- Nested tokens in front do not matter. -/
lemma NestedTail.append {stack : List Bracket} {ks ls : List TokenKind} (nk : Nested ks)
    (tail : NestedTail stack ls) : NestedTail stack (ks ++ ls) := by
  cases stack with
  | nil => exact nk.append tail
  | cons bracket stack =>
    obtain ⟨inner, rest, rfl, ni, tail⟩ := tail
    exact ⟨ks ++ inner, rest, (List.append_assoc _ _ _).symm, nk.append ni, tail⟩

/-- Tokens that close all the open brackets are nested tokens between the ends of these brackets. -/
lemma nestedTail_of_closesAll {stack : List Bracket} {ks : List TokenKind}
    (closes : closesAll stack ks = true) : NestedTail stack ks := by
  induction ks generalizing stack with
  | nil =>
    cases stack with
    | nil => exact .nil
    | cons bracket stack => cases closes
  | cons k ks ih =>
    have plain (op : k.isOpening = false) (cl : k.isClosing = false) : NestedTail stack (k :: ks) := by
      rw [closesAll_cons op cl] at closes
      exact (ih closes).append (.single op cl)
    cases k with
    | opening bracket =>
      -- The bracket is closed behind some nested tokens, and the others are closed after that.
      have closes' : closesAll (bracket :: stack) ks = true := by
        cases stack <;> exact closes
      obtain ⟨inner, rest, rfl, ni, tail⟩ := ih closes'
      have pair : Nested (.opening bracket :: (inner ++ [.closing bracket])) := .enclosed ni .nil
      have all := tail.append pair
      rw [List.cons_append, List.append_assoc, List.singleton_append] at all
      exact all
    | closing bracket =>
      cases stack with
      | nil => cases closes
      | cons innermost stack =>
        obtain ⟨same, closes⟩ := Bool.and_eq_true_iff.mp closes
        rw [eq_of_beq same]
        exact ⟨[], ks, rfl, .nil, ih closes⟩
    | _ => exact plain rfl rfl

/-- One stack tells whether brackets are properly nested. -/
lemma closesAll_iff_nested {ks : List TokenKind} : closesAll [] ks = true ↔ Nested ks := by
  constructor
  · intro closes
    exact nestedTail_of_closesAll closes
  · intro nk
    have eq := nk.closesAll_append [] []
    rw [List.append_nil] at eq
    exact eq

instance Nested.decidable (ks : List TokenKind) : Decidable (Nested ks) :=
  decidable_of_iff _ closesAll_iff_nested

/-! ## Programs -/

/-- The brackets of a program are properly nested. -/
lemma Program.nested_of_ofTokens {ts : List Token} {p : Program}
    (eq : Program.ofTokens ts = .ok p) : Nested (kinds ts) :=
  DerivesStatements.nested (Program.ofTokensWithin_eq_ok_iff.mp eq).1

/-- A source is compiled when its text can be scanned and its tokens are a program. -/
lemma compile_eq_ok_iff_scan {source out : String} :
    compile source = .ok out ↔
      ∃ ts p, scan .start (scannedText source) = .ok ts ∧ Program.ofTokens ts = .ok p ∧
        p.toNative.script = out := by
  rw [compile_eq_ok_iff]
  constructor
  · rintro ⟨ts, p, eqt, eqp, eqs⟩
    exact ⟨ts, p, scan_eq_ok_iff.mpr (Token.ofSource_eq_ok_iff.mp eqt).1, eqp, eqs⟩
  · rintro ⟨ts, p, eqt, eqp, eqs⟩
    have balanced := (Program.nested_of_ofTokens eqp).checkBalance_eq
    exact ⟨ts, p, Token.ofSource_eq_ok_iff.mpr ⟨scan_eq_ok_iff.mp eqt, balanced⟩, eqp, eqs⟩

/-- A parenthesis and a brace that cross. -/
def crossingBrackets : List Token :=
  [⟨.opening .parenthesis, .start⟩, ⟨.opening .brace, .start⟩, ⟨.closing .parenthesis, .start⟩,
    ⟨.closing .brace, .start⟩]

/-- The brackets of every program are properly nested and pass the check, which would let them
cross; so a source is compiled exactly when its text can be scanned and its tokens are a program. -/
theorem Program.ofTokens_nested_and_balanced :
    (∀ ts p, Program.ofTokens ts = .ok p → Nested (kinds ts) ∧ checkBalance ts = .ok ()) ∧
    (checkBalance crossingBrackets = .ok () ∧ ¬ Nested (kinds crossingBrackets)) ∧
    ∀ source out, compile source = .ok out ↔
      ∃ ts p, scan .start (scannedText source) = .ok ts ∧ Program.ofTokens ts = .ok p ∧
        p.toNative.script = out := by
  refine ⟨?_, ⟨rfl, by decide⟩, ?_⟩
  · intro ts p eq
    have nested := Program.nested_of_ofTokens eq
    exact ⟨nested, nested.checkBalance_eq⟩
  · intro source out
    exact compile_eq_ok_iff_scan

/-- Two nested blocks with a parenthesis in the inner one. -/
theorem Program.ofTokens_nested_and_balanced_blocks :
    ∃ ts p, scan .start (scannedText "\x7b\x7b(a sit b)\x7d\x7d") = .ok ts ∧
      Program.ofTokens ts = .ok p ∧ Nested (kinds ts) ∧ checkBalance ts = .ok () := by
  obtain ⟨balanced, _, compiles⟩ := Program.ofTokens_nested_and_balanced
  have eq : compile "\x7b\x7b(a sit b)\x7d\x7d" = .ok "\x7b\x7ba == b\x7d\x7d" := by decide +kernel
  obtain ⟨ts, p, eqt, eqp, _⟩ := (compiles _ _).mp eq
  exact ⟨ts, p, eqt, eqp, balanced ts p eqp⟩

end LatinToScript
