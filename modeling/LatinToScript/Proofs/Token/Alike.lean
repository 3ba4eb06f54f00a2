import LatinToScript.Proofs.Token.Source
import Mathlib.Data.List.Forall2

/-!
# Tokens at other places

The place where a text starts only tells where its tokens and its faults are. `Token.Alike r` and
`TokenError.Alike r` say that two tokens or two faults are the same except for their places, and
that their places are related by `r`. A text scanned from two related places gives results that are
alike (`scan_alike`), and so does the check of the brackets (`OpenBrackets.check_alike`).
-/

namespace LatinToScript

variable {r : Position → Position → Prop}

/-- Tokens of one kind at related places. -/
structure Token.Alike (r : Position → Position → Prop) (t u : Token) : Prop where
  kind : t.kind = u.kind
  position : r t.position u.position

/-- Token by token alike. -/
abbrev TokensAlike (r : Position → Position → Prop) : List Token → List Token → Prop :=
  List.Forall₂ (Token.Alike r)

/-- The same fault at related places. -/
inductive TokenError.Alike (r : Position → Position → Prop) : TokenError → TokenError → Prop where
  | unknownCharacter {character p q} :
    r p q →
    TokenError.Alike r (.unknownCharacter character p) (.unknownCharacter character q)
  | unfinishedText {p q} :
    r p q →
    TokenError.Alike r (.unfinishedText p) (.unfinishedText q)
  | unmatchedOpening {bracket p q} :
    r p q →
    TokenError.Alike r (.unmatchedOpening bracket p) (.unmatchedOpening bracket q)
  | unmatchedClosing {bracket p q} :
    r p q →
    TokenError.Alike r (.unmatchedClosing bracket p) (.unmatchedClosing bracket q)

/-- A fault is alike itself, if every place is related to itself. -/
lemma TokenError.Alike.refl (rel : ∀ p, r p p) (e : TokenError) : TokenError.Alike r e e := by
  cases e with
  | unknownCharacter => exact .unknownCharacter (rel _)
  | unfinishedText => exact .unfinishedText (rel _)
  | unmatchedOpening => exact .unmatchedOpening (rel _)
  | unmatchedClosing => exact .unmatchedClosing (rel _)

/-- Two successes whose values are related, or two failures whose faults are. -/
inductive ResultsAlike {ε α : Type} (re : ε → ε → Prop) (ra : α → α → Prop) :
    Except ε α → Except ε α → Prop where
  | ok {a b} :
    ra a b →
    ResultsAlike re ra (.ok a) (.ok b)
  | error {e f} :
    re e f →
    ResultsAlike re ra (.error e) (.error f)

section Results

variable {ε α : Type} {re : ε → ε → Prop} {ra : α → α → Prop} {result : Except ε α}

/-- A result that is alike a success is a success with a related value. -/
lemma ResultsAlike.exists_ok {a : α} (alike : ResultsAlike re ra (.ok a) result) :
    ∃ b, result = .ok b ∧ ra a b := by
  cases alike with
  | ok rel => exact ⟨_, rfl, rel⟩

/-- A result that is alike a failure is a failure with a related fault. -/
lemma ResultsAlike.exists_error {e : ε} (alike : ResultsAlike re ra (.error e) result) :
    ∃ f, result = .error f ∧ re e f := by
  cases alike with
  | error rel => exact ⟨_, rfl, rel⟩

/-- Results stay alike when their values are changed in a related way. -/
lemma ResultsAlike.map {β : Type} {rb : β → β → Prop} {other : Except ε α} {f g : α → β}
    (alike : ResultsAlike re ra result other) (rel : ∀ {a b}, ra a b → rb (f a) (g b)) :
    ResultsAlike re rb (result.map f) (other.map g) := by
  cases alike with
  | ok alike => exact .ok (rel alike)
  | error alike => exact .error alike

/-- Results stay alike for a weaker relation of their values. -/
lemma ResultsAlike.imp {rb : α → α → Prop} {other : Except ε α} (alike : ResultsAlike re ra result other)
    (rel : ∀ {a b}, ra a b → rb a b) : ResultsAlike re rb result other := by
  cases alike with
  | ok alike => exact .ok (rel alike)
  | error alike => exact .error alike

/-- Results that are chosen by the same condition are alike if both choices are. -/
lemma ResultsAlike.ite {c : Prop} [Decidable c] {x y x' y' : Except ε α} (yes : ResultsAlike re ra x x')
    (no : ResultsAlike re ra y y') : ResultsAlike re ra (if c then x else y) (if c then x' else y') := by
  split
  · exact yes
  · exact no

end Results

/-! ## Scanning -/

/-- Which token comes next does not depend on its place, and a fault is at the place itself. -/
lemma lexeme_alike {p q : Position} (rel : r p q) (c : Char) (rest : List Char) :
    ResultsAlike (TokenError.Alike r) Eq (lexeme p c rest) (lexeme q c rest) := by
  unfold lexeme
  dsimp only
  refine .ite (.ok rfl) (.ite (.ite (.ok rfl) (.error (.unfinishedText rel))) ?_)
  refine .ite (.ok rfl) (.ite (.ok rfl) (.ite (.ok rfl) (.ite (.ok rfl) ?_)))
  exact .ite (.ok rfl) (.ite (.ok rfl) (.error (.unknownCharacter rel)))

/-- A text scanned from two related places, if going on by a character keeps places related. -/
lemma scan_alike (advance : ∀ {p q} c, r p q → r (p.advance c) (q.advance c)) {p q : Position}
    (rel : r p q) (text : List Char) :
    ResultsAlike (TokenError.Alike r) (TokensAlike r) (scan p text) (scan q text) := by
  have advanceAll : ∀ {p q} text, r p q → r (p.advanceAll text) (q.advanceAll text) := by
    intro p q text rel
    induction text generalizing p q with
    | nil => exact rel
    | cons c text ih => exact ih (advance c rel)
  fun_induction scan p text generalizing q with
  | case1 p =>
    rw [scan]
    exact .ok .nil
  | case2 p c rest blank ih =>
    rw [scan, if_pos blank]
    exact ih (advance c rel)
  | case3 p c rest other e eql =>
    obtain ⟨f, eqf, alike⟩ := (eql ▸ lexeme_alike rel c rest).exists_error
    rw [scan, if_neg other, eqf]
    exact .error alike
  | case4 p c rest other kind length eql e eqs ih =>
    obtain ⟨_, eqk, rfl⟩ := (eql ▸ lexeme_alike rel c rest).exists_ok
    obtain ⟨f, eqf, alike⟩ := (eqs ▸ ih (advanceAll _ rel)).exists_error
    rw [scan, if_neg other, eqk]
    dsimp only
    rw [eqf]
    exact .error alike
  | case5 p c rest other kind length eql ts eqs ih =>
    obtain ⟨_, eqk, rfl⟩ := (eql ▸ lexeme_alike rel c rest).exists_ok
    obtain ⟨us, equ, alike⟩ := (eqs ▸ ih (advanceAll _ rel)).exists_ok
    rw [scan, if_neg other, eqk]
    dsimp only
    rw [equ]
    exact .ok (.cons ⟨rfl, rel⟩ alike)

/-! ## The check of the brackets -/

namespace OpenBrackets

/-- As many open brackets of each kind, at related places. -/
def Alike (r : Position → Position → Prop) (brackets others : OpenBrackets) : Prop :=
  ∀ bracket, List.Forall₂ r (brackets.get bracket) (others.get bracket)

/-- Open brackets stay alike when those of one kind are exchanged for related ones. -/
lemma Alike.set {brackets others : OpenBrackets} (alike : Alike r brackets others) (bracket : Bracket)
    {ps qs : List Position} (rel : List.Forall₂ r ps qs) :
    Alike r (brackets.set bracket ps) (others.set bracket qs) := by
  intro other
  rw [get_set, get_set]
  split
  · exact rel
  · exact alike other

/-- The last of related places are related. -/
lemma getLast?_alike {ps qs : List Position} (rel : List.Forall₂ r ps qs) :
    Option.Rel r ps.getLast? qs.getLast? := by
  rw [← List.forall₂_reverse_iff] at rel
  rw [← List.head?_reverse, ← List.head?_reverse]
  generalize ps.reverse = ps, qs.reverse = qs at rel
  cases rel with
  | nil => exact .none
  | cons head _ => exact .some head

/-- Brackets that are left open are reported alike. -/
lemma close_alike {brackets others : OpenBrackets} (alike : Alike r brackets others) :
    ResultsAlike (TokenError.Alike r) Eq brackets.close others.close := by
  have parentheses : Option.Rel r brackets.parentheses.getLast? others.parentheses.getLast? :=
    getLast?_alike (alike .parenthesis)
  have braces : Option.Rel r brackets.braces.getLast? others.braces.getLast? :=
    getLast?_alike (alike .brace)
  unfold close
  generalize brackets.parentheses.getLast? = p, others.parentheses.getLast? = q at parentheses
  generalize brackets.braces.getLast? = p', others.braces.getLast? = q' at braces
  cases parentheses with
  | some rel => exact .error (.unmatchedOpening rel)
  | none =>
    cases braces with
    | some rel => exact .error (.unmatchedOpening rel)
    | none => exact .ok rfl

/-- Tokens that are alike pass the check or have the same fault. -/
lemma check_alike {brackets others : OpenBrackets} (alike : Alike r brackets others)
    {ts us : List Token} (tokens : TokensAlike r ts us) :
    ResultsAlike (TokenError.Alike r) Eq (brackets.check ts) (others.check us) := by
  induction tokens generalizing brackets others with
  | nil => exact close_alike alike
  | @cons t u ts us head tail ih =>
    rw [check.eq_def, check.eq_def others]
    dsimp only
    rw [← head.kind]
    cases t.kind with
    | opening bracket => exact ih (alike.set bracket (.cons head.position (alike bracket)))
    | closing bracket =>
      have rel := alike bracket
      dsimp only
      generalize brackets.get bracket = ps, others.get bracket = qs at rel
      cases rel with
      | nil => exact .error (.unmatchedClosing head.position)
      | cons _ outer => exact ih (alike.set bracket outer)
    | _ => exact ih alike

end OpenBrackets

/-- Tokens that are alike have balanced brackets alike. -/
lemma checkBalance_alike {ts us : List Token} (tokens : TokensAlike r ts us) :
    ResultsAlike (TokenError.Alike r) Eq (checkBalance ts) (checkBalance us) := by
  apply OpenBrackets.check_alike _ tokens
  intro bracket
  cases bracket <;> exact .nil

end LatinToScript
