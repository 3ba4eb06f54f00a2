import LatinToScript.Proofs.Token.Balance
import Mathlib.Order.Bounds.Basic

/-!
# Brackets and their partners

The partner of a bracket that closes is the nearest bracket of its kind in front of it that has no partner
yet (`Partners`). When the first `n` tokens have been read, each stack of the check holds the places of the
brackets that are open there (`Tracks`): one token keeps this (`Tracks.opening`, `Tracks.closing`,
`Tracks.other`), and so do all of them (`OpenBrackets.exists_check_eq_close`).

At the end the check complains about the first open parenthesis, and about the first open brace only if no
parenthesis is open. So an open brace is passed over if a parenthesis is open behind it
(`checkBalance_leftOpen`).
-/

namespace LatinToScript

/-- The token at an index opens a bracket. -/
def OpensAt (ts : List Token) (bracket : Bracket) (i : Nat) : Prop :=
  (kinds ts)[i]? = some (.opening bracket)

/-- The token at an index closes a bracket. -/
def ClosesAt (ts : List Token) (bracket : Bracket) (j : Nat) : Prop :=
  (kinds ts)[j]? = some (.closing bracket)

/-- The token at the second index closes the bracket that the one at the first index opens: this bracket is
still open there, and every other one that opens between them is not. -/
def Partners (ts : List Token) (bracket : Bracket) (i j : Nat) : Prop :=
  OpensAt ts bracket i ∧ ClosesAt ts bracket j ∧ i < j ∧ (∀ k, k < j → ¬ Partners ts bracket i k) ∧
    ∀ between, i < between → between < j → OpensAt ts bracket between →
      ∃ k, ∃ _ : k < j, Partners ts bracket between k
termination_by j

/-- A bracket that opens and has no partner. -/
def LeftOpen (ts : List Token) (bracket : Bracket) (i : Nat) : Prop :=
  OpensAt ts bracket i ∧ ∀ j, ¬ Partners ts bracket i j

/-- A bracket that closes and has no partner. -/
def IsStray (ts : List Token) (bracket : Bracket) (j : Nat) : Prop :=
  ClosesAt ts bracket j ∧ ∀ i, ¬ Partners ts bracket i j

/-- A bracket that is open in front of the token at index `n`. -/
structure OpenBefore (ts : List Token) (bracket : Bracket) (n i : Nat) : Prop where
  lt : i < n
  opens : OpensAt ts bracket i
  alone : ∀ k, k < n → ¬ Partners ts bracket i k

section Partners
variable {ts : List Token} {bracket : Bracket} {i j n : Nat}

/-- The partner of a bracket that closes is the last one that is open there. -/
lemma partners_iff :
    Partners ts bracket i j ↔
      ClosesAt ts bracket j ∧ IsGreatest {i | OpenBefore ts bracket j i} i := by
  rw [Partners]
  constructor
  · rintro ⟨opens, closes, lt, alone, between⟩
    refine ⟨closes, ⟨lt, opens, alone⟩, ?_⟩
    intro other before
    by_contra later
    obtain ⟨k, ltk, partners⟩ := between other (Nat.lt_of_not_le later) before.lt before.opens
    exact before.alone k ltk partners
  · rintro ⟨closes, before, greatest⟩
    refine ⟨before.opens, closes, before.lt, before.alone, ?_⟩
    intro other later lt opens
    by_contra none
    have le : other ≤ i := by
      apply greatest
      refine ⟨lt, opens, ?_⟩
      intro k ltk partners
      exact none ⟨k, ltk, partners⟩
    exact Nat.lt_irrefl i (Nat.lt_of_lt_of_le later le)

/-- A bracket opens before its partner closes. -/
lemma Partners.lt (partners : Partners ts bracket i j) : i < j :=
  (partners_iff.mp partners).2.1.lt

/-- In front of the first token no bracket is open. -/
lemma not_openBefore_zero : ¬ OpenBefore ts bracket 0 i := by
  intro before
  exact Nat.not_lt_zero i before.lt

/-- Behind one more token the same brackets are open, but for the one that it closes or opens. -/
lemma openBefore_succ_iff :
    OpenBefore ts bracket (n + 1) i ↔
      OpenBefore ts bracket n i ∧ ¬ Partners ts bracket i n ∨ i = n ∧ OpensAt ts bracket n := by
  constructor
  · intro before
    rcases Nat.lt_succ_iff_lt_or_eq.mp before.lt with lt | rfl
    · left
      refine ⟨⟨lt, before.opens, ?_⟩, before.alone n (Nat.lt_succ_self n)⟩
      intro k ltk
      exact before.alone k (Nat.lt_succ_of_lt ltk)
    · exact .inr ⟨rfl, before.opens⟩
  · rintro (⟨before, single⟩ | ⟨rfl, opens⟩)
    · refine ⟨Nat.lt_succ_of_lt before.lt, before.opens, ?_⟩
      intro k ltk
      rcases Nat.lt_succ_iff_lt_or_eq.mp ltk with ltk | rfl
      · exact before.alone k ltk
      · exact single
    · refine ⟨Nat.lt_succ_self i, opens, ?_⟩
      intro k ltk partners
      exact Nat.lt_irrefl i (Nat.lt_of_lt_of_le partners.lt (Nat.le_of_lt_succ ltk))

/-- The brackets that are open at the end have no partner. -/
lemma openBefore_length_iff : OpenBefore ts bracket ts.length i ↔ LeftOpen ts bracket i := by
  have inside : ∀ {k kind}, (kinds ts)[k]? = some kind → k < ts.length := by
    intro k kind get
    obtain ⟨lt, _⟩ := List.getElem?_eq_some_iff.mp get
    rwa [kinds, List.length_map] at lt
  constructor
  · intro before
    refine ⟨before.opens, ?_⟩
    intro j partners
    exact before.alone j (inside (partners_iff.mp partners).1) partners
  · rintro ⟨opens, alone⟩
    exact ⟨inside opens, opens, fun k _ => alone k⟩

end Partners

/-! ## One token -/

/-- Some places are those of the brackets that are open in front of a token, the last one first. -/
def Tracks (ts : List Token) (bracket : Bracket) (n : Nat) (places : List Position) : Prop :=
  ∃ indices : List Nat, indices.Pairwise (· > ·) ∧
    (∀ i, i ∈ indices ↔ OpenBefore ts bracket n i) ∧
    places.map some = indices.map fun i => ts[i]?.map Token.position

namespace Tracks

variable {ts : List Token} {bracket : Bracket} {n : Nat} {places : List Position} {t : Token}

/-- In front of the first token no places are tracked. -/
lemma start : Tracks ts bracket 0 [] := by
  refine ⟨[], .nil, ?_, rfl⟩
  intro i
  exact iff_of_false List.not_mem_nil not_openBefore_zero

/-- An opening bracket is tracked from its token on, and it is the last one. -/
lemma opening (tr : Tracks ts bracket n places) (get : ts[n]? = some t)
    (kt : t.kind = .opening bracket) : Tracks ts bracket (n + 1) (t.position :: places) := by
  obtain ⟨indices, later, mem, eq⟩ := tr
  have opens : OpensAt ts bracket n := by rw [OpensAt, kinds, List.getElem?_map, get, ← kt]; rfl
  refine ⟨n :: indices, .cons ?_ later, ?_, ?_⟩
  · intro i memi
    exact ((mem i).mp memi).lt
  · intro i
    rw [List.mem_cons, mem, openBefore_succ_iff]
    constructor
    · rintro (rfl | before)
      · exact .inr ⟨rfl, opens⟩
      · refine .inl ⟨before, ?_⟩
        intro partners
        have closes := (partners_iff.mp partners).1
        rw [ClosesAt, opens] at closes
        cases closes
    · rintro (⟨before, _⟩ | ⟨rfl, _⟩)
      · exact .inr before
      · exact .inl rfl
  · rw [List.map_cons, List.map_cons, eq, get]
    rfl

/-- The bracket that closes takes the last open one for its partner, and the others stay open. -/
lemma closing {place : Position} (tr : Tracks ts bracket n (place :: places))
    (closes : ClosesAt ts bracket n) : Tracks ts bracket (n + 1) places := by
  obtain ⟨indices, later, mem, eq⟩ := tr
  obtain ⟨last, indices, rfl, _, eq⟩ := List.map_eq_cons_iff.mp eq.symm
  obtain ⟨least, later⟩ := List.pairwise_cons.mp later
  have partners : ∀ i, Partners ts bracket i n ↔ i = last := by
    have greatest : IsGreatest {i | OpenBefore ts bracket n i} last := by
      refine ⟨(mem last).mp List.mem_cons_self, ?_⟩
      intro i before
      rcases List.mem_cons.mp ((mem i).mpr before) with rfl | memi
      · exact Nat.le_refl i
      · exact Nat.le_of_lt (least i memi)
    intro i
    rw [partners_iff]
    constructor
    · rintro ⟨_, greatest'⟩
      exact greatest'.unique greatest
    · rintro rfl
      exact ⟨closes, greatest⟩
  refine ⟨indices, later, ?_, eq.symm⟩
  intro i
  rw [openBefore_succ_iff, ← mem, partners, List.mem_cons]
  constructor
  · intro memi
    exact .inl ⟨.inr memi, Nat.ne_of_lt (least i memi)⟩
  · rintro (⟨rfl | memi, ne⟩ | ⟨_, opens⟩)
    · exact absurd rfl ne
    · exact memi
    · rw [OpensAt, closes] at opens
      cases opens

/-- With nothing open there is no partner. -/
lemma isStray (tr : Tracks ts bracket n []) (closes : ClosesAt ts bracket n) :
    IsStray ts bracket n := by
  obtain ⟨indices, _, mem, eq⟩ := tr
  obtain rfl := List.map_eq_nil_iff.mp eq.symm
  refine ⟨closes, ?_⟩
  intro i partners
  exact List.not_mem_nil ((mem i).mpr (partners_iff.mp partners).2.1)

/-- A token that is no bracket of the kind leaves what is tracked. -/
lemma other (tr : Tracks ts bracket n places) (noopen : ¬ OpensAt ts bracket n)
    (noclose : ¬ ClosesAt ts bracket n) : Tracks ts bracket (n + 1) places := by
  obtain ⟨indices, later, mem, eq⟩ := tr
  refine ⟨indices, later, ?_, eq⟩
  intro i
  rw [mem, openBefore_succ_iff]
  constructor
  · intro before
    exact .inl ⟨before, fun partners => noclose (partners_iff.mp partners).1⟩
  · rintro (⟨before, _⟩ | ⟨_, opens⟩)
    · exact before
    · exact absurd opens noopen

/-- The outermost place is that of the first open bracket. -/
lemma exists_isLeast {place : Position} (tr : Tracks ts bracket n places)
    (last : places.getLast? = some place) :
    ∃ i t, IsLeast {i | OpenBefore ts bracket n i} i ∧ ts[i]? = some t ∧ t.position = place := by
  obtain ⟨indices, later, mem, eq⟩ := tr
  have ends : (indices.map fun i => ts[i]?.map Token.position).getLast? = some (some place) := by
    rw [← eq, List.getLast?_map, last]
    rfl
  rw [List.getLast?_map, Option.map_eq_some_iff] at ends
  obtain ⟨i, lasti, placei⟩ := ends
  obtain ⟨t, get, rfl⟩ := Option.map_eq_some_iff.mp placei
  obtain ⟨front, rfl⟩ := List.getLast?_eq_some_iff.mp lasti
  refine ⟨i, t, ⟨(mem i).mp List.mem_concat_self, ?_⟩, get, rfl⟩
  intro k before
  rcases List.mem_append.mp ((mem k).mpr before) with memk | memk
  · exact Nat.le_of_lt ((List.pairwise_append.mp later).2.2 k memk i List.mem_cons_self)
  · rw [List.mem_singleton.mp memk]

/-- Where no places are tracked no bracket is open. -/
lemma not_openBefore (tr : Tracks ts bracket n []) (i : Nat) : ¬ OpenBefore ts bracket n i := by
  obtain ⟨indices, _, mem, eq⟩ := tr
  obtain rfl := List.map_eq_nil_iff.mp eq.symm
  rw [← mem]
  exact List.not_mem_nil

end Tracks

/-- A token that closes a bracket without a partner stops the check; after any other token the stacks hold
what is open behind it. -/
lemma OpenBrackets.tracks_step {brackets : OpenBrackets} {ts : List Token} {n : Nat} {t : Token}
    (tr : ∀ bracket, Tracks ts bracket n (brackets.get bracket)) (get : ts[n]? = some t) :
    (∃ bracket, IsStray ts bracket n) ∨
      ∃ next : OpenBrackets, (∀ bracket, Tracks ts bracket (n + 1) (next.get bracket)) ∧
        ∀ rest, brackets.check (t :: rest) = next.check rest := by
  have kind : (kinds ts)[n]? = some t.kind := by rw [kinds, List.getElem?_map, get]; rfl
  have opens : ∀ other, OpensAt ts other n ↔ t.kind = .opening other := by
    intro other
    rw [OpensAt, kind, Option.some.injEq]
  have closes : ∀ other, ClosesAt ts other n ↔ t.kind = .closing other := by
    intro other
    rw [ClosesAt, kind, Option.some.injEq]
  cases kt : t.kind with
  | opening bracket =>
    refine .inr ⟨brackets.set bracket (t.position :: brackets.get bracket), ?_, ?_⟩
    · intro other
      rw [get_set]
      split
      · rename_i eq
        subst eq
        exact (tr bracket).opening get kt
      · rename_i ne
        apply (tr other).other
        · rw [opens, kt, TokenKind.opening.injEq]
          exact ne
        · rw [closes, kt]
          intro eq
          cases eq
    · intro rest
      rw [check.eq_def]
      simp only [kt]
  | closing bracket =>
    have here : ClosesAt ts bracket n := (closes bracket).mpr kt
    cases eqp : brackets.get bracket with
    | nil =>
      have none := tr bracket
      rw [eqp] at none
      exact .inl ⟨bracket, none.isStray here⟩
    | cons place outer =>
      refine .inr ⟨brackets.set bracket outer, ?_, ?_⟩
      · intro other
        rw [get_set]
        split
        · rename_i eq
          subst eq
          have some := tr bracket
          rw [eqp] at some
          exact some.closing here
        · rename_i ne
          apply (tr other).other
          · rw [opens, kt]
            intro eq
            cases eq
          · rw [closes, kt, TokenKind.closing.injEq]
            exact ne
      · intro rest
        rw [check.eq_def]
        simp only [kt, eqp]
  | _ =>
    refine .inr ⟨brackets, ?_, ?_⟩
    · intro other
      apply (tr other).other
      · rw [opens, kt]
        intro eq
        cases eq
      · rw [closes, kt]
        intro eq
        cases eq
    · intro rest
      rw [check.eq_def]
      simp only [kt]

/-! ## All tokens -/

/-- Where every bracket that closes has a partner, the check reaches the end. -/
lemma OpenBrackets.exists_check_eq_close {brackets : OpenBrackets} {ts front rest : List Token}
    (whole : ts = front ++ rest) (paired : ∀ bracket j, ¬ IsStray ts bracket j)
    (tr : ∀ bracket, Tracks ts bracket front.length (brackets.get bracket)) :
    ∃ last : OpenBrackets, (∀ bracket, Tracks ts bracket ts.length (last.get bracket)) ∧
      brackets.check rest = last.close := by
  induction rest generalizing brackets front with
  | nil =>
    rw [List.append_nil] at whole
    subst whole
    exact ⟨brackets, tr, rfl⟩
  | cons t rest ih =>
    have get : ts[front.length]? = some t := by
      rw [whole, List.getElem?_append_right (Nat.le_refl _), Nat.sub_self]
      rfl
    rcases tracks_step tr get with ⟨bracket, stray⟩ | ⟨next, trn, eq⟩
    · exact absurd stray (paired bracket _)
    · have next : ts = front ++ [t] ++ rest := by
        rw [whole, List.append_assoc]
        rfl
      rw [eq]
      apply ih next
      rw [List.length_append]
      exact trn

/-- At the end the check complains about the first parenthesis without a partner, else about the first such
brace. -/
lemma checkBalance_reports {ts : List Token} (paired : ∀ bracket j, ¬ IsStray ts bracket j) :
    (∃ i t, IsLeast {i | LeftOpen ts .parenthesis i} i ∧ ts[i]? = some t ∧
      checkBalance ts = .error (.unmatchedOpening .parenthesis t.position)) ∨
    (∀ k, ¬ LeftOpen ts .parenthesis k) ∧
      ((∃ i t, IsLeast {i | LeftOpen ts .brace i} i ∧ ts[i]? = some t ∧
        checkBalance ts = .error (.unmatchedOpening .brace t.position)) ∨
      (∀ k, ¬ LeftOpen ts .brace k) ∧ checkBalance ts = .ok ()) := by
  have start : ∀ bracket, Tracks ts bracket 0 (({} : OpenBrackets).get bracket) := by
    rintro (_ | _)
    · exact .start
    · exact .start
  have whole : ts = [] ++ ts := rfl
  obtain ⟨last, tr, eq⟩ := OpenBrackets.exists_check_eq_close whole paired start
  have first : ∀ bracket place, (last.get bracket).getLast? = some place →
      ∃ i t, IsLeast {i | LeftOpen ts bracket i} i ∧ ts[i]? = some t ∧ t.position = place := by
    intro bracket place ends
    obtain ⟨i, t, least, get, eqp⟩ := (tr bracket).exists_isLeast ends
    simp only [openBefore_length_iff] at least
    exact ⟨i, t, least, get, eqp⟩
  have none : ∀ bracket, (last.get bracket).getLast? = none → ∀ k, ¬ LeftOpen ts bracket k := by
    intro bracket ends k
    have empty := tr bracket
    rw [List.getLast?_eq_none_iff.mp ends] at empty
    rw [← openBefore_length_iff]
    exact empty.not_openBefore k
  have closed : checkBalance ts = last.close := eq
  rw [closed, OpenBrackets.close.eq_def]
  split
  · rename_i ends
    obtain ⟨i, t, least, get, rfl⟩ := first .parenthesis _ ends
    exact .inl ⟨i, t, least, get, rfl⟩
  · rename_i noparen ends
    obtain ⟨i, t, least, get, rfl⟩ := first .brace _ ends
    exact .inr ⟨none .parenthesis noparen, .inl ⟨i, t, least, get, rfl⟩⟩
  · rename_i noparen nobrace
    exact .inr ⟨none .parenthesis noparen, .inr ⟨none .brace nobrace, rfl⟩⟩

/-- A token that is left open is of one kind only. -/
lemma LeftOpen.bracket_eq {ts : List Token} {bracket other : Bracket} {i : Nat} {t : Token}
    (left : LeftOpen ts other i) (get : ts[i]? = some t) (kt : t.kind = .opening bracket) :
    other = bracket := by
  have opens := left.1
  rw [OpensAt, kinds, List.getElem?_map, get, Option.map_some, kt] at opens
  cases opens
  rfl

/-- Where every bracket that closes has a partner, the first parenthesis without one is reported, and the
first brace without one only if no parenthesis lacks one. So of all brackets without a partner the first one
is reported exactly when it is a parenthesis or no parenthesis lacks a partner. -/
theorem checkBalance_leftOpen (ts : List Token) (paired : ∀ bracket j, ¬ IsStray ts bracket j) :
    (∀ i t, IsLeast {i | LeftOpen ts .parenthesis i} i → ts[i]? = some t →
      checkBalance ts = .error (.unmatchedOpening .parenthesis t.position)) ∧
    (∀ i t, (∀ k, ¬ LeftOpen ts .parenthesis k) → IsLeast {i | LeftOpen ts .brace i} i →
      ts[i]? = some t → checkBalance ts = .error (.unmatchedOpening .brace t.position)) ∧
    ∀ i t bracket, IsLeast {i | ∃ other, LeftOpen ts other i} i → ts[i]? = some t →
      t.kind = .opening bracket →
      (checkBalance ts = .error (.unmatchedOpening bracket t.position) ↔
        bracket = .parenthesis ∨ ∀ k, ¬ LeftOpen ts .parenthesis k) := by
  have parenthesis : ∀ i t, IsLeast {i | LeftOpen ts .parenthesis i} i → ts[i]? = some t →
      checkBalance ts = .error (.unmatchedOpening .parenthesis t.position) := by
    intro i t least get
    rcases checkBalance_reports paired with ⟨i', t', least', get', eq⟩ | ⟨none, _⟩
    · obtain rfl := least'.unique least
      cases get.symm.trans get'
      exact eq
    · exact absurd least.1 (none i)
  have brace : ∀ i t, (∀ k, ¬ LeftOpen ts .parenthesis k) → IsLeast {i | LeftOpen ts .brace i} i →
      ts[i]? = some t → checkBalance ts = .error (.unmatchedOpening .brace t.position) := by
    intro i t noparen least get
    rcases checkBalance_reports paired with ⟨i', _, least', _⟩ |
      ⟨_, ⟨i', t', least', get', eq⟩ | ⟨nobrace, _⟩⟩
    · exact absurd least'.1 (noparen i')
    · obtain rfl := least'.unique least
      cases get.symm.trans get'
      exact eq
    · exact absurd least.1 (nobrace i)
  refine ⟨parenthesis, brace, ?_⟩
  intro i t bracket least get kt
  obtain ⟨other, left⟩ := least.1
  obtain rfl := left.bracket_eq get kt
  have first : IsLeast {i | LeftOpen ts other i} i := ⟨left, fun k leftk => least.2 ⟨other, leftk⟩⟩
  cases other with
  | parenthesis => exact iff_of_true (parenthesis i t first get) (.inl rfl)
  | brace =>
    rcases checkBalance_reports paired with ⟨i', t', least', _, eq⟩ | ⟨noparen, _⟩
    · refine iff_of_false ?_ ?_
      · intro eqb
        rw [eq] at eqb
        cases eqb
      · rintro (eqb | noparen)
        · cases eqb
        · exact noparen i' least'.1
    · exact iff_of_true (brace i t noparen first get) (.inr noparen)

/-- A parenthesis and a brace without partners, with a pair of parentheses between them. -/
def pairBetween : List Token :=
  [⟨.opening .parenthesis, ⟨0, 1, 1⟩⟩, ⟨.opening .parenthesis, ⟨1, 1, 2⟩⟩,
    ⟨.closing .parenthesis, ⟨2, 1, 3⟩⟩, ⟨.opening .brace, ⟨3, 1, 4⟩⟩]

/-- The parenthesis that closes belongs to the second one that opens, so the first one is reported. -/
theorem checkBalance_leftOpen_pairBetween :
    (∀ bracket j, ¬ IsStray pairBetween bracket j) ∧
      IsLeast {i | ∃ other, LeftOpen pairBetween other i} 0 ∧ LeftOpen pairBetween .brace 3 ∧
      checkBalance pairBetween = .error (.unmatchedOpening .parenthesis ⟨0, 1, 1⟩) := by
  have only : ∀ {bracket j}, ClosesAt pairBetween bracket j → bracket = .parenthesis ∧ j = 2 := by
    rintro bracket (_ | _ | _ | _ | j) closes
    all_goals cases closes
    exact ⟨rfl, rfl⟩
  have none : ∀ {bracket i k}, k < 2 → ¬ Partners pairBetween bracket i k := by
    intro bracket i k lt partners
    have eq := (only (partners_iff.mp partners).1).2
    omega
  have pair : Partners pairBetween .parenthesis 1 2 := by
    rw [Partners]
    exact ⟨rfl, rfl, by omega, fun k lt => none lt, fun between _ _ _ => by omega⟩
  have paired : ∀ bracket j, ¬ IsStray pairBetween bracket j := by
    rintro bracket j ⟨closes, alone⟩
    obtain ⟨rfl, rfl⟩ := only closes
    exact alone 1 pair
  have left : LeftOpen pairBetween .parenthesis 0 := by
    refine ⟨rfl, fun j partners => ?_⟩
    obtain ⟨_, rfl⟩ := only (partners_iff.mp partners).1
    have greatest := (partners_iff.mp partners).2.unique (partners_iff.mp pair).2
    omega
  have brace : LeftOpen pairBetween .brace 3 := by
    refine ⟨rfl, fun j partners => ?_⟩
    have eq := (only (partners_iff.mp partners).1).1
    cases eq
  have least : IsLeast {i | ∃ other, LeftOpen pairBetween other i} 0 :=
    ⟨⟨_, left⟩, fun i _ => Nat.zero_le i⟩
  obtain ⟨_, _, first⟩ := checkBalance_leftOpen pairBetween paired
  exact ⟨paired, least, brace, (first 0 _ .parenthesis least rfl rfl).mpr (.inl rfl)⟩

/-- A brace and a parenthesis that are both open. -/
def braceAndParenthesis : List Token :=
  [⟨.opening .brace, ⟨0, 1, 1⟩⟩, ⟨.opening .parenthesis, ⟨1, 1, 2⟩⟩]

/-- The brace comes first, but the parenthesis is reported. -/
theorem checkBalance_passes_over_brace :
    (∀ bracket j, ¬ IsStray braceAndParenthesis bracket j) ∧
      IsLeast {i | ∃ other, LeftOpen braceAndParenthesis other i} 0 ∧
      LeftOpen braceAndParenthesis .brace 0 ∧
      checkBalance braceAndParenthesis = .error (.unmatchedOpening .parenthesis ⟨1, 1, 2⟩) ∧
      checkBalance braceAndParenthesis ≠ .error (.unmatchedOpening .brace ⟨0, 1, 1⟩) := by
  have none : ∀ {bracket j}, ¬ ClosesAt braceAndParenthesis bracket j := by
    rintro bracket (_ | _ | j) closes
    all_goals cases closes
  have left : LeftOpen braceAndParenthesis .brace 0 :=
    ⟨rfl, fun j partners => none (partners_iff.mp partners).1⟩
  refine ⟨fun bracket j stray => none stray.1, ?_, left, rfl, ?_⟩
  · exact ⟨⟨_, left⟩, fun i _ => Nat.zero_le i⟩
  · intro eq
    cases eq

end LatinToScript
