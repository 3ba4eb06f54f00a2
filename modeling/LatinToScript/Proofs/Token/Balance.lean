import LatinToScript.Token.Balance
import Mathlib.Tactic.Common

/-!
# The check of brackets, by counting

`checkBalance` keeps a stack for each kind of bracket. Its answer can be told from numbers alone: a bracket
that closes is stray when, up to there, more brackets of its kind close than open (`Stray`). One token
changes the number of open brackets by what it opens and closes (`OpenBrackets.check_cons`), so the check
stops at the first stray bracket, and without one it compares the totals (`OpenBrackets.check_verdict`).
-/

namespace LatinToScript

/-! ## Kinds -/

/-- The kinds of some tokens. -/
def kinds (ts : List Token) : List TokenKind :=
  ts.map Token.kind

/-- Without tokens there are no kinds. -/
@[simp] lemma kinds_nil : kinds [] = [] := rfl

/-- The kind of the first token comes first. -/
@[simp] lemma kinds_cons (t : Token) (ts : List Token) : kinds (t :: ts) = t.kind :: kinds ts := rfl

/-- The kinds of tokens do not depend on where they are cut. -/
@[simp] lemma kinds_append (ts us : List Token) : kinds (ts ++ us) = kinds ts ++ kinds us :=
  List.map_append

/-- Tokens whose first kind is known start with a token of this kind. -/
lemma kinds_eq_cons_iff {ts k ks} :
    kinds ts = k :: ks ↔ ∃ t us, ts = t :: us ∧ t.kind = k ∧ kinds us = ks :=
  List.map_eq_cons_iff

/-- Tokens can be cut where their kinds can. -/
lemma kinds_eq_append_iff {ts ks ls} :
    kinds ts = ks ++ ls ↔ ∃ us vs, ts = us ++ vs ∧ kinds us = ks ∧ kinds vs = ls :=
  List.map_eq_append_iff

/-- Only without tokens there are no kinds. -/
lemma kinds_eq_nil_iff {ts} : kinds ts = [] ↔ ts = [] :=
  List.map_eq_nil_iff

/-- A single kind is that of a single token. -/
lemma kinds_eq_singleton_iff {ts k} : kinds ts = [k] ↔ ∃ t, ts = [t] ∧ t.kind = k :=
  List.map_eq_singleton_iff

/-! ## Counts -/

/-- How often some tokens open a bracket of a kind. -/
def opened (bracket : Bracket) (ts : List Token) : Nat :=
  (kinds ts).count (.opening bracket)

/-- How often some tokens close a bracket of a kind. -/
def closed (bracket : Bracket) (ts : List Token) : Nat :=
  (kinds ts).count (.closing bracket)

section Counting
variable {bracket : Bracket} {t : Token} {ts : List Token}

/-- Brackets that open are counted token by token. -/
lemma opened_cons : opened bracket (t :: ts) = opened bracket [t] + opened bracket ts := by
  rw [← List.singleton_append, opened, kinds_append, List.count_append]
  rfl

/-- Brackets that close are counted token by token. -/
lemma closed_cons : closed bracket (t :: ts) = closed bracket [t] + closed bracket ts := by
  rw [← List.singleton_append, closed, kinds_append, List.count_append]
  rfl

/-- One token opens a bracket of a kind if it is this bracket. -/
lemma opened_single : opened bracket [t] = if t.kind = .opening bracket then 1 else 0 := by
  rw [opened, kinds_cons, kinds_nil, List.count_singleton]
  simp only [beq_iff_eq]

/-- One token closes a bracket of a kind if it is this bracket. -/
lemma closed_single : closed bracket [t] = if t.kind = .closing bracket then 1 else 0 := by
  rw [closed, kinds_cons, kinds_nil, List.count_singleton]
  simp only [beq_iff_eq]

end Counting

namespace OpenBrackets

/-- Some tokens close more brackets of a kind than are open and than they open themselves. -/
def Stray (brackets : OpenBrackets) (bracket : Bracket) (ts : List Token) : Prop :=
  (brackets.get bracket).length + opened bracket ts < closed bracket ts

/-- What the check says of tokens with some brackets open. -/
inductive Verdict (brackets : OpenBrackets) (ts : List Token) : Except TokenError Unit → Prop where
  | stray {front t bracket} :
    front ++ [t] <+: ts →
    t.kind = .closing bracket →
    brackets.Stray bracket (front ++ [t]) →
    (∀ other before, before <+: front → ¬ brackets.Stray other before) →
    Verdict brackets ts (.error (.unmatchedClosing bracket t.position))
  | left {bracket position} :
    closed bracket ts < (brackets.get bracket).length + opened bracket ts →
    (∀ other before, before <+: ts → ¬ brackets.Stray other before) →
    Verdict brackets ts (.error (.unmatchedOpening bracket position))
  | balanced :
    (∀ bracket, (brackets.get bracket).length + opened bracket ts = closed bracket ts) →
    (∀ other before, before <+: ts → ¬ brackets.Stray other before) →
    Verdict brackets ts (.ok ())

variable {brackets next : OpenBrackets} {bracket : Bracket} {t : Token} {ts : List Token}

/-- Setting the open brackets of one kind leaves those of the other. -/
lemma get_set (brackets : OpenBrackets) (bracket other : Bracket) (positions : List Position) :
    (brackets.set bracket positions).get other =
      if bracket = other then positions else brackets.get other := by
  cases bracket <;> cases other <;> rfl

/-! ## One token -/

/-- The open brackets after a token, counted: it has been added to them, or taken from them. -/
def Follows (brackets : OpenBrackets) (t : Token) (next : OpenBrackets) : Prop :=
  ∀ bracket, (next.get bracket).length + closed bracket [t] =
    (brackets.get bracket).length + opened bracket [t]

/-- An opening bracket is added to the open ones of its kind. -/
lemma follows_opening (kt : t.kind = .opening bracket) :
    brackets.Follows t (brackets.set bracket (t.position :: brackets.get bracket)) := by
  intro other
  rw [get_set, opened_single, closed_single, kt]
  by_cases eq : bracket = other
  · subst eq
    simp
  · simp [eq]

/-- A closing bracket takes away the last one that is open of its kind. -/
lemma follows_closing {position : Position} {outer : List Position} (kt : t.kind = .closing bracket)
    (eqo : brackets.get bracket = position :: outer) :
    brackets.Follows t (brackets.set bracket outer) := by
  intro other
  rw [get_set, opened_single, closed_single, kt]
  by_cases eq : bracket = other
  · subst eq
    simp [eqo]
  · simp [eq]

/-- A token that closes a bracket without an open one is reported; after any other token the check goes
on. -/
lemma check_cons (brackets : OpenBrackets) (t : Token) (ts : List Token) :
    (∃ bracket, t.kind = .closing bracket ∧ brackets.get bracket = [] ∧
      brackets.check (t :: ts) = .error (.unmatchedClosing bracket t.position)) ∨
    ∃ next, brackets.Follows t next ∧ brackets.check (t :: ts) = next.check ts := by
  rw [check.eq_def]
  dsimp only
  split
  · rename_i kt
    exact .inr ⟨_, follows_opening kt, rfl⟩
  · rename_i bracket kt
    split
    · rename_i none
      exact .inl ⟨bracket, kt, none, rfl⟩
    · rename_i eqo
      exact .inr ⟨_, follows_closing kt eqo, rfl⟩
  · rename_i noopen noclose
    refine .inr ⟨brackets, ?_, rfl⟩
    intro bracket
    rw [opened_single, closed_single, if_neg (noopen bracket), if_neg (noclose bracket)]

/-- A token that has been counted does not matter to whether a bracket is stray. -/
lemma Follows.stray_cons_iff (fl : brackets.Follows t next) :
    brackets.Stray bracket (t :: ts) ↔ next.Stray bracket ts := by
  have eq := fl bracket
  rw [Stray, Stray, opened_cons, closed_cons]
  omega

/-- Without tokens no bracket is stray. -/
lemma not_stray_nil : ¬ brackets.Stray bracket [] :=
  Nat.not_lt_zero _

/-- No stray bracket behind a token means none from the token on. -/
lemma Follows.not_stray (fl : brackets.Follows t next)
    (none : ∀ other before, before <+: ts → ¬ next.Stray other before) :
    ∀ other before, before <+: t :: ts → ¬ brackets.Stray other before := by
  intro other before sub
  rcases List.prefix_cons_iff.mp sub with rfl | ⟨rest, rfl, inner⟩
  · exact not_stray_nil
  · rw [fl.stray_cons_iff]
    exact none other rest inner

/-- What is said of the other tokens holds with a token in front that has been counted. -/
lemma Verdict.cons {result : Except TokenError Unit} (fl : brackets.Follows t next)
    (vd : next.Verdict ts result) : brackets.Verdict (t :: ts) result := by
  cases vd with
  | stray sub kt stray none =>
    have sub' := (List.prefix_cons_inj t).mpr sub
    rw [← List.cons_append] at sub'
    exact .stray sub' kt (fl.stray_cons_iff.mpr stray) (fl.not_stray none)
  | @left bracket _ lt none =>
    refine .left ?_ (fl.not_stray none)
    have eq := fl bracket
    rw [opened_cons, closed_cons]
    omega
  | balanced same none =>
    refine .balanced ?_ (fl.not_stray none)
    intro bracket
    have eq := fl bracket
    have eqs := same bracket
    rw [opened_cons, closed_cons]
    omega

/-! ## All tokens -/

/-- At the end the open brackets are complained about, if there are any. -/
lemma close_verdict (brackets : OpenBrackets) : brackets.Verdict [] brackets.close := by
  have none : ∀ other before, before <+: [] → ¬ brackets.Stray other before := by
    intro other before sub
    rw [List.prefix_nil.mp sub]
    exact not_stray_nil
  have left : ∀ bracket position, position ∈ (brackets.get bracket).getLast? →
      brackets.Verdict [] (.error (.unmatchedOpening bracket position)) := by
    intro bracket position last
    exact .left (List.length_pos_of_mem (List.mem_of_getLast? last)) none
  unfold close
  split
  · rename_i last
    exact left .parenthesis _ last
  · rename_i last
    exact left .brace _ last
  · rename_i noparen nobrace
    refine .balanced ?_ none
    intro bracket
    have empty : brackets.get bracket = [] := by
      cases bracket
      · exact List.getLast?_eq_none_iff.mp noparen
      · exact List.getLast?_eq_none_iff.mp nobrace
    rw [empty]
    rfl

/-- The check says what the numbers of brackets say. -/
lemma check_verdict (brackets : OpenBrackets) (ts : List Token) :
    brackets.Verdict ts (brackets.check ts) := by
  induction ts generalizing brackets with
  | nil => exact brackets.close_verdict
  | cons t ts ih =>
    rcases check_cons brackets t ts with ⟨bracket, kt, empty, eq⟩ | ⟨next, fl, eq⟩
    · rw [eq]
      have sub : [] ++ [t] <+: t :: ts := List.prefix_append [t] ts
      refine .stray sub kt ?_ ?_
      · rw [List.nil_append, Stray, empty, opened_single, closed_single, kt]
        simp
      · intro other before sub
        rw [List.prefix_nil.mp sub]
        exact not_stray_nil
    · rw [eq]
      exact .cons fl (ih next)

end OpenBrackets

/-! ## No bracket open at the start -/

variable {bracket : Bracket} {ts : List Token}

/-- At first no bracket is open. -/
lemma length_get_empty (bracket : Bracket) : (({} : OpenBrackets).get bracket).length = 0 := by
  cases bracket <;> rfl

/-- With none open at first a bracket is stray if more of its kind close than open. -/
lemma stray_empty_iff :
    ({} : OpenBrackets).Stray bracket ts ↔ opened bracket ts < closed bracket ts := by
  rw [OpenBrackets.Stray, length_get_empty, Nat.zero_add]

/-- The check of all tokens starts with no bracket open. -/
lemma checkBalance_verdict (ts : List Token) : ({} : OpenBrackets).Verdict ts (checkBalance ts) :=
  OpenBrackets.check_verdict {} ts

/-- Tokens pass the check exactly when no front part of them closes a kind of bracket more often than it
opens it, and the totals agree. -/
lemma checkBalance_eq_ok_iff :
    checkBalance ts = .ok () ↔
      ∀ bracket, (∀ front, front <+: ts → closed bracket front ≤ opened bracket front) ∧
        opened bracket ts = closed bracket ts := by
  have vd := checkBalance_verdict ts
  generalize checkBalance ts = result at vd
  cases vd with
  | @stray front t bracket sub _ stray _ =>
    refine iff_of_false (fun eq => by cases eq) ?_
    intro all
    have le := (all bracket).1 _ sub
    rw [stray_empty_iff] at stray
    omega
  | @left bracket _ lt _ =>
    refine iff_of_false (fun eq => by cases eq) ?_
    intro all
    have eq := (all bracket).2
    rw [length_get_empty] at lt
    omega
  | balanced same none =>
    refine iff_of_true rfl ?_
    intro bracket
    have eq := same bracket
    rw [length_get_empty] at eq
    refine ⟨?_, by omega⟩
    intro front sub
    exact Nat.not_lt.mp (mt stray_empty_iff.mpr (none bracket front sub))

/-- A stray bracket is reported exactly when there is one. -/
lemma exists_unmatchedClosing_iff :
    (∃ bracket position, checkBalance ts = .error (.unmatchedClosing bracket position)) ↔
      ∃ bracket front, front <+: ts ∧ opened bracket front < closed bracket front := by
  have vd := checkBalance_verdict ts
  generalize checkBalance ts = result at vd
  have absent : (∀ other before, before <+: ts → ¬ ({} : OpenBrackets).Stray other before) →
      ¬ ∃ bracket front, front <+: ts ∧ opened bracket front < closed bracket front := by
    rintro none ⟨bracket, front, sub, lt⟩
    exact none bracket front sub (stray_empty_iff.mpr lt)
  cases vd with
  | @stray front t bracket sub _ stray _ =>
    exact iff_of_true ⟨bracket, t.position, rfl⟩ ⟨bracket, _, sub, stray_empty_iff.mp stray⟩
  | left _ none =>
    refine iff_of_false ?_ (absent none)
    rintro ⟨_, _, eq⟩
    cases eq
  | balanced _ none =>
    refine iff_of_false ?_ (absent none)
    rintro ⟨_, _, eq⟩
    cases eq

/-- The stray bracket that is reported ends the shortest front part with one. -/
lemma unmatchedClosing_first {position : Position}
    (eq : checkBalance ts = .error (.unmatchedClosing bracket position)) :
    ∃ front t, front ++ [t] <+: ts ∧ opened bracket (front ++ [t]) < closed bracket (front ++ [t]) ∧
      (∀ other shorter, shorter <+: ts → opened other shorter < closed other shorter →
        (front ++ [t]).length ≤ shorter.length) ∧
      t.kind = .closing bracket ∧ t.position = position := by
  have vd := checkBalance_verdict ts
  rw [eq] at vd
  cases vd with
  | @stray front t _ sub kt stray none =>
    refine ⟨front, t, sub, stray_empty_iff.mp stray, ?_, kt, rfl⟩
    intro other shorter sub' lt
    by_contra short
    rw [List.length_append, List.length_singleton, Nat.not_le] at short
    -- A shorter part with a stray bracket would end in front of the reported one.
    have whole : front <+: ts := (List.prefix_append front [t]).trans sub
    have inside : shorter <+: front :=
      List.prefix_of_prefix_length_le sub' whole (Nat.le_of_lt_succ short)
    exact none other shorter inside (stray_empty_iff.mpr lt)

/-- The check passes exactly when, for each kind of bracket, no front part of the tokens closes more than
it opens and the totals agree. It reports a bracket that closes exactly when a front part closes more of
one kind than it opens, and then it reports the last token of the shortest such part. -/
theorem checkBalance_counts (ts : List Token) :
    (checkBalance ts = .ok () ↔
      ∀ bracket, (∀ front, front <+: ts → closed bracket front ≤ opened bracket front) ∧
        opened bracket ts = closed bracket ts) ∧
    ((∃ bracket position, checkBalance ts = .error (.unmatchedClosing bracket position)) ↔
      ∃ bracket front, front <+: ts ∧ opened bracket front < closed bracket front) ∧
    ∀ bracket position, checkBalance ts = .error (.unmatchedClosing bracket position) →
      ∃ front t, front ++ [t] <+: ts ∧ opened bracket (front ++ [t]) < closed bracket (front ++ [t]) ∧
        (∀ other shorter, shorter <+: ts → opened other shorter < closed other shorter →
          (front ++ [t]).length ≤ shorter.length) ∧
        t.kind = .closing bracket ∧ t.position = position :=
  ⟨checkBalance_eq_ok_iff, exists_unmatchedClosing_iff, fun _ _ eq => unmatchedClosing_first eq⟩

/-- A stray brace between parentheses, and a stray parenthesis behind it. -/
def strayBrackets : List Token :=
  [⟨.opening .parenthesis, ⟨0, 1, 1⟩⟩, ⟨.closing .brace, ⟨1, 1, 2⟩⟩, ⟨.closing .parenthesis, ⟨2, 1, 3⟩⟩,
    ⟨.closing .parenthesis, ⟨3, 1, 4⟩⟩]

/-- The stray brace comes first. -/
theorem checkBalance_counts_strayBrackets :
    checkBalance strayBrackets = .error (.unmatchedClosing .brace ⟨1, 1, 2⟩) ∧
      ∃ front t, front ++ [t] <+: strayBrackets ∧ opened .brace (front ++ [t]) < closed .brace (front ++ [t]) ∧
        (∀ other shorter, shorter <+: strayBrackets → opened other shorter < closed other shorter →
          (front ++ [t]).length ≤ shorter.length) ∧
        t.kind = .closing .brace ∧ t.position = ⟨1, 1, 2⟩ := by
  obtain ⟨_, _, first⟩ := checkBalance_counts strayBrackets
  exact ⟨rfl, first .brace ⟨1, 1, 2⟩ rfl⟩

end LatinToScript
