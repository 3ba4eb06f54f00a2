import LatinToScript.Proofs.Grammar.Derivation
import Mathlib.Tactic.Common

/-!
# Nested brackets

`Nested` says that the brackets of some tokens are properly nested, the two kinds never crossing, and
`NestedWithin` bounds how many brackets are open at any point. Everything that the grammar derives is
`Nested`. The lemmas on `NestedWithin` take a bound on derived tokens apart along the derivation.
-/

namespace LatinToScript

namespace TokenKind

/-- Whether a token opens a pair of brackets. -/
def isOpening : TokenKind → Bool
  | .opening _ => true
  | _ => false

/-- Whether a token closes a pair of brackets. -/
def isClosing : TokenKind → Bool
  | .closing _ => true
  | _ => false

end TokenKind

/-- The number of brackets that some tokens open. -/
def openings (ks : List TokenKind) : Nat :=
  ks.countP TokenKind.isOpening

/-- The number of brackets that some tokens close. -/
def closings (ks : List TokenKind) : Nat :=
  ks.countP TokenKind.isClosing

/-- Tokens whose brackets are properly nested. -/
inductive Nested : List TokenKind → Prop where
  | nil :
    Nested []
  | plain {k ks} :
    k.isOpening = false →
    k.isClosing = false →
    Nested ks →
    Nested (k :: ks)
  | enclosed {bracket ks ls} :
    Nested ks →
    Nested ls →
    Nested (.opening bracket :: (ks ++ .closing bracket :: ls))

/-- At no point of the tokens are more than `limit` brackets open. -/
def NestedWithin (limit : Nat) (ks : List TokenKind) : Prop :=
  ∀ front, front <+: ks → openings front ≤ closings front + limit

/-! ## Counting brackets -/

section Counting
variable {bracket : Bracket} {ks ls : List TokenKind}

/-- Opened brackets of tokens one after the other add up. -/
@[simp] lemma openings_append : openings (ks ++ ls) = openings ks + openings ls :=
  List.countP_append

/-- Closed brackets of tokens one after the other add up. -/
@[simp] lemma closings_append : closings (ks ++ ls) = closings ks + closings ls :=
  List.countP_append

/-- Without tokens no bracket is opened. -/
@[simp] lemma openings_nil : openings [] = 0 := rfl

/-- Without tokens no bracket is closed. -/
@[simp] lemma closings_nil : closings [] = 0 := rfl

/-- An opening bracket opens one. -/
@[simp] lemma openings_opening_cons : openings (.opening bracket :: ks) = openings ks + 1 :=
  List.countP_cons_of_pos rfl

/-- An opening bracket closes none. -/
@[simp] lemma closings_opening_cons : closings (.opening bracket :: ks) = closings ks :=
  List.countP_cons_of_neg (by simp [TokenKind.isClosing])

/-- A closing bracket opens none. -/
@[simp] lemma openings_closing_cons : openings (.closing bracket :: ks) = openings ks :=
  List.countP_cons_of_neg (by simp [TokenKind.isOpening])

/-- A closing bracket closes one. -/
@[simp] lemma closings_closing_cons : closings (.closing bracket :: ks) = closings ks + 1 :=
  List.countP_cons_of_pos rfl

end Counting

/-! ## Properly nested tokens -/

/-- Properly nested tokens may stand one after the other. -/
lemma Nested.append {ks ls} (nk : Nested ks) (nl : Nested ls) : Nested (ks ++ ls) := by
  induction nk with
  | nil => exact nl
  | plain op cl _ ih => exact .plain op cl ih
  | enclosed nk _ _ ih =>
    rw [List.cons_append, List.append_assoc, List.cons_append]
    exact .enclosed nk ih

/-- A token that is no bracket is properly nested. -/
lemma Nested.single {k : TokenKind} (op : k.isOpening = false) (cl : k.isClosing = false) :
    Nested [k] :=
  .plain op cl .nil

/-- Each kind of bracket is opened as often as it is closed. -/
lemma Nested.count_eq {ks} (nk : Nested ks) (bracket : Bracket) :
    ks.count (.opening bracket) = ks.count (.closing bracket) := by
  induction nk with
  | nil => rfl
  | @plain k ks op cl _ ih =>
    have no : k ≠ .opening bracket := by rintro rfl; cases op
    have nc : k ≠ .closing bracket := by rintro rfl; cases cl
    rw [List.count_cons_of_ne no, List.count_cons_of_ne nc, ih]
  | @enclosed b ks ls _ _ ihk ihl =>
    simp only [List.count_cons, List.count_append, ihk, ihl, beq_iff_eq, reduceCtorEq,
      TokenKind.opening.injEq, TokenKind.closing.injEq]
    omega

/-- As many brackets are opened as are closed. -/
lemma Nested.openings_eq {ks} (nk : Nested ks) : openings ks = closings ks := by
  induction nk with
  | nil => rfl
  | plain op cl _ ih =>
    rw [openings, List.countP_cons_of_neg (by simp [op]), closings,
      List.countP_cons_of_neg (by simp [cl])]
    exact ih
  | enclosed _ _ ihk ihl =>
    rw [openings_opening_cons, closings_opening_cons, openings_append, closings_append,
      openings_closing_cons, closings_closing_cons]
    omega

/-! ## Bounds on the nesting -/

/-- Tokens nest at most as deep as there are tokens. -/
lemma nestedWithin_length (ks : List TokenKind) : NestedWithin ks.length ks := by
  intro front pre
  have short : openings front ≤ front.length := List.countP_le_length
  have := pre.length_le
  omega

/-- A bound holds of fewer tokens, too. -/
lemma NestedWithin.of_prefix {limit ks ls} (nw : NestedWithin limit ls) (pre : ks <+: ls) :
    NestedWithin limit ks := by
  intro front pre'
  exact nw front (pre'.trans pre)

/-- No bracket can be opened when none may be open. -/
lemma not_nestedWithin_zero {bracket ks} : ¬ NestedWithin 0 (.opening bracket :: ks) := by
  intro nw
  have one := nw [.opening bracket] (by simp)
  simp at one

/-- A bound on tokens after properly nested ones is a bound on both. -/
lemma Nested.within_append_iff {limit ks ls} (nk : Nested ks) :
    NestedWithin limit (ks ++ ls) ↔ NestedWithin limit ks ∧ NestedWithin limit ls := by
  have eq := nk.openings_eq
  constructor
  · intro nw
    refine ⟨nw.of_prefix (List.prefix_append ks ls), ?_⟩
    intro front pre
    have := nw (ks ++ front) ((List.prefix_append_right_inj ks).mpr pre)
    rw [openings_append, closings_append] at this
    omega
  · rintro ⟨wk, wl⟩ front pre
    -- A prefix of both ends inside the first tokens, or it reaches into the second ones.
    rcases List.prefix_or_prefix_of_prefix pre (List.prefix_append ks ls) with short | ⟨more, rfl⟩
    · exact wk front short
    · have := wl more ((List.prefix_append_right_inj ks).mp pre)
      rw [openings_append, closings_append]
      omega

/-- No tokens nest within every bound. -/
lemma nestedWithin_nil {limit} : NestedWithin limit [] := by
  intro front pre
  rw [List.prefix_nil.mp pre]
  exact Nat.zero_le _

/-- A token that is no bracket nests within every bound. -/
lemma nestedWithin_single {limit k} (op : TokenKind.isOpening k = false) :
    NestedWithin limit [k] := by
  intro front pre
  have le : openings front ≤ openings [k] := pre.countP_le
  have zero : openings [k] = 0 := by simp [openings, op]
  omega

/-- A token that is no bracket does not count for a bound. -/
lemma nestedWithin_cons_iff {limit k ks} (op : TokenKind.isOpening k = false)
    (cl : TokenKind.isClosing k = false) : NestedWithin limit (k :: ks) ↔ NestedWithin limit ks := by
  rw [← List.singleton_append, (Nested.single op cl).within_append_iff,
    and_iff_right (nestedWithin_single op)]

/-- Nor does it between any other tokens. -/
lemma nestedWithin_insert_iff {limit k ks ls} (op : TokenKind.isOpening k = false)
    (cl : TokenKind.isClosing k = false) :
    NestedWithin limit (ks ++ k :: ls) ↔ NestedWithin limit (ks ++ ls) := by
  have same : ∀ more, openings (ks ++ k :: more) = openings (ks ++ more) ∧
      closings (ks ++ k :: more) = closings (ks ++ more) := by
    intro more
    simp [openings, closings, op, cl]
  constructor
  · intro nw front pre
    rcases List.prefix_or_prefix_of_prefix pre (List.prefix_append ks ls) with short | ⟨more, rfl⟩
    · exact nw front (short.trans (List.prefix_append ks _))
    · have inner := (List.prefix_append_right_inj ks).mp pre
      have le := nw (ks ++ k :: more)
        ((List.prefix_append_right_inj ks).mpr ((List.prefix_cons_inj k).mpr inner))
      rwa [(same more).1, (same more).2] at le
  · intro nw front pre
    rcases List.prefix_or_prefix_of_prefix pre (List.prefix_append ks (k :: ls)) with short | ⟨more, rfl⟩
    · exact nw front (short.trans (List.prefix_append ks ls))
    · rcases List.prefix_cons_iff.mp ((List.prefix_append_right_inj ks).mp pre) with rfl | ⟨inner, rfl, pre'⟩
      · rw [List.append_nil]
        exact nw ks (List.prefix_append ks ls)
      · rw [(same inner).1, (same inner).2]
        exact nw (ks ++ inner) ((List.prefix_append_right_inj ks).mpr pre')

/-- A pair of brackets around properly nested tokens needs one level more than these. -/
lemma Nested.within_enclosed_iff {limit bracket ks} (nk : Nested ks) :
    NestedWithin (limit + 1) (.opening bracket :: (ks ++ [.closing bracket])) ↔
      NestedWithin limit ks := by
  have eq := nk.openings_eq
  constructor
  · intro nw front pre
    have := nw (.opening bracket :: front)
      ((List.prefix_cons_inj _).mpr (List.prefix_append_of_prefix pre))
    rw [openings_opening_cons, closings_opening_cons] at this
    omega
  · intro nw front pre
    -- A prefix is empty, ends inside the brackets, or is the whole with as many closed as opened.
    rcases List.prefix_cons_iff.mp pre with rfl | ⟨inner, rfl, pre'⟩
    · simp
    · rcases List.prefix_concat_iff.mp pre' with rfl | pre'
      · simp only [openings_opening_cons, openings_append, openings_closing_cons, openings_nil,
          closings_opening_cons, closings_append, closings_closing_cons, closings_nil]
        omega
      · have := nw inner pre'
        rw [openings_opening_cons, closings_opening_cons]
        omega

/-- A higher bound holds, too. -/
lemma NestedWithin.mono {limit limit' ks} (nw : NestedWithin limit ks) (le : limit ≤ limit') :
    NestedWithin limit' ks := by
  intro front pre
  exact Nat.le_trans (nw front pre) (Nat.add_le_add_left le _)

/-- A token that opens no bracket may be put behind. -/
lemma NestedWithin.concat {limit ks k} (nw : NestedWithin limit ks)
    (op : TokenKind.isOpening k = false) : NestedWithin limit (ks ++ [k]) := by
  intro front pre
  rcases List.prefix_concat_iff.mp pre with rfl | pre
  · have le := nw ks (List.prefix_refl ks)
    have none : openings [k] = 0 := by simp [openings, op]
    rw [openings_append, closings_append, none]
    omega
  · exact nw front pre

/-- Behind an opening bracket there is one level less. -/
lemma NestedWithin.of_opening {limit bracket ks} (nw : NestedWithin limit (.opening bracket :: ks)) :
    ∃ inner, limit = inner + 1 ∧ NestedWithin inner ks := by
  cases limit with
  | zero => exact absurd nw not_nestedWithin_zero
  | succ inner =>
    refine ⟨inner, rfl, ?_⟩
    intro front pre
    have := nw (.opening bracket :: front) ((List.prefix_cons_inj _).mpr pre)
    rw [openings_opening_cons, closings_opening_cons] at this
    omega

/-! ## Derived tokens are properly nested -/

/-- A literal has no brackets. -/
lemma DerivesLiteral.nested {ks e} (dv : DerivesLiteral ks e) : Nested ks := by
  cases dv <;> exact .single rfl rfl

mutual

/-- The brackets of an operand are nested. -/
lemma DerivesOperand.nested {ks e} : DerivesOperand ks e → Nested ks
  | .literal dv => dv.nested
  | .name => .single rfl rfl
  | .paren dv => dv.nested

/-- The brackets of a relation in parentheses are nested, its own pair included. -/
lemma DerivesParen.nested {ks e} : DerivesParen ks e → Nested ks
  | @DerivesParen.relation ks ls left word right dl dr => by
    have inner : Nested (ks ++ .operator word :: ls) := dl.nested.append (.plain rfl rfl dr.nested)
    have outer : Nested (.opening .parenthesis :: (_ ++ [.closing .parenthesis])) := .enclosed inner .nil
    rw [List.append_assoc, List.cons_append] at outer
    exact outer

end

/-- The brackets of an expression are nested. -/
lemma DerivesExpression.nested {ks e} (dv : DerivesExpression ks e) : Nested ks := by
  cases dv with
  | operand dv => exact dv.nested
  | relation dl dr => exact dl.nested.append (.plain rfl rfl dr.nested)

/-- The brackets of a declarator are nested. -/
lemma DerivesDeclarator.nested {ks d} (dv : DerivesDeclarator ks d) : Nested ks := by
  cases dv with
  | bind dv => exact .plain rfl rfl (.plain rfl rfl dv.nested)

/-- The brackets of declarators are nested. -/
lemma DerivesDeclarators.nested {ks ds} (dv : DerivesDeclarators ks ds) : Nested ks := by
  induction dv with
  | one dv => exact dv.nested
  | cons dv _ ih => exact dv.nested.append ih

/-- What ends a declaration holds no bracket. -/
lemma EndsDeclaration.nested {ending rest} (ed : EndsDeclaration ending rest) : Nested ending := by
  cases ed with
  | semicolon => exact .single rfl rfl
  | brace => exact .nil
  | finish => exact .nil

/-- The brackets of a declaration are nested, and the brace behind it is not one of them. -/
lemma DerivesDeclaration.nested {ks rest d} (dv : DerivesDeclaration ks rest d) : Nested ks := by
  cases dv with
  | declare dv ed => exact .plain rfl rfl (dv.nested.append ed.nested)

mutual

/-- The brackets of a statement are nested. -/
lemma DerivesStatement.nested {ks rest s} : DerivesStatement ks rest s → Nested ks
  | .control dt db => .plain rfl rfl (dt.nested.append db.nested)
  | .declaration dv => dv.nested
  | .binding dv => dv.nested
  | .block dv => dv.nested
  | .literal dv => dv.nested
  | .paren dv => dv.nested

/-- The brackets of a block are nested, its own pair included. -/
lemma DerivesBlock.nested {ks rest body} : DerivesBlock ks rest body → Nested ks
  | .braces dv => .enclosed dv.nested .nil

/-- The brackets of statements are nested. -/
lemma DerivesStatements.nested {ks rest ss} : DerivesStatements ks rest ss → Nested ks
  | .nil => .nil
  | .semicolon dv => .plain rfl rfl dv.nested
  | .cons dv dvs => dv.nested.append dvs.nested

end

end LatinToScript
