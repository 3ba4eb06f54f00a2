import LatinToScript.Proofs.Script.Legible
import LatinToScript.Proofs.Script.Translation

/-!
# Expressions are known from their script

If the scripts of two legible expressions with texts after them are equal, then so are the
expressions and the texts after them (`Expression.Legible.cancel`). The texts must not go on with
what could belong to an expression. The first character of an operand tells what it is
(`OperandShape.ofChar`), so only operands of the same shape have to be compared.
-/

namespace LatinToScript

/-! ## Runs of characters -/

/-- A character of a word or of a number. -/
def isAtomChar (c : Char) : Bool :=
  isWordChar c || (c.isDigit || c == '-')

/-- A character with which the script of a value can go on. -/
def isValueChar (c : Char) : Bool :=
  isAtomChar c || c == ' '

/-- A blank ends a word or a number. -/
lemma stops_blank (text : List Char) : Stops isAtomChar (' ' :: text) := by
  rintro c ⟨⟩
  decide

/-- What ends a word or a number ends a word. -/
lemma stops_word {more : List Char} (stops : Stops isAtomChar more) : Stops isWordChar more := by
  intro c mem
  exact (Bool.or_eq_false_iff.mp (stops c mem)).1

/-- What ends a value ends its last operand. -/
lemma stops_atom {more : List Char} (stops : Stops isValueChar more) : Stops isAtomChar more := by
  intro c mem
  exact (Bool.or_eq_false_iff.mp (stops c mem)).1

/-! ## Operands -/

/-- How an operand can start. -/
inductive OperandShape where
  | word
  | number
  | quote
  | parenthesis

/-- What an operand with this first character is. -/
def OperandShape.ofChar (c : Char) : OperandShape :=
  if isWordChar c then .word
  else if c = '"' then .quote
  else if c = '(' then .parenthesis
  else .number

/-- A character with which an operand can start. -/
def isOperandStart (c : Char) : Bool :=
  isAtomChar c || (c == '"' || c == '(')

namespace Expression

/-- How an operand starts. -/
def shape : Expression → OperandShape
  | .name _ => .word
  | .number _ => .number
  | .text _ => .quote
  | .boolean _ => .word
  | .null _ => .word
  | .relation _ _ _ => .parenthesis

/-- The characters of an operand, with the parentheses around it if it is a relation. -/
def operandChars (e : Expression) : List Char :=
  (e.parenthesize e.script).toList

/-- A text is written between quotes. -/
lemma operandChars_text (t : String) : (text t).operandChars = '"' :: (t.toList ++ ['"']) := by
  simp [operandChars, parenthesize, script]

/-- A relation is written with blanks around its operator. -/
lemma script_relation (left right : Expression) (operator : String) :
    (relation left operator right).script.toList =
      left.operandChars ++ ' ' :: (operator.toList ++ ' ' :: right.operandChars) := by
  simp [script, operandChars]

/-- A relation that is an operand is written in parentheses. -/
lemma operandChars_relation (left right : Expression) (operator : String) :
    (relation left operator right).operandChars =
      '(' :: (left.operandChars ++
        ' ' :: (operator.toList ++ ' ' :: (right.operandChars ++ [')']))) := by
  have parenthesized : (relation left operator right).operandChars =
      '(' :: ((relation left operator right).script.toList ++ [')']) := by
    simp [operandChars, parenthesize]
  rw [parenthesized, script_relation]
  simp

/-- The expression that a word of the script is. -/
def ofWord (word : List Char) : Expression :=
  if word = "true".toList then .boolean (.native true)
  else if word = "false".toList then .boolean (.native false)
  else if word = "null".toList then .null .native
  else .name (String.ofList word)

/-- The characters of a word are known to be one, and the word tells which expression it is. -/
lemma Legible.ofWord_operandChars {e : Expression} (le : e.Legible) (word : e.shape = .word) :
    (∀ c ∈ e.operandChars, isWordChar c = true) ∧ ofWord e.operandChars = e := by
  have literal : ∀ (w : String) (x : Expression), w.toList.all isWordChar = true →
      ofWord w.toList = x → (∀ c ∈ w.toList, isWordChar c = true) ∧ ofWord w.toList = x :=
    fun w x all eq => ⟨List.all_eq_true.mp all, eq⟩
  cases e with
  | name n =>
    obtain ⟨isWord, off⟩ := le
    refine ⟨isWord.chars, ?_⟩
    have ne : ∀ w ∈ scriptLiterals, n.toList ≠ w.toList := by
      intro w mem eq
      rw [String.toList_inj] at eq
      exact off (eq ▸ mem)
    change ofWord n.toList = _
    rw [ofWord, if_neg (ne "true" (by decide)), if_neg (ne "false" (by decide)),
      if_neg (ne "null" (by decide)), String.ofList_toList]
  | boolean value =>
    cases value with
    | word w => exact le.elim
    | native b =>
      cases b with
      | true => exact literal "true" _ (by decide) (by decide)
      | false => exact literal "false" _ (by decide) (by decide)
  | null value =>
    cases value with
    | word w => exact le.elim
    | native => exact literal "null" _ (by decide) (by decide)
  | number value => cases word
  | text t => cases word
  | relation left operator right => cases word

/-- The first character of an operand tells its shape. -/
lemma Legible.head {e : Expression} (le : e.Legible) :
    ∃ c rest, e.operandChars = c :: rest ∧ OperandShape.ofChar c = e.shape ∧
      isOperandStart c = true := by
  have word (shape : e.shape = .word) (some : e.operandChars ≠ []) :
      ∃ c rest, e.operandChars = c :: rest ∧ OperandShape.ofChar c = .word ∧
        isOperandStart c = true := by
    obtain ⟨all, _⟩ := le.ofWord_operandChars shape
    obtain ⟨c, rest, eq⟩ := List.exists_cons_of_ne_nil some
    have isWord := all c (eq ▸ List.mem_cons_self)
    refine ⟨c, rest, eq, ?_, ?_⟩
    · rw [OperandShape.ofChar, if_pos isWord]
    · rw [isOperandStart, isAtomChar, isWord, Bool.true_or, Bool.true_or]
  cases e with
  | name n => exact word rfl (mt String.toList_eq_nil_iff.mp le.1.ne_empty)
  | number value =>
    obtain ⟨c, rest, eq⟩ := List.exists_cons_of_ne_nil (Decimal.ofInt_ne_nil value)
    have sign := Decimal.ofInt_chars c (eq ▸ List.mem_cons_self)
    have start : isOperandStart c = true := by
      rw [isOperandStart, isAtomChar, sign, Bool.or_true, Bool.true_or]
    refine ⟨c, rest, eq, ?_, start⟩
    rw [Bool.or_eq_true, beq_iff_eq] at sign
    rcases sign with digit | rfl
    · have ne {d : Char} (other : d.isDigit = false) : c ≠ d := by
        rintro rfl
        rw [digit] at other
        cases other
      rw [OperandShape.ofChar, if_neg (by rw [isWordChar_of_isDigit digit]; decide),
        if_neg (ne (by decide)), if_neg (ne (by decide))]
      rfl
    · rfl
  | text t => exact ⟨_, _, operandChars_text t, rfl, rfl⟩
  | boolean value =>
    cases value with
    | word w => exact le.elim
    | native b => exact word rfl (by cases b <;> decide)
  | null value =>
    cases value with
    | word w => exact le.elim
    | native => exact word rfl (by decide)
  | relation left operator right => exact ⟨_, _, operandChars_relation _ _ _, rfl, rfl⟩

/-- An operator is known from its characters up to the blank after it. -/
lemma operator_cancel {operator operator' : String} (mem : operator ∈ operatorSymbols)
    (mem' : operator' ∈ operatorSymbols) {more more' : List Char}
    (eq : operator.toList ++ ' ' :: more = operator'.toList ++ ' ' :: more') :
    operator = operator' ∧ more = more' := by
  have no : ∀ symbol ∈ operatorSymbols, ' ' ∉ symbol.toList := by decide
  obtain ⟨same, rest⟩ := append_cons_cancel (no _ mem) (no _ mem') eq
  exact ⟨String.toList_inj.mp same, rest⟩

/-- Operands whose texts are equal have the same shape. -/
lemma Legible.shape_eq {e f : Expression} (le : e.Legible) (lf : f.Legible) {more more' : List Char}
    (eq : e.operandChars ++ more = f.operandChars ++ more') : e.shape = f.shape := by
  obtain ⟨c, rest, eqe, shape, _⟩ := le.head
  obtain ⟨d, rest', eqf, shape', _⟩ := lf.head
  rw [eqe, eqf] at eq
  rw [← shape, ← shape', (List.cons.inj eq).1]

/-- A word is known from its characters and from where they end. -/
lemma Legible.word_cancel {e f : Expression} (le : e.Legible) (lf : f.Legible) {more more' : List Char}
    (stops : Stops isAtomChar more) (stops' : Stops isAtomChar more')
    (eq : e.operandChars ++ more = f.operandChars ++ more') (word : e.shape = .word) :
    e = f ∧ more = more' := by
  obtain ⟨all, eqe⟩ := le.ofWord_operandChars word
  obtain ⟨all', eqf⟩ := lf.ofWord_operandChars ((le.shape_eq lf eq).symm.trans word)
  have atom : ∀ c, isWordChar c = true → isAtomChar c = true := by
    intro c word
    rw [isAtomChar, word, Bool.true_or]
  obtain ⟨same, rest⟩ := append_cancel_of_stops (fun c mem => atom c (all c mem))
    (fun c mem => atom c (all' c mem)) stops stops' eq
  rw [← eqe, ← eqf, same]
  exact ⟨rfl, rest⟩

/-- An operand is known from its characters and from where they end. -/
lemma Legible.operand_cancel {e f : Expression} (le : e.Legible) (lf : f.Legible)
    {more more' : List Char} (stops : Stops isAtomChar more) (stops' : Stops isAtomChar more')
    (eq : e.operandChars ++ more = f.operandChars ++ more') : e = f ∧ more = more' := by
  have shape := le.shape_eq lf eq
  induction e generalizing f more more' with
  | name n => exact le.word_cancel lf stops stops' eq rfl
  | boolean value => exact le.word_cancel lf stops stops' eq rfl
  | null value => exact le.word_cancel lf stops stops' eq rfl
  | number value =>
    cases f with
    | number value' =>
      have atom : ∀ v : Int, ∀ c ∈ (Decimal.ofInt v).toList, isAtomChar c = true := by
        intro v c mem
        rw [isAtomChar, Decimal.ofInt_chars c mem, Bool.or_true]
      obtain ⟨same, rest⟩ := append_cancel_of_stops (atom value) (atom value') stops stops' eq
      rw [Decimal.ofInt_injective (String.toList_inj.mp same)]
      exact ⟨rfl, rest⟩
    | _ => cases shape
  | text t =>
    cases f with
    | text t' =>
      rw [operandChars_text, operandChars_text, List.cons_append, List.cons_append, List.append_assoc,
        List.append_assoc] at eq
      obtain ⟨same, rest⟩ := append_cons_cancel le lf (List.cons.inj eq).2
      rw [String.toList_inj.mp same]
      exact ⟨rfl, rest⟩
    | _ => cases shape
  | relation left operator right ihl ihr =>
    cases f with
    | relation left' operator' right' =>
      obtain ⟨ll, lo, lr⟩ := le
      obtain ⟨ll', lo', lr'⟩ := lf
      have closing : ∀ text, Stops isAtomChar (')' :: text) := by
        rintro text c ⟨⟩
        decide
      simp only [operandChars_relation, List.cons_append, List.append_assoc, List.cons.injEq,
        true_and, List.nil_append] at eq
      obtain ⟨rfl, eqo⟩ := ihl ll ll' (stops_blank _) (stops_blank _) eq (ll.shape_eq ll' eq)
      obtain ⟨rfl, eqr⟩ := operator_cancel lo lo' (List.cons.inj eqo).2
      obtain ⟨rfl, rest⟩ := ihr lr lr' (closing _) (closing _) eqr (lr.shape_eq lr' eqr)
      exact ⟨rfl, (List.cons.inj rest).2⟩
    | _ => cases shape

/-- An operand with an operator after it is not taken for a whole value. -/
lemma Legible.append_blank_ne {e f : Expression} (le : e.Legible) (lf : f.Legible)
    {text more : List Char} (stops : Stops isValueChar more) :
    e.operandChars ++ ' ' :: text ≠ f.operandChars ++ more := by
  intro eq
  obtain ⟨_, rfl⟩ := le.operand_cancel lf (stops_blank text) (stops_atom stops) eq
  exact absurd (stops ' ' rfl) (by decide)

/-- A value or a test, which has no parentheses of its own, is known from its script and from where
this ends. -/
lemma Legible.cancel {e f : Expression} (le : e.Legible) (lf : f.Legible) {more more' : List Char}
    (stops : Stops isValueChar more) (stops' : Stops isValueChar more')
    (eq : e.script.toList ++ more = f.script.toList ++ more') : e = f ∧ more = more' := by
  cases e with
  | relation left operator right =>
    rw [script_relation, List.append_assoc, List.cons_append] at eq
    cases f with
    | relation left' operator' right' =>
      obtain ⟨ll, lo, lr⟩ := le
      obtain ⟨ll', lo', lr'⟩ := lf
      simp only [script_relation, List.cons_append, List.append_assoc] at eq
      obtain ⟨rfl, eqo⟩ := ll.operand_cancel ll' (stops_blank _) (stops_blank _) eq
      obtain ⟨rfl, eqr⟩ := operator_cancel lo lo' (List.cons.inj eqo).2
      obtain ⟨rfl, rest⟩ := lr.operand_cancel lr' (stops_atom stops) (stops_atom stops') eqr
      exact ⟨rfl, rest⟩
    | _ => exact absurd eq (le.1.append_blank_ne lf stops')
  | _ =>
    cases f with
    | relation left' operator' right' =>
      rw [script_relation, List.append_assoc, List.cons_append] at eq
      exact absurd eq.symm (lf.1.append_blank_ne le stops)
    | _ => exact le.operand_cancel lf (stops_atom stops) (stops_atom stops') eq

/-- A value or a test starts with an operand. -/
lemma Legible.script_head {e : Expression} (le : e.Legible) :
    ∃ c rest, e.script.toList = c :: rest ∧ isOperandStart c = true := by
  cases e with
  | relation left operator right =>
    obtain ⟨c, rest, eq, _, start⟩ := Legible.head le.1
    rw [script_relation, eq]
    exact ⟨c, _, rfl, start⟩
  | _ =>
    obtain ⟨c, rest, eq, _, start⟩ := le.head
    exact ⟨c, rest, eq, start⟩

end Expression

end LatinToScript
