import LatinToScript.Proofs.Program.Latin
import LatinToScript.Proofs.Script.Expressions

/-!
# Scripts determine programs

A legible statement is known from its script, and so is the place where the script ends in a longer
text (`Statement.Legible.cancel`). What follows its first word tells what a statement is
(`StatementShape.ofText`), so only statements of the same shape have to be compared. The programs of
two sources therefore have the same script only if they are split into the same statements
(`Program.script_eq_iff_split_eq`).
-/

namespace LatinToScript

/-! ## Declarators -/

/-- Words hold no blank. -/
lemma IsWord.blank_not_mem {w : String} (isWord : IsWord w) : ' ' ∉ w.toList := by
  intro mem
  exact absurd (isWord.chars ' ' mem) (by decide)

/-- A declarator starts with its name and ends with a semicolon, whatever comes behind it. -/
lemma Declarator.script_append (d : Declarator) (more : List Char) :
    d.script.toList ++ more =
      d.name.toList ++ ' ' :: '=' :: ' ' :: (d.value.script.toList ++ ';' :: more) := by
  simp [Declarator.script]

/-- A declarator is known from its script. -/
lemma Declarator.Legible.cancel {d d' : Declarator} (ld : d.Legible) (ld' : d'.Legible)
    {more more' : List Char} (eq : d.script.toList ++ more = d'.script.toList ++ more') :
    d = d' ∧ more = more' := by
  have semicolon : ∀ text, Stops isValueChar (';' :: text) := by
    rintro text c ⟨⟩
    decide
  obtain ⟨n, value⟩ := d
  obtain ⟨n', value'⟩ := d'
  rw [script_append, script_append] at eq
  obtain ⟨eqn, eqv⟩ := append_cons_cancel ld.name.blank_not_mem ld'.name.blank_not_mem eq
  simp only [List.cons.injEq, true_and] at eqv
  obtain ⟨rfl, rest⟩ := ld.value.cancel ld'.value (semicolon _) (semicolon _) eqv
  obtain rfl : n = n' := String.toList_inj.mp eqn
  exact ⟨rfl, (List.cons.inj rest).2⟩

/-! ## The shapes of statements -/

/-- What a statement is. -/
inductive StatementShape where
  | declaration
  | binding
  | control (control : Control)
  | block
  | expression

/-- What a statement at the front of a text is, by what follows its first word. -/
def StatementShape.ofText (text : List Char) : StatementShape :=
  let rest := text.dropWhile isWordChar
  if rest.head? = some '\x7b' then .block
  else if rest.take 2 = [' ', '('] then .control (if text.head? = some 'i' then .si else .dum)
  else if rest.take 3 = [' ', '=', ' '] then .binding
  else if rest.head? = some ' ' ∧ rest.tail.head?.any isWordChar then .declaration
  else .expression

/-- A character that cannot stand behind a statement. -/
def isInnerChar (c : Char) : Bool :=
  c != '\n' && c != '\x7d'

/-- What is dropped from the front of a text is the run of the class, up to where it stops. -/
lemma dropWhile_append_of_stops {class? : Char → Bool} {text more : List Char}
    (all : ∀ c ∈ text, class? c = true) (stops : Stops class? more) :
    (text ++ more).dropWhile class? = more := by
  have both : (text ++ more).takeWhile class? ++ (text ++ more).dropWhile class? = text ++ more :=
    List.takeWhile_append_dropWhile
  rw [takeWhile_append_of_stops all stops] at both
  exact List.append_cancel_left both

namespace Statement

/-- What a statement is, by its constructor. -/
def shape : Statement → StatementShape
  | .declaration _ => .declaration
  | .binding _ => .binding
  | .conditional _ _ _ => .control .si
  | .loop _ _ => .control .dum
  | .block _ => .block
  | .expression _ => .expression

/-- The characters of some statements in lines of their own. -/
def lines (ss : List Statement) : List Char :=
  (joinLines (Statement.scripts ss)).toList

/-- A declaration starts with its keyword, and its declarator stands behind it. -/
lemma script_declaration_append (binding : Binding) (x : Declarator) (more : List Char) :
    (declaration ⟨.native binding, [x]⟩).script.toList ++ more =
      binding.native.toList ++ ' ' :: (x.script.toList ++ more) := by
  simp [script, Declaration.script, DeclarationKind.word, joinLines]

/-- A control statement has its keyword, its test in parentheses and its block, in this order. -/
lemma script_control_append (control : Control) (test : Relation) (body : List Statement)
    (more : List Char) :
    (control.statement test body).script.toList ++ more =
      control.native.toList ++ ' ' :: '(' ::
        (test.toExpression.script.toList ++ ')' :: ' ' :: '\x7b' :: (lines body ++ '\x7d' :: more)) := by
  cases control <;>
    simp [Control.statement, script, scriptAlternate, braced, lines, Relation.script]

/-- A block has its lines between braces. -/
lemma script_block_append (body : List Statement) (more : List Char) :
    (block body).script.toList ++ more = '\x7b' :: (lines body ++ '\x7d' :: more) := by
  simp [script, braced, lines]

/-! ## The first word tells the shape -/

/-- What ends a statement ends its last value. -/
lemma stops_value {more : List Char} (stops : Stops isInnerChar more) : Stops isValueChar more := by
  intro c mem
  have ends := stops c mem
  rw [isInnerChar, Bool.and_eq_false_iff, bne_eq_false_iff_eq, bne_eq_false_iff_eq] at ends
  rcases ends with rfl | rfl <;> decide

/-- What ends a statement is no blank and opens no block. -/
lemma head_ne {more : List Char} (stops : Stops isInnerChar more) :
    more.head? ≠ some '\x7b' ∧ more.head? ≠ some ' ' := by
  have inner : ∀ c, isInnerChar c = true → more.head? ≠ some c := by
    intro c inner eq
    rw [stops c eq] at inner
    cases inner
  exact ⟨inner _ (by decide), inner _ (by decide)⟩

/-- A control statement is told by the parenthesis behind its first word, and by the first letter of this word. -/
lemma ofText_control (control : Control) (test : Relation) (body : List Statement) (more : List Char) :
    StatementShape.ofText ((control.statement test body).script.toList ++ more) = .control control := by
  have all : control.native.toList.all isWordChar = true := by
    cases control <;> decide
  rw [List.all_eq_true] at all
  rw [script_control_append, StatementShape.ofText,
    dropWhile_append_of_stops all (stops_word (stops_blank _))]
  cases control <;> rfl

/-- What comes after the first word of an expression opens no block, and behind a blank it is an
operator. -/
structure FollowsOperand (rest : List Char) : Prop where
  noblock : rest.head? ≠ some '\x7b'
  operator : rest.head? = some ' ' →
    ∃ symbol ∈ operatorSymbols, ∃ more, rest = ' ' :: (symbol.toList ++ ' ' :: more)

/-- A text that goes on like an expression is told to be one. -/
lemma FollowsOperand.ofText_eq {text rest : List Char} (follows : FollowsOperand rest)
    (eq : text.dropWhile isWordChar = rest) : StatementShape.ofText text = .expression := by
  have noblock := follows.noblock
  rw [StatementShape.ofText, eq]
  by_cases blank : rest.head? = some ' '
  · obtain ⟨symbol, mem, more, rfl⟩ := follows.operator blank
    simp only [operatorSymbols, List.mem_cons, List.not_mem_nil, or_false] at mem
    rcases mem with rfl | rfl | rfl | rfl | rfl | rfl | rfl | rfl <;> rfl
  · have nofront : ∀ n chars, rest.take (n + 1) ≠ ' ' :: chars := by
      intro n chars eq
      have head := congrArg List.head? eq
      rw [List.head?_take, if_neg (Nat.succ_ne_zero n)] at head
      exact blank head
    simp only [noblock, nofront, blank, if_false, false_and]

/-- An operand in front of an operator or of the end of a statement belongs to an expression. -/
lemma ofText_operandChars {e : Expression} (le : e.Legible) {rest : List Char}
    (stops : Stops isWordChar rest) (follows : FollowsOperand rest) :
    StatementShape.ofText (e.operandChars ++ rest) = .expression := by
  by_cases word : e.shape = .word
  · have all := (le.ofWord_operandChars word).1
    exact follows.ofText_eq (dropWhile_append_of_stops all stops)
  · obtain ⟨c, tail, eq, shape, start⟩ := le.head
    have noword : isWordChar c = false := by
      rw [← Bool.not_eq_true]
      intro isWord
      rw [OperandShape.ofChar, if_pos isWord] at shape
      exact word shape.symm
    have ne : ∀ d, isOperandStart d = false → (c :: (tail ++ rest)).head? ≠ some d := by
      rintro _ nostart ⟨⟩
      rw [start] at nostart
      cases nostart
    have whole : FollowsOperand (c :: (tail ++ rest)) :=
      ⟨ne _ (by decide), fun blank => absurd blank (ne _ (by decide))⟩
    rw [eq, List.cons_append]
    exact whole.ofText_eq (List.dropWhile_cons_of_neg (Bool.eq_false_iff.mp noword))

/-- An expression is told by what follows its first word. -/
lemma ofText_expression {e : Expression} (le : e.Legible) {more : List Char}
    (stops : Stops isInnerChar more) :
    StatementShape.ofText (e.script.toList ++ more) = .expression := by
  cases e with
  | relation left operator right =>
    obtain ⟨ll, lo, _⟩ := le
    rw [Expression.script_relation, List.append_assoc, List.cons_append, List.append_assoc,
      List.cons_append]
    apply ofText_operandChars ll (stops_word (stops_blank _))
    exact ⟨nofun, fun _ => ⟨operator, lo, _, rfl⟩⟩
  | _ =>
    obtain ⟨noblock, noblank⟩ := head_ne stops
    apply ofText_operandChars le (stops_word (stops_atom (stops_value stops)))
    exact ⟨noblock, fun blank => absurd blank noblank⟩

/-- The text of a statement tells what it is. -/
lemma Legible.ofText_script {s : Statement} (ls : s.Legible) {more : List Char}
    (stops : Stops isInnerChar more) : StatementShape.ofText (s.script.toList ++ more) = s.shape := by
  cases s with
  | declaration d =>
    obtain ⟨binding, x, rfl, lx⟩ := ls
    rw [script_declaration_append, Declarator.script_append]
    have all : binding.native.toList.all isWordChar = true := by
      cases binding <;> decide
    rw [List.all_eq_true] at all
    obtain ⟨c, name, eq⟩ := List.exists_cons_of_ne_nil (mt String.toList_eq_nil_iff.mp lx.name.ne_empty)
    have word := lx.name.chars c (eq ▸ List.mem_cons_self)
    have noparen : c ≠ '(' := ne_of_isWordChar word (by decide)
    have noequal : c ≠ '=' := ne_of_isWordChar word (by decide)
    rw [StatementShape.ofText, dropWhile_append_of_stops all (stops_word (stops_blank _)), eq]
    simp [noparen, noequal, word, shape]
  | binding d =>
    rw [script, Declarator.script_append, StatementShape.ofText,
      dropWhile_append_of_stops ls.name.chars (stops_word (stops_blank _))]
    rfl
  | conditional test consequent alternate =>
    obtain ⟨_, _, rfl⟩ := ls
    exact ofText_control .si test consequent more
  | loop test body => exact ofText_control .dum test body more
  | block body =>
    rw [script_block_append]
    rfl
  | expression e =>
    rw [script]
    exact ofText_expression ls stops

/-- Statements whose texts are equal have the same shape. -/
lemma Legible.shape_eq {s t : Statement} (ls : s.Legible) (lt : t.Legible) {more more' : List Char}
    (stops : Stops isInnerChar more) (stops' : Stops isInnerChar more')
    (eq : s.script.toList ++ more = t.script.toList ++ more') : s.shape = t.shape := by
  rw [← ls.ofText_script stops, eq, lt.ofText_script stops']

/-- No statement starts with the brace that closes a block. -/
lemma Legible.script_append_ne {s : Statement} (ls : s.Legible) {more text : List Char}
    (stops : Stops isInnerChar more) : s.script.toList ++ more ≠ '\x7d' :: text := by
  intro eq
  have shape : s.shape = .expression := by
    rw [← ls.ofText_script stops, eq]
    rfl
  cases s with
  | expression e =>
    obtain ⟨c, rest, eqe, start⟩ := Expression.Legible.script_head ls
    rw [script, eqe, List.cons_append, List.cons.injEq] at eq
    rw [eq.1] at start
    exact absurd start (by decide)
  | _ => cases shape

/-! ## Statements -/

/-- What follows a statement of a block: the other lines or the brace that closes the block. -/
def restOfBlock (ss : List Statement) (more : List Char) : List Char :=
  if ss.isEmpty then '\x7d' :: more else '\n' :: (lines ss ++ '\x7d' :: more)

/-- Behind the first statement of a block come the others, or the brace. -/
lemma lines_cons_append (s : Statement) (ss : List Statement) (more : List Char) :
    lines (s :: ss) ++ '\x7d' :: more = s.script.toList ++ restOfBlock ss more := by
  cases ss with
  | nil =>
    rw [lines, scripts, scripts, joinLines, String.intercalate_singleton]
    rfl
  | cons t ts => simp [lines, scripts, joinLines, restOfBlock]

/-- The next line and the brace end a statement. -/
lemma stops_restOfBlock (ss : List Statement) (more : List Char) :
    Stops isInnerChar (restOfBlock ss more) := by
  cases ss with
  | nil =>
    rintro c ⟨⟩
    decide
  | cons t ts =>
    rintro c ⟨⟩
    decide

/-- A control statement is known from its script, if its block is known from where it is closed. -/
lemma control_cancel (control : Control) {test test' : Relation} {body body' : List Statement}
    (lt : test.toExpression.Legible) (lt' : test'.toExpression.Legible)
    (ih : ∀ {u v}, lines body ++ '\x7d' :: u = lines body' ++ '\x7d' :: v → body = body' ∧ u = v)
    {more more' : List Char}
    (eq : (control.statement test body).script.toList ++ more =
      (control.statement test' body').script.toList ++ more') :
    test = test' ∧ body = body' ∧ more = more' := by
  have closing : ∀ text, Stops isValueChar (')' :: text) := by
    rintro text c ⟨⟩
    decide
  rw [script_control_append, script_control_append, List.append_cancel_left_eq, List.cons.injEq,
    List.cons.injEq] at eq
  obtain ⟨eqt, eqb⟩ := lt.cancel lt' (closing _) (closing _) eq.2.2
  simp only [List.cons.injEq, true_and] at eqb
  obtain ⟨rfl, rest⟩ := ih eqb
  obtain ⟨left, operator, right⟩ := test
  obtain ⟨left', operator', right'⟩ := test'
  cases eqt
  exact ⟨rfl, rfl, rest⟩

mutual

/-- Statements with the same characters in front of the end of a line or a block are the same, and so is what is
behind them. -/
lemma Legible.cancel {s t : Statement} (ls : s.Legible) (lt : t.Legible) {more more' : List Char}
    (stops : Stops isInnerChar more) (stops' : Stops isInnerChar more')
    (eq : s.script.toList ++ more = t.script.toList ++ more') : s = t ∧ more = more' := by
  have shape := ls.shape_eq lt stops stops' eq
  cases s with
  | declaration d =>
    cases t with
    | declaration d' =>
      obtain ⟨binding, x, rfl, lx⟩ := ls
      obtain ⟨binding', x', rfl, lx'⟩ := lt
      have noblank : ∀ b : Binding, ' ' ∉ b.native.toList := by
        intro b
        cases b <;> decide
      rw [script_declaration_append, script_declaration_append] at eq
      obtain ⟨word, eqx⟩ := append_cons_cancel (noblank _) (noblank _) eq
      obtain ⟨rfl, rest⟩ := lx.cancel lx' eqx
      have same : binding = binding' := by
        cases binding <;> cases binding' <;> first | rfl | exact absurd word (by decide)
      rw [same]
      exact ⟨rfl, rest⟩
    | _ => cases shape
  | binding d =>
    cases t with
    | binding d' =>
      rw [script, script] at eq
      obtain ⟨rfl, rest⟩ := Declarator.Legible.cancel ls lt eq
      exact ⟨rfl, rest⟩
    | _ => cases shape
  | conditional test consequent alternate =>
    cases t with
    | conditional test' consequent' alternate' =>
      obtain ⟨le, lc, rfl⟩ := ls
      obtain ⟨le', lc', rfl⟩ := lt
      obtain ⟨rfl, rfl, rest⟩ := control_cancel .si le le' (LegibleAll.cancel lc lc') eq
      exact ⟨rfl, rest⟩
    | _ => cases shape
  | loop test body =>
    cases t with
    | loop test' body' =>
      obtain ⟨rfl, rfl, rest⟩ := control_cancel .dum ls.1 lt.1 (LegibleAll.cancel ls.2 lt.2) eq
      exact ⟨rfl, rest⟩
    | _ => cases shape
  | block body =>
    cases t with
    | block body' =>
      rw [script_block_append, script_block_append, List.cons.injEq] at eq
      obtain ⟨rfl, rest⟩ := LegibleAll.cancel ls lt eq.2
      exact ⟨rfl, rest⟩
    | _ => cases shape
  | expression e =>
    cases t with
    | expression e' =>
      rw [script, script] at eq
      obtain ⟨rfl, rest⟩ := Expression.Legible.cancel ls lt (stops_value stops) (stops_value stops') eq
      exact ⟨rfl, rest⟩
    | _ => cases shape

/-- The statements of a block are known from their lines up to the brace that closes it. -/
lemma LegibleAll.cancel {ss ts : List Statement} (ls : LegibleAll ss) (lt : LegibleAll ts)
    {more more' : List Char} (eq : lines ss ++ '\x7d' :: more = lines ts ++ '\x7d' :: more') :
    ss = ts ∧ more = more' := by
  cases ss with
  | nil =>
    cases ts with
    | nil => exact ⟨rfl, (List.cons.inj eq).2⟩
    | cons t ts =>
      rw [lines_cons_append] at eq
      exact absurd eq.symm (lt.1.script_append_ne (stops_restOfBlock ts more'))
  | cons s ss =>
    rw [lines_cons_append] at eq
    cases ts with
    | nil => exact absurd eq (ls.1.script_append_ne (stops_restOfBlock ss more))
    | cons t ts =>
      rw [lines_cons_append] at eq
      obtain ⟨rfl, rest⟩ := Legible.cancel ls.1 lt.1 (stops_restOfBlock ss more)
        (stops_restOfBlock ts more') eq
      -- Either both blocks are closed here or both go on with another line.
      cases ss with
      | nil =>
        cases ts with
        | nil => exact ⟨rfl, (List.cons.inj rest).2⟩
        | cons t' ts => exact absurd (List.cons.inj rest).1 (by decide)
      | cons s' ss =>
        cases ts with
        | nil => exact absurd (List.cons.inj rest).1 (by decide)
        | cons t' ts =>
          obtain ⟨same, eqm⟩ := LegibleAll.cancel ls.2 lt.2 (List.cons.inj rest).2
          rw [same]
          exact ⟨rfl, eqm⟩

end

end Statement

/-! ## Programs -/

/-- Legible programs with the same script are the same. -/
lemma Program.script_injective {p q : Program} (lp : Statement.LegibleAll p.body)
    (lq : Statement.LegibleAll q.body) (eq : p.script = q.script) : p = q := by
  -- A brace behind both scripts makes blocks of them.
  have closed : Statement.lines p.body ++ ['\x7d'] = Statement.lines q.body ++ ['\x7d'] :=
    congrArg (fun script : String => script.toList ++ ['\x7d']) eq
  exact congrArg Program.mk (Statement.LegibleAll.cancel lp lq closed).1

/-- The programs of two sources have the same script exactly when they are split into the same
statements, if no operand is named like a literal of the script. -/
theorem Program.script_eq_iff_split_eq (source source' : String) (p q : Program)
    (eqp : Program.ofSource source = .ok p) (eqq : Program.ofSource source' = .ok q)
    (offp : ∀ n ∈ p.operandNames, n ∉ ["true", "false", "null"])
    (offq : ∀ n ∈ q.operandNames, n ∉ ["true", "false", "null"]) :
    p.toNative.script = q.toNative.script ↔ p.toNative.split = q.toNative.split := by
  obtain ⟨ts, eqt, eqp⟩ := Program.ofSource_eq_ok_iff.mp eqp
  obtain ⟨us, equ, eqq⟩ := Program.ofSource_eq_ok_iff.mp eqq
  have wfp : p.WellFormed := Program.wellFormed_of_source eqt eqp
  have wfq : q.WellFormed := Program.wellFormed_of_source equ eqq
  rw [← Program.script_split p.toNative, ← Program.script_split q.toNative]
  constructor
  · exact Program.script_injective (wfp.legible offp) (wfq.legible offq)
  · intro eq
    rw [eq]

/-- A loop with one declaration of two names. -/
def Program.declaringTwice : Program :=
  ⟨[.loop ⟨.name "a", "maior", .number (-2)⟩
    [.declaration ⟨.latin .dico, [⟨"b", .text "c; d"⟩, ⟨"e", .boolean (.word "verum")⟩]⟩]]⟩

/-- A loop with a declaration and a binding. -/
def Program.declaringAndBinding : Program :=
  ⟨[.loop ⟨.name "a", "maior", .number (-2)⟩
    [.declaration ⟨.latin .dico, [⟨"b", .text "c; d"⟩]⟩, .binding ⟨"e", .boolean (.word "verum")⟩]]⟩

/-- Two programs that differ have one script, since they are split alike. -/
theorem Program.script_eq_iff_split_eq_declaringTwice :
    Program.ofSource declaringTwice.latin = .ok declaringTwice ∧
    Program.ofSource declaringAndBinding.latin = .ok declaringAndBinding ∧
    declaringTwice ≠ declaringAndBinding ∧
    declaringTwice.toNative.script = declaringAndBinding.toNative.script ∧
    declaringTwice.toNative.split = declaringAndBinding.toNative.split := by
  have wf : declaringTwice.WellFormed := by decide
  have wf' : declaringAndBinding.WellFormed := by decide
  have eq := Program.ofSource_eq_ok_iff.mpr wf.ofSource_latin
  have eq' := Program.ofSource_eq_ok_iff.mpr wf'.ofSource_latin
  have ne : declaringTwice ≠ declaringAndBinding := by
    intro same
    cases same
  have split : declaringTwice.toNative.split = declaringAndBinding.toNative.split := by
    rw [Program.toNative, Program.toNative, Program.relabel_eq, Program.relabel_eq]
    rfl
  have script := (Program.script_eq_iff_split_eq _ _ _ _ eq eq' (by decide) (by decide)).mpr split
  exact ⟨eq, eq', ne, script, split⟩

end LatinToScript
