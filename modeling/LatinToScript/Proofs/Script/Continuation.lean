import LatinToScript.Proofs.Script.Expressions

/-!
# Statements that run on

Each statement of a script stands in lines of its own, but the end of a line does not always end a statement: an
expression goes on in the next line if that starts with a parenthesis or with a minus sign. Only values by
themselves are written without a semicolon or a brace at their end, and only some of them start in such a way
(`Expression.goesOn`). So the statements that run into each other are known from the tree
(`compile_staysApart_iff`).
-/

namespace LatinToScript

/-! ## Texts -/

/-- Whether a text ends with a semicolon or with a closing brace. -/
def hasEnd (text : List Char) : Bool :=
  text.getLast?.any (· ∈ [';', '\x7d'])

/-- Whether a text starts with a character with which an expression goes on across the end of a line. -/
def canGoOn (text : List Char) : Bool :=
  text.head?.any (· ∈ ['(', '-'])

/-- The first of two texts in lines of their own has an end, or the second one cannot go on with it. -/
def StaysApart (text next : String) : Prop :=
  hasEnd text.toList = true ∨ canGoOn next.toList = false

/-- Whether a text has an end depends on its last part, if it is not empty. -/
lemma hasEnd_append {more : List Char} (some : more ≠ []) (text : List Char) :
    hasEnd (text ++ more) = hasEnd more := by
  rw [hasEnd, hasEnd, List.getLast?_append, List.getLast?_eq_some_getLast some, Option.some_or]

/-- A text without semicolons and closing braces has no end. -/
lemma hasEnd_eq_false {text : List Char} (off : ∀ c ∈ text, c ∉ [';', '\x7d']) : hasEnd text = false := by
  rw [hasEnd, Option.any_eq_false]
  intro c last
  exact decide_eq_false (off c (List.mem_of_getLast? last))

/-- A text without parentheses and minus signs cannot go on with the line in front of it. -/
lemma canGoOn_eq_false {text : List Char} (off : ∀ c ∈ text, c ∉ ['(', '-']) : canGoOn text = false := by
  rw [canGoOn, Option.any_eq_false]
  intro c first
  exact decide_eq_false (off c (List.mem_of_head? first))

/-- A blank has no end. -/
lemma hasEnd_append_blank (text more : List Char) : hasEnd (text ++ ' ' :: more) = hasEnd more := by
  rw [hasEnd_append (List.cons_ne_nil ' ' more)]
  cases more with
  | nil => rfl
  | cons c more => exact hasEnd_append (List.cons_ne_nil c more) [' ']

/-- Nothing goes on with a blank. -/
lemma canGoOn_append_blank (text more : List Char) : canGoOn (text ++ ' ' :: more) = canGoOn text := by
  cases text <;> rfl

/-! ## Values -/

namespace Expression

/-- Whether an operand starts with a parenthesis or with a minus sign. -/
def opens : Expression → Bool
  | .number value => value < 0
  | .relation _ _ _ => true
  | _ => false

/-- Whether a value starts with a parenthesis or with a minus sign. -/
def goesOn : Expression → Bool
  | .relation left _ _ => left.opens
  | e => e.opens

/-- What the script of an operand tells: it has no end, and it shows whether the operand opens. -/
structure OperandTells (e : Expression) : Prop where
  hasEnd_eq : hasEnd e.operandChars = false
  canGoOn_eq : canGoOn e.operandChars = e.opens

/-- Words have no end, and nothing goes on with them. -/
lemma operandTells_of_word {e : Expression} (word : ∀ c ∈ e.operandChars, isWordChar c = true)
    (other : e.opens = false) : e.OperandTells := by
  have off : ∀ c ∈ e.operandChars, ∀ ds : List Char, ds.all (!isWordChar ·) = true → c ∉ ds := by
    intro c mem ds all memd
    have noword := List.all_eq_true.mp all c memd
    rw [word c mem] at noword
    cases noword
  refine ⟨hasEnd_eq_false fun c mem => off c mem _ (by decide), ?_⟩
  rw [other]
  exact canGoOn_eq_false fun c mem => off c mem _ (by decide)

/-- A number has a minus sign in front exactly when it is negative. -/
lemma operandTells_number (value : Int) : (number value).OperandTells := by
  have digit_off : ∀ c : Char, c.isDigit = true → c ∉ ['(', '-'] := by
    intro c digit mem
    simp only [List.mem_cons, List.not_mem_nil, or_false] at mem
    rcases mem with rfl | rfl <;> cases digit
  constructor
  · apply hasEnd_eq_false
    intro c mem memd
    have chars := Decimal.ofInt_chars c mem
    simp only [List.mem_cons, List.not_mem_nil, or_false] at memd
    rcases memd with rfl | rfl <;> cases chars
  · cases value with
    | ofNat n =>
      have positive : (number (Int.ofNat n)).opens = false := decide_eq_false (Int.natCast_nonneg n).not_gt
      rw [positive]
      exact canGoOn_eq_false fun c mem => digit_off c (Decimal.isDigit_of_mem_ofNat mem)
    | negSucc n =>
      have negative : (number (Int.negSucc n)).opens = true := decide_eq_true (Int.negSucc_lt_zero n)
      rw [negative]
      change canGoOn ("-" ++ Decimal.ofNat (n + 1)).toList = true
      rw [String.toList_append]
      rfl

/-- Operands tell whether they open. -/
lemma WellFormed.operandTells {e : Expression} (wf : e.WellFormed) (parent : NodeKind) :
    (e.relabel nativeWords parent).OperandTells := by
  cases e with
  | name n =>
    have nm : IsName n := wf
    exact operandTells_of_word nm.word rfl
  | number value => exact operandTells_number value
  | text t =>
    change OperandTells (text t)
    constructor
    · rw [operandChars_text, ← List.cons_append, hasEnd_append (List.cons_ne_nil _ _)]
      rfl
    · rw [operandChars_text]
      rfl
  | boolean value =>
    cases value with
    | native b => exact wf.elim
    | word w =>
      have mem : w ∈ booleanWords := wf
      simp only [booleanWords, List.mem_cons, List.not_mem_nil, or_false] at mem
      rcases mem with rfl | rfl
      · exact operandTells_of_word (e := boolean (.native true)) (List.all_eq_true.mp (by decide)) rfl
      · exact operandTells_of_word (e := boolean (.native false)) (List.all_eq_true.mp (by decide)) rfl
  | null value =>
    cases value with
    | native => exact wf.elim
    | word w =>
      obtain rfl : w = nullWord := wf
      exact operandTells_of_word (e := null .native) (List.all_eq_true.mp (by decide)) rfl
  | relation left operator right =>
    rw [relabel]
    constructor
    · rw [operandChars_relation, ← List.cons_append, hasEnd_append_blank, hasEnd_append_blank,
        hasEnd_append (List.cons_ne_nil _ _)]
      rfl
    · rw [operandChars_relation]
      rfl

/-- A value has no end, and its script shows whether it goes on with what is in front. -/
lemma WellFormed.valueTells {e : Expression} (wf : e.WellFormed) (parent : NodeKind) :
    hasEnd (e.relabel nativeWords parent).script.toList = false ∧
      canGoOn (e.relabel nativeWords parent).script.toList = (e.relabel nativeWords parent).goesOn := by
  cases e with
  | relation left operator right =>
    obtain ⟨wl, _, wr⟩ := wf
    rw [relabel, script_relation]
    constructor
    · rw [hasEnd_append_blank, hasEnd_append_blank]
      exact (wr.operandTells .relation).hasEnd_eq
    · rw [canGoOn_append_blank]
      exact (wl.operandTells .relation).canGoOn_eq
  | _ => exact ⟨(wf.operandTells parent).hasEnd_eq, (wf.operandTells parent).canGoOn_eq⟩

end Expression

/-! ## Statements -/

/-- Whether a statement is a value by itself. -/
def Statement.isValue : Statement → Bool
  | .expression _ => true
  | _ => false

/-- Whether a statement is a value that starts with a parenthesis or with a minus sign. -/
def Statement.goesOn : Statement → Bool
  | .expression e => e.goesOn
  | _ => false

/-- What the script of a statement tells: it has an end unless the statement is a value, and it shows whether the
statement goes on with a value in front of it. -/
structure Statement.ScriptTells (s : Statement) : Prop where
  hasEnd_eq : hasEnd s.script.toList = !s.isValue
  canGoOn_eq : canGoOn s.script.toList = s.goesOn

/-- Two statements stay apart unless both are values and the second one goes on with the first. -/
lemma Statement.ScriptTells.staysApart_iff {s t : Statement} (first : s.ScriptTells) (second : t.ScriptTells) :
    StaysApart s.script t.script ↔ ¬ (s.isValue = true ∧ t.goesOn = true) := by
  rw [StaysApart, first.hasEnd_eq, second.canGoOn_eq, Bool.not_eq_true', not_and_or, Bool.not_eq_true,
    Bool.not_eq_true]

/-- A text has the end of what it ends with. -/
lemma hasEnd_concat {t : String} (ends : hasEnd t.toList = true) (s : String) : hasEnd (s ++ t).toList = true := by
  have some : t.toList ≠ [] := by
    intro eq
    rw [eq] at ends
    cases ends
  rw [String.toList_append, hasEnd_append some, ends]

/-- A text starts as what it starts with. -/
lemma canGoOn_concat {s : String} (some : s ≠ "") (t : String) :
    canGoOn (s ++ t).toList = canGoOn s.toList := by
  obtain ⟨c, chars, eq⟩ := List.exists_cons_of_ne_nil (mt String.toList_eq_nil_iff.mp some)
  rw [String.toList_append, eq]
  rfl

/-- Lines have the end of the last one. -/
lemma hasEnd_joinLines {texts : List String} (some : texts ≠ [])
    (ends : ∀ t ∈ texts, hasEnd t.toList = true) : hasEnd (joinLines texts).toList = true := by
  induction texts with
  | nil => exact absurd rfl some
  | cons text texts ih =>
    rw [List.forall_mem_cons] at ends
    cases texts with
    | nil =>
      rw [joinLines, String.intercalate_singleton]
      exact ends.1
    | cons next texts =>
      rw [joinLines, String.intercalate_cons_cons]
      exact hasEnd_concat (ih (List.cons_ne_nil _ _) ends.2) _

/-- A declarator ends with its semicolon. -/
lemma Declarator.hasEnd_script (d : Declarator) : hasEnd d.script.toList = true :=
  hasEnd_concat (by decide) _

/-- A block ends with its brace. -/
lemma hasEnd_braced (scripts : List String) : hasEnd (braced scripts).toList = true :=
  hasEnd_concat (by decide) _

/-- A declaration ends with the semicolon of its last declarator. -/
lemma Declaration.WellFormed.hasEnd_script {d : Declaration} (wf : d.WellFormed) (parent : NodeKind) :
    hasEnd (d.relabel nativeWords parent).script.toList = true := by
  apply hasEnd_concat
  apply hasEnd_joinLines
  · exact mt List.map_eq_nil_iff.mp (mt List.map_eq_nil_iff.mp wf.ne_nil)
  · intro text mem
    obtain ⟨x, _, rfl⟩ := List.mem_map.mp mem
    exact x.hasEnd_script

/-- The script of a control statement starts with its keyword. -/
lemma Control.canGoOn_native (control : Control) (rest : String) :
    canGoOn (control.native ++ rest).toList = false := by
  cases control <;> rw [canGoOn_concat (by decide)] <;> decide

/-- The scripts of statements tell whether they run on. -/
lemma Statement.WellFormed.scriptTells {s : Statement} (wf : s.WellFormed) (parent : NodeKind) :
    (s.relabel nativeWords parent).ScriptTells := by
  cases s with
  | declaration d =>
    refine ⟨Declaration.WellFormed.hasEnd_script wf parent, ?_⟩
    obtain ⟨kind, ds⟩ := d
    obtain ⟨⟨binding, rfl⟩, _, _⟩ := wf
    change canGoOn (binding.native ++ " " ++ _).toList = false
    rw [String.append_assoc]
    cases binding <;> rw [canGoOn_concat (by decide)] <;> decide
  | binding d =>
    refine ⟨Declarator.hasEnd_script _, ?_⟩
    have nm : IsName d.name := Declarator.WellFormed.name wf
    change canGoOn (d.name ++ " = " ++ _ ++ ";").toList = false
    rw [String.append_assoc, String.append_assoc, canGoOn_concat nm.ne_empty]
    exact (Expression.operandTells_of_word (e := .name d.name) nm.word rfl).canGoOn_eq
  | conditional test consequent alternate =>
    obtain ⟨_, _, rfl⟩ := wf
    constructor
    · change hasEnd (_ ++ "").toList = true
      rw [String.append_empty]
      exact hasEnd_concat (hasEnd_braced _) _
    · rw [relabel, script, String.append_assoc, String.append_assoc, String.append_assoc, String.append_assoc]
      exact Control.canGoOn_native .si _
  | loop test body =>
    refine ⟨hasEnd_concat (hasEnd_braced _) _, ?_⟩
    rw [relabel, script, String.append_assoc, String.append_assoc, String.append_assoc]
    exact Control.canGoOn_native .dum _
  | block body =>
    refine ⟨hasEnd_braced _, ?_⟩
    rw [relabel, script, braced, String.append_assoc, canGoOn_concat (by decide)]
    rfl
  | expression e =>
    obtain ⟨noend, start⟩ := wf.1.valueTells parent
    exact ⟨noend, start⟩

/-! ## Blocks at every depth -/

mutual

/-- The statements of each block in a statement, however deep. -/
def Statement.bodies : Statement → List (List Statement)
  | .declaration _ => []
  | .binding _ => []
  | .conditional _ consequent alternate =>
    consequent :: (Statement.bodiesAll consequent ++ Statement.bodiesAlternate alternate)
  | .loop _ body => body :: Statement.bodiesAll body
  | .block body => body :: Statement.bodiesAll body
  | .expression _ => []

/-- The statements of each block in some statements. -/
def Statement.bodiesAll : List Statement → List (List Statement)
  | [] => []
  | s :: ss => s.bodies ++ Statement.bodiesAll ss

/-- The statements of the second block of a choice and of each block in it. -/
def Statement.bodiesAlternate : Option (List Statement) → List (List Statement)
  | none => []
  | some body => body :: Statement.bodiesAll body

end

/-- The statements of a program and of each block in it. -/
def Program.bodies (p : Program) : List (List Statement) :=
  p.body :: Statement.bodiesAll p.body

/-- The scripts of statements tell whether they stay apart. -/
lemma Statement.WellFormedAll.scriptTells {ss : List Statement} (wf : Statement.WellFormedAll ss)
    (parent : NodeKind) : ∀ s ∈ Statement.relabelAll nativeWords parent ss, s.ScriptTells := by
  induction ss with
  | nil => exact List.forall_mem_nil _
  | cons s ss ih => exact List.forall_mem_cons.mpr ⟨wf.1.scriptTells parent, ih wf.2⟩

mutual

/-- In each block of a statement the scripts tell whether they stay apart. -/
lemma Statement.WellFormed.bodies_tell {s : Statement} (wf : s.WellFormed) (parent : NodeKind) :
    ∀ body ∈ (s.relabel nativeWords parent).bodies, ∀ t ∈ body, t.ScriptTells := by
  cases s with
  | declaration d => exact List.forall_mem_nil _
  | binding d => exact List.forall_mem_nil _
  | conditional test consequent alternate =>
    obtain ⟨_, wfc, rfl⟩ := wf
    rw [relabel, bodies, List.forall_mem_cons, List.forall_mem_append]
    exact ⟨wfc.scriptTells .block, Statement.WellFormedAll.bodies_tell wfc .block, List.forall_mem_nil _⟩
  | loop test body =>
    rw [relabel, bodies, List.forall_mem_cons]
    exact ⟨wf.2.scriptTells .block, Statement.WellFormedAll.bodies_tell wf.2 .block⟩
  | block body =>
    rw [relabel, bodies, List.forall_mem_cons]
    exact ⟨Statement.WellFormedAll.scriptTells wf .block, Statement.WellFormedAll.bodies_tell wf .block⟩
  | expression e => exact List.forall_mem_nil _

/-- In each block of some statements the scripts tell whether they stay apart. -/
lemma Statement.WellFormedAll.bodies_tell {ss : List Statement} (wf : Statement.WellFormedAll ss)
    (parent : NodeKind) :
    ∀ body ∈ Statement.bodiesAll (Statement.relabelAll nativeWords parent ss), ∀ t ∈ body, t.ScriptTells := by
  cases ss with
  | nil => exact List.forall_mem_nil _
  | cons s ss =>
    rw [Statement.relabelAll, Statement.bodiesAll, List.forall_mem_append]
    exact ⟨Statement.WellFormed.bodies_tell wf.1 parent, Statement.WellFormedAll.bodies_tell wf.2 parent⟩

end

/-! ## Lines in a script -/

/-- A text stands somewhere in another one. -/
def StandsIn (part text : String) : Prop :=
  part.toList <:+: text.toList

namespace StandsIn

variable {part s t : String}

/-- A text stands in itself. -/
lemma refl (s : String) : StandsIn s s :=
  List.infix_rfl

/-- What stands in a part stands in the whole. -/
lemma trans (first : StandsIn part s) (second : StandsIn s t) : StandsIn part t :=
  List.IsInfix.trans first second

/-- A text in front does not matter. -/
lemma append_left (stands : StandsIn part t) (s : String) : StandsIn part (s ++ t) := by
  unfold StandsIn
  rw [String.toList_append]
  exact List.IsInfix.trans stands (List.suffix_append _ _).isInfix

/-- A text behind does not matter. -/
lemma append_right (stands : StandsIn part s) (t : String) : StandsIn part (s ++ t) := by
  unfold StandsIn
  rw [String.toList_append]
  exact List.IsInfix.trans stands (List.prefix_append _ _).isInfix

/-- The lines of a block stand between its braces. -/
lemma braced (scripts : List String) : StandsIn (joinLines scripts) (braced scripts) :=
  ((refl _).append_left _).append_right _

/-- Lines start with the first one and go on with the others. -/
lemma joinLines_cons (text : String) (texts : List String) :
    ∃ rest, joinLines (text :: texts) = text ++ rest ∧ StandsIn (joinLines texts) rest := by
  cases texts with
  | nil =>
    refine ⟨"", ?_, refl _⟩
    rw [joinLines, String.intercalate_singleton, String.append_empty]
  | cons next texts =>
    refine ⟨"\n" ++ joinLines (next :: texts), ?_, (refl _).append_left _⟩
    rw [joinLines, String.intercalate_cons_cons, String.append_assoc]
    rfl

end StandsIn

/-- Where the lines of a block stand, those of the blocks in it stand too. -/
lemma Statement.standsIn_block {body : List Statement} {text : String}
    (block : StandsIn (joinLines (Statement.scripts body)) text)
    (inner : ∀ b ∈ Statement.bodiesAll body,
      StandsIn (joinLines (Statement.scripts b)) (joinLines (Statement.scripts body))) :
    ∀ b ∈ body :: Statement.bodiesAll body, StandsIn (joinLines (Statement.scripts b)) text :=
  List.forall_mem_cons.mpr ⟨block, fun b mem => (inner b mem).trans block⟩

mutual

/-- The lines of each block of a statement stand in its script, however deep the block is. -/
lemma Statement.standsIn_script :
    ∀ s : Statement, ∀ body ∈ s.bodies, StandsIn (joinLines (Statement.scripts body)) s.script
  | .declaration _ => List.forall_mem_nil _
  | .binding _ => List.forall_mem_nil _
  | .conditional test consequent alternate => by
    rw [Statement.bodies, ← List.cons_append, List.forall_mem_append]
    constructor
    · apply Statement.standsIn_block
      · exact ((StandsIn.braced _).append_left _).append_right _
      · exact Statement.standsIn_joinLines consequent
    · intro body mem
      exact (Statement.standsIn_alternate alternate body mem).append_left _
  | .loop _ body => by
    apply Statement.standsIn_block
    · exact (StandsIn.braced _).append_left _
    · exact Statement.standsIn_joinLines body
  | .block body => by
    apply Statement.standsIn_block
    · exact StandsIn.braced _
    · exact Statement.standsIn_joinLines body
  | .expression _ => List.forall_mem_nil _

/-- The lines of each block of some statements stand in their lines. -/
lemma Statement.standsIn_joinLines :
    ∀ ss : List Statement, ∀ body ∈ Statement.bodiesAll ss,
      StandsIn (joinLines (Statement.scripts body)) (joinLines (Statement.scripts ss))
  | [] => List.forall_mem_nil _
  | s :: ss => by
    obtain ⟨rest, lines, stands⟩ := StandsIn.joinLines_cons s.script (Statement.scripts ss)
    rw [Statement.bodiesAll, List.forall_mem_append, Statement.scripts, lines]
    constructor
    · intro body mem
      exact (Statement.standsIn_script s body mem).append_right rest
    · intro body mem
      exact ((Statement.standsIn_joinLines ss body mem).trans stands).append_left _

/-- The lines of the second block of a choice and of each block in it stand in its script. -/
lemma Statement.standsIn_alternate :
    ∀ alternate : Option (List Statement), ∀ body ∈ Statement.bodiesAlternate alternate,
      StandsIn (joinLines (Statement.scripts body)) (Statement.scriptAlternate alternate)
  | none => List.forall_mem_nil _
  | some body => by
    apply Statement.standsIn_block
    · exact (StandsIn.braced _).append_left _
    · exact Statement.standsIn_joinLines body

end

/-- The lines of every block stand in the script of a program. -/
lemma Program.standsIn_script (p : Program) :
    ∀ body ∈ p.bodies, StandsIn (joinLines (Statement.scripts body)) p.script :=
  List.forall_mem_cons.mpr ⟨.refl _, Statement.standsIn_joinLines p.body⟩

/-- Two statements one after the other stand in lines one after the other. -/
lemma Statement.standsIn_lines {s t : Statement} {body : List Statement} (next : [s, t] <:+: body) :
    StandsIn (s.script ++ "\n" ++ t.script) (joinLines (Statement.scripts body)) := by
  obtain ⟨before, after, rfl⟩ := next
  induction before with
  | nil =>
    obtain ⟨rest, lines, _⟩ := StandsIn.joinLines_cons t.script (Statement.scripts after)
    have both : joinLines (s.script :: t.script :: Statement.scripts after) =
        s.script ++ "\n" ++ t.script ++ rest := by
      rw [joinLines, String.intercalate_cons_cons, ← joinLines, lines]
      exact String.append_assoc.symm
    change StandsIn _ (joinLines (s.script :: t.script :: Statement.scripts after))
    rw [both]
    exact (StandsIn.refl _).append_right rest
  | cons u before ih =>
    obtain ⟨rest, lines, stands⟩ := StandsIn.joinLines_cons u.script (Statement.scripts (before ++ [s, t] ++ after))
    change StandsIn _ (joinLines (u.script :: Statement.scripts (before ++ [s, t] ++ after)))
    rw [lines]
    exact (ih.trans stands).append_left _

/-- Two statements one after the other, in the program or in a block of it, stand in lines one after the other
in the script. They stay apart exactly when the first one is no value by itself or the second one is no value
that starts with a parenthesis or with a minus sign. -/
theorem compile_staysApart_iff (source out : String) (eq : compile source = .ok out) :
    ∃ p, Program.ofSource source = .ok p ∧ p.toNative.script = out ∧
      ∀ body ∈ p.toNative.bodies, ∀ s t, [s, t] <:+: body →
        StandsIn (s.script ++ "\n" ++ t.script) out ∧
        (StaysApart s.script t.script ↔ ¬ (s.isValue = true ∧ t.goesOn = true)) := by
  obtain ⟨ts, p, eqt, eqp, rfl⟩ := compile_eq_ok_iff.mp eq
  obtain ⟨dv, nw⟩ := Program.ofTokensWithin_eq_ok_iff.mp eqp
  have wf := (dv.wellFormed (Token.ofSource_lexical eqt) nw).statements
  have tells : ∀ body ∈ p.toNative.bodies, ∀ s ∈ body, s.ScriptTells := by
    rw [Program.toNative, Program.relabel_eq, Program.bodies, List.forall_mem_cons]
    exact ⟨wf.scriptTells .program, wf.bodies_tell .program⟩
  refine ⟨p, Program.ofSource_eq_ok_iff.mpr ⟨ts, eqt, eqp⟩, rfl, ?_⟩
  intro body mem s t next
  have members := next.subset
  refine ⟨(Statement.standsIn_lines next).trans (p.toNative.standsIn_script body mem), ?_⟩
  exact (tells body mem s (members (by simp))).staysApart_iff (tells body mem t (members (by simp)))

/-- A value, and a block with a value and a relation that starts with a minus sign. -/
def valueAndBlock : Program :=
  ⟨[.expression (.number 1),
    .block [.expression (.null .native), .expression (.relation (.number (-2)) "==" (.name "a"))]]⟩

/-- The block stays apart from the value in front of it. The relation in it does not. -/
theorem compile_staysApart_iff_block :
    compile "I; \x7b nullus; (-II sit a) \x7d" = .ok "1\n\x7bnull\n-2 == a\x7d" ∧
    (∃ p, Program.ofSource "I; \x7b nullus; (-II sit a) \x7d" = .ok p ∧ p.toNative = valueAndBlock) ∧
    StandsIn ("1" ++ "\n" ++ "\x7bnull\n-2 == a\x7d") "1\n\x7bnull\n-2 == a\x7d" ∧
    StaysApart "1" "\x7bnull\n-2 == a\x7d" ∧
    StandsIn ("null" ++ "\n" ++ "-2 == a") "1\n\x7bnull\n-2 == a\x7d" ∧
    ¬ StaysApart "null" "-2 == a" := by
  have eq : compile "I; \x7b nullus; (-II sit a) \x7d" = .ok "1\n\x7bnull\n-2 == a\x7d" := by decide +kernel
  have tokens : Token.ofSource "I; \x7b nullus; (-II sit a) \x7d" =
      .ok [⟨.number 1, ⟨0, 1, 1⟩⟩, ⟨.semicolon, ⟨1, 1, 2⟩⟩, ⟨.opening .brace, ⟨3, 1, 4⟩⟩, ⟨.null, ⟨5, 1, 6⟩⟩,
        ⟨.semicolon, ⟨11, 1, 12⟩⟩, ⟨.opening .parenthesis, ⟨13, 1, 14⟩⟩, ⟨.number (-2), ⟨14, 1, 15⟩⟩,
        ⟨.operator "sit", ⟨18, 1, 19⟩⟩, ⟨.name "a", ⟨22, 1, 23⟩⟩, ⟨.closing .parenthesis, ⟨23, 1, 24⟩⟩,
        ⟨.closing .brace, ⟨25, 1, 26⟩⟩, ⟨.semicolon, ⟨26, 1, 27⟩⟩] := by
    decide +kernel
  obtain ⟨p, program, _, pairs⟩ := compile_staysApart_iff _ _ eq
  have native : p.toNative = valueAndBlock := by
    obtain ⟨_, eqt, eqp⟩ := Program.ofSource_eq_ok_iff.mp program
    obtain ⟨⟩ := tokens.symm.trans eqt
    cbv at eqp
    obtain ⟨⟩ := eqp
    rw [Program.toNative, Program.relabel_eq]
    rfl
  rw [native] at pairs
  -- The pair in the program, and the pair in the block.
  obtain ⟨stands, apart⟩ := pairs _ (.head _) _ _ List.infix_rfl
  obtain ⟨standsIn, apartIn⟩ := pairs _ (.tail _ (.head _)) _ _ List.infix_rfl
  have value : (Statement.expression (.number 1)).script = "1" := by decide +kernel
  have null : (Statement.expression (.null .native)).script = "null" := by decide +kernel
  have relation : (Statement.expression (.relation (.number (-2)) "==" (.name "a"))).script = "-2 == a" := by
    decide +kernel
  have block : (Statement.block [.expression (.null .native),
      .expression (.relation (.number (-2)) "==" (.name "a"))]).script = "\x7bnull\n-2 == a\x7d" := by
    decide +kernel
  rw [value, block] at stands apart
  rw [null, relation] at standsIn apartIn
  exact ⟨eq, ⟨p, program, native⟩, stands, apart.mpr (by decide), standsIn, mt apartIn.mp (by decide)⟩

/-- A negative number goes on with the number in the line in front of it. -/
theorem compile_runs_on :
    compile "I; -II" = .ok "1\n-2" ∧
    ∃ p, Program.ofSource "I; -II" = .ok p ∧
      p.toNative.bodies = [[.expression (.number 1), .expression (.number (-2))]] ∧
      (Statement.expression (.number 1)).script = "1" ∧
      (Statement.expression (.number (-2))).script = "-2" ∧
      ¬ StaysApart "1" "-2" := by
  have tokens : Token.ofSource "I; -II" =
      .ok [⟨.number 1, ⟨0, 1, 1⟩⟩, ⟨.semicolon, ⟨1, 1, 2⟩⟩, ⟨.number (-2), ⟨3, 1, 4⟩⟩, ⟨.semicolon, ⟨6, 1, 7⟩⟩] := by
    decide +kernel
  refine ⟨by decide +kernel, ⟨[.expression (.number 1), .expression (.number (-2))]⟩,
    Program.ofSource_eq_ok_iff.mpr ⟨_, tokens, ?_⟩, ?_, by decide +kernel, by decide +kernel, ?_⟩
  · cbv
  · rw [Program.toNative, Program.relabel_eq]
    rfl
  · rintro (ends | apart)
    · exact absurd ends (by decide)
    · exact absurd apart (by decide)

end LatinToScript
