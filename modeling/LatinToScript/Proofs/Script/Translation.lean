import LatinToScript.Compile
import LatinToScript.Proofs.Decimal
import LatinToScript.Proofs.Grammar.Acceptance
import LatinToScript.Proofs.Relabeling
import LatinToScript.Proofs.Script.Layout
import LatinToScript.Proofs.Token.Lexical

/-!
# The script says what the tokens say

Every token has a spelling in the script language (`TokenKind.target`), which is empty for parentheses
and semicolons. A script is the spellings of its tokens with layout between them (`Writes`): nothing is
lost, written twice, moved or exchanged for something else, and no two words run together. The proof goes
along the derivation of the program, so it needs no more of the parser than that it follows the grammar.
Without its layout the script of a source is therefore the spellings alone (`compile_withoutLayout`).
-/

namespace LatinToScript

/-! ## Spellings -/

/-- A number has no layout in it. -/
lemma Decimal.keeps_ofInt (value : Int) : Keeps (ofInt value) (ofInt value).toList :=
  keeps_of_class (fun c => c.isDigit || c == '-') (by decide) ofInt_chars

/-- How a token is spelled in the script language. -/
def TokenKind.target : TokenKind → String
  | .keyword (.declare .dico) => "var"
  | .keyword (.declare .constituo) => "const"
  | .keyword (.declare .pono) => "let"
  | .keyword (.control .si) => "if"
  | .keyword (.control .dum) => "while"
  | .name n => n
  | .copula => "="
  | .number value => toString value
  | .text t => "\"" ++ t ++ "\""
  | .boolean "verum" => "true"
  | .boolean "falsum" => "false"
  | .boolean word => word
  | .null => "null"
  | .operator "sit" => "=="
  | .operator "nonest" => "!="
  | .operator "maior" => ">"
  | .operator "minor" => "<"
  | .operator "additum" => "+"
  | .operator "detractum" => "-"
  | .operator "multiplicatum" => "*"
  | .operator "divisum" => "/"
  | .operator word => word
  | .opening .brace => "\x7b"
  | .closing .brace => "\x7d"
  | .opening .parenthesis => ""
  | .closing .parenthesis => ""
  | .semicolon => ""

/-- The spellings of tokens, one after the other. -/
def targets (ks : List TokenKind) : List Char :=
  ks.flatMap fun k => k.target.toList

/-- The spelling of the first token comes first. -/
@[simp] lemma targets_cons (k : TokenKind) (ks : List TokenKind) :
    targets (k :: ks) = k.target.toList ++ targets ks :=
  List.flatMap_cons

/-- Names are kept as they are. -/
lemma IsName.keeps {n : String} (nm : IsName n) : Keeps n n.toList :=
  keeps_of_class isWordChar (by decide) nm.word

/-- An operator word is exchanged for its symbol. -/
lemma operatorSymbol?_eq_target {word : String} (lex : (TokenKind.operator word).Lexical) :
    (operatorSymbol? word).getD word = (TokenKind.operator word).target := by
  have mem : word ∈ operatorWords := lex
  simp only [operatorWords, List.mem_cons, List.not_mem_nil, or_false] at mem
  rcases mem with rfl | rfl | rfl | rfl | rfl | rfl | rfl | rfl <;> rfl

/-! ## Texts that spell tokens -/

/-- A text is the spellings of tokens, one after the other, with layout between them. No spelling goes
on with the letters of the next one. -/
inductive Writes : List TokenKind → List Char → Prop where
  | nil :
    Writes [] []
  | layout {ks c text} :
    isLayout c = true →
    Writes ks text →
    Writes ks (c :: text)
  | token {k ks text} :
    k.Lexical →
    WordsApart k.target.toList text →
    Writes ks text →
    Writes (k :: ks) (k.target.toList ++ text)

/-- A string spells tokens. -/
def Written (ks : List TokenKind) (text : String) : Prop :=
  Writes ks text.toList

/-- Texts spell tokens, one after the other. -/
inductive WrittenAll : List TokenKind → List String → Prop where
  | nil :
    WrittenAll [] []
  | semicolon {ks texts} :
    WrittenAll ks texts →
    WrittenAll (.semicolon :: ks) texts
  | cons {ks ls text texts} :
    Written ks text →
    WrittenAll ls texts →
    WrittenAll (ks ++ ls) (text :: texts)

/-- Two texts spell their tokens one after the other, if no word goes on from one to the other. -/
lemma Writes.append {ks ls : List TokenKind} {text more : List Char} (sp : Writes ks text)
    (sm : Writes ls more) (apart : WordsApart text more) : Writes (ks ++ ls) (text ++ more) := by
  induction sp with
  | nil => exact sm
  | @layout ks c text lay _ ih =>
    refine .layout lay (ih ?_)
    intro d mem
    apply apart d
    rw [← List.singleton_append, List.getLast?_append, Option.mem_def.mp mem]
    rfl
  | @token k ks text lex seam _ ih =>
    rw [List.append_assoc]
    refine .token lex ?_ (ih ?_)
    · intro c mem word
      cases text with
      | cons d text => exact seam c mem word
      | nil =>
        rw [List.append_nil] at apart
        exact apart c mem word
    · intro c mem
      apply apart c
      rw [List.getLast?_append, Option.mem_def.mp mem]
      rfl

/-- A semicolon is not spelled, so a text spells it as well. -/
lemma Writes.semicolon {ks : List TokenKind} {text : List Char} (sp : Writes ks text) :
    Writes (.semicolon :: ks) text := by
  have lex : TokenKind.semicolon.Lexical := trivial
  exact .token lex nofun sp

/-- A text that starts and ends with characters that are in no word. -/
def separates (text : String) : Bool :=
  text.toList.head?.any (!isWordChar ·) && text.toList.getLast?.any (!isWordChar ·)

/-- A separator starts with a character that is in no word. -/
lemma stops_of_separates {m : String} (sep : separates m = true) : Stops isWordChar m.toList := by
  intro c mem
  rw [separates, Bool.and_eq_true, Option.mem_def.mp mem] at sep
  simpa using sep.1

/-- No word goes on behind a separator. -/
lemma wordsApart_of_separates {m : String} (sep : separates m = true) (front more : List Char) :
    WordsApart (front ++ m.toList) more := by
  rw [separates, Bool.and_eq_true] at sep
  intro c mem word
  rw [List.getLast?_append] at mem
  cases eq : m.toList.getLast? with
  | none =>
    rw [eq] at sep
    cases sep.2
  | some d =>
    rw [eq] at sep mem
    cases mem
    have other : (!isWordChar c) = true := sep.2
    rw [word] at other
    cases other

namespace Written

variable {ks ls ms : List TokenKind} {s t m : String}

/-- A token is written as its spelling. -/
lemma token {k : TokenKind} (lex : k.Lexical) : Written [k] k.target := by
  have sp : Writes [k] (k.target.toList ++ []) := .token lex (fun _ _ _ => nofun) .nil
  rwa [List.append_nil] at sp

/-- Layout spells no token. -/
lemma layout (all : s.toList.all isLayout = true) : Written [] s := by
  unfold Written
  generalize s.toList = text at all
  induction text with
  | nil => exact .nil
  | cons c text ih =>
    rw [List.all_cons, Bool.and_eq_true] at all
    exact .layout all.1 (ih all.2)

/-- A separator can be written behind a text. -/
lemma append_separator (sp : Written ks s) (sm : Written ms m) (sep : separates m = true) :
    Written (ks ++ ms) (s ++ m) := by
  unfold Written
  rw [String.toList_append]
  exact Writes.append sp sm fun _ _ _ => stops_of_separates sep

/-- A separator can be written in front of a text. -/
lemma separator_append (sm : Written ms m) (sp : Written ks s) (sep : separates m = true) :
    Written (ms ++ ks) (m ++ s) := by
  unfold Written
  rw [String.toList_append]
  exact Writes.append sm sp (wordsApart_of_separates sep [] _)

/-- Tokens that nothing is written for. -/
lemma append_nothing (sp : Written ks s) (sn : Writes ls []) : Written (ks ++ ls) s := by
  have both := Writes.append sp sn fun _ _ _ => nofun
  rwa [List.append_nil] at both

/-- Parentheses have no spelling. -/
lemma parens (sp : Written ks s) : Written (.opening .parenthesis :: (ks ++ [.closing .parenthesis])) s := by
  have lexo : (TokenKind.opening .parenthesis).Lexical := trivial
  have lexc : (TokenKind.closing .parenthesis).Lexical := trivial
  exact Writes.token lexo nofun (sp.append_nothing (.token lexc nofun .nil))

/-- Texts with a separator between them spell their tokens. -/
lemma between (sl : Written ks s) (sm : Written ms m) (sr : Written ls t) (sep : separates m = true) :
    Written (ks ++ ms ++ ls) (s ++ m ++ t) := by
  have front := sl.append_separator sm sep
  unfold Written at *
  rw [String.toList_append]
  apply front.append sr
  rw [String.toList_append]
  exact wordsApart_of_separates sep _ _

end Written

/-- Texts in lines of their own spell what they spell one after the other. -/
lemma WrittenAll.joinLines {ks : List TokenKind} {texts : List String} (sp : WrittenAll ks texts) :
    Written ks (joinLines texts) := by
  induction sp with
  | nil => exact .nil
  | semicolon _ ih => exact Writes.semicolon ih
  | @cons ks ls text texts st _ ih =>
    cases texts with
    | nil =>
      rw [LatinToScript.joinLines, String.intercalate_singleton]
      exact st.append_nothing ih
    | cons _ _ =>
      rw [LatinToScript.joinLines, String.intercalate_cons_cons]
      have lines := st.between (m := "\n") (.layout (by decide)) ih (by decide)
      rwa [List.append_nil] at lines

/-! ## Expressions -/

/-- The script of a literal spells its token. -/
lemma DerivesLiteral.written {ks : List TokenKind} {e : Expression} (dv : DerivesLiteral ks e)
    (lex : ∀ k ∈ ks, k.Lexical) (parent : NodeKind) :
    Written ks (e.relabel nativeWords parent).script := by
  cases dv with
  | @number value =>
    have sp := Written.token (lex _ List.mem_cons_self)
    rwa [TokenKind.target, ← Decimal.ofInt_eq_toString] at sp
  | text => exact .token (lex _ List.mem_cons_self)
  | @boolean word =>
    have sp := Written.token (lex _ List.mem_cons_self)
    have mem : word ∈ booleanWords := lex _ List.mem_cons_self
    simp only [booleanWords, List.mem_cons, List.not_mem_nil, or_false] at mem
    rcases mem with rfl | rfl
    · exact sp
    · exact sp
  | null => exact .token (lex _ List.mem_cons_self)

/-- A relation between operands is written as the tokens for it are spelled. -/
lemma Written.relation {ks ls : List TokenKind} {left right : String} {word : String}
    (sl : Written ks left) (sr : Written ls right) (lex : (TokenKind.operator word).Lexical) :
    Written (ks ++ .operator word :: ls)
      (left ++ " " ++ (operatorSymbol? word).getD word ++ " " ++ right) := by
  have space : Written [] " " := .layout (by decide)
  have symbol := (space.separator_append (.token lex) (by decide)).append_separator space (by decide)
  have sep : separates (" " ++ (TokenKind.operator word).target ++ " ") = true := by
    have mem : word ∈ operatorWords := lex
    simp only [operatorWords, List.mem_cons, List.not_mem_nil, or_false] at mem
    rcases mem with rfl | rfl | rfl | rfl | rfl | rfl | rfl | rfl <;> decide
  have sp := sl.between symbol sr sep
  rw [operatorSymbol?_eq_target lex]
  simpa only [String.append_assoc, List.append_assoc, List.nil_append, List.singleton_append] using sp

mutual

/-- An operand is written as its tokens are spelled. -/
lemma DerivesOperand.written {ks : List TokenKind} {e : Expression} :
    DerivesOperand ks e → (∀ k ∈ ks, k.Lexical) → ∀ parent,
      Written ks ((e.relabel nativeWords parent).parenthesize (e.relabel nativeWords parent).script)
  | .literal dv, lex, parent => by
    -- Only relations are put in parentheses.
    have sp := dv.written lex parent
    cases dv <;> exact sp
  | .name, lex, parent => .token (lex _ List.mem_cons_self)
  | .paren dv, lex, parent => by
    have sp := dv.written lex parent
    cases dv with
    | relation _ _ =>
      have opening : Written [] "(" := .layout (by decide)
      have closing : Written [] ")" := .layout (by decide)
      have enclosed := (opening.separator_append sp (by decide)).append_separator closing (by decide)
      rwa [List.append_nil] at enclosed

/-- The script of a relation spells the tokens of the relation in parentheses, which have no spelling. -/
lemma DerivesParen.written {ks : List TokenKind} {e : Expression} :
    DerivesParen ks e → (∀ k ∈ ks, k.Lexical) → ∀ parent,
      Written ks (e.relabel nativeWords parent).script
  | .relation dl dr, lex, parent => by
    simp only [List.forall_mem_cons, List.forall_mem_append] at lex
    obtain ⟨_, lexl, lexo, lexr, _⟩ := lex
    have sp := ((dl.written lexl .relation).relation (dr.written lexr .relation) lexo).parens
    rwa [List.append_assoc, List.cons_append] at sp

end

/-- The script of an expression spells its tokens. -/
lemma DerivesExpression.written {ks : List TokenKind} {e : Expression} (dv : DerivesExpression ks e)
    (lex : ∀ k ∈ ks, k.Lexical) (parent : NodeKind) :
    Written ks (e.relabel nativeWords parent).script := by
  cases dv with
  | operand dv =>
    cases dv with
    | literal dv => exact dv.written lex parent
    | name => exact DerivesOperand.name.written lex parent
    | paren dv => exact dv.written lex parent
  | relation dl dr =>
    simp only [List.forall_mem_cons, List.forall_mem_append] at lex
    obtain ⟨lexl, lexo, lexr⟩ := lex
    exact (dl.written lexl .relation).relation (dr.written lexr .relation) lexo

/-! ## Declarations -/

/-- The script of a declarator spells its tokens. -/
lemma DerivesDeclarator.written {ks : List TokenKind} {d : Declarator} (dv : DerivesDeclarator ks d)
    (lex : ∀ k ∈ ks, k.Lexical) : Written ks (d.relabel nativeWords).script := by
  cases dv with
  | @bind ks n e dv =>
    simp only [List.forall_mem_cons] at lex
    obtain ⟨lexn, lexc, lexe⟩ := lex
    have space : Written [] " " := .layout (by decide)
    have equals : Written [.copula] " = " :=
      (space.separator_append (.token lexc) (by decide)).append_separator space (by decide)
    have name : Written [.name n] n := .token lexn
    have sp := (name.between equals (dv.written lexe .declarator) (by decide)).append_separator (m := ";")
      (.layout (by decide)) (by decide)
    rwa [List.append_nil] at sp

/-- The scripts of declarators spell their tokens one after the other. -/
lemma DerivesDeclarators.written {ks : List TokenKind} {ds : List Declarator}
    (dv : DerivesDeclarators ks ds) (lex : ∀ k ∈ ks, k.Lexical) :
    WrittenAll ks ((ds.map (Declarator.relabel nativeWords)).map Declarator.script) := by
  induction dv with
  | one dv =>
    have sp := WrittenAll.cons (dv.written lex) .nil
    rwa [List.append_nil] at sp
  | cons dv _ ih =>
    rw [List.forall_mem_append] at lex
    exact .cons (dv.written lex.1) (ih lex.2)

/-- The end of a declaration is not spelled. -/
lemma EndsDeclaration.written {ending rest : List TokenKind} (ends : EndsDeclaration ending rest) :
    Writes ending [] := by
  cases ends with
  | semicolon => exact .semicolon .nil
  | brace => exact .nil
  | finish => exact .nil

/-- The script of a declaration spells its tokens, and its keyword only once. -/
lemma DerivesDeclaration.written {ks rest : List TokenKind} {d : Declaration}
    (dv : DerivesDeclaration ks rest d) (lex : ∀ k ∈ ks, k.Lexical) (parent : NodeKind) :
    Written ks (d.relabel nativeWords parent).script := by
  cases dv with
  | @declare ks ending rest binding ds dv ends =>
    simp only [List.forall_mem_cons, List.forall_mem_append] at lex
    have keyword : Written [.keyword (.declare binding)] binding.native := by
      cases binding <;> exact .token trivial
    have sp := keyword.between (m := " ") (.layout (by decide)) (dv.written lex.2.1).joinLines (by decide)
    exact sp.append_nothing ends.written

/-! ## Statements -/

/-- A block is written as its statements are, between its braces. -/
lemma WrittenAll.braced {ks : List TokenKind} {texts : List String} (sp : WrittenAll ks texts) :
    Written (.opening .brace :: (ks ++ [.closing .brace])) (braced texts) := by
  have opening : Written [.opening .brace] "\x7b" := .token trivial
  have closing : Written [.closing .brace] "\x7d" := .token trivial
  exact (opening.separator_append sp.joinLines (by decide)).append_separator closing (by decide)

/-- A control statement is written as its keyword, its test and its block are spelled. -/
lemma Written.control {test block : String} {ks ls : List TokenKind} (control : Control)
    (st : Written ks test) (sb : Written ls block) :
    Written (.keyword (.control control) :: (ks ++ ls)) (control.native ++ " (" ++ test ++ ") " ++ block) := by
  have keyword : Written [.keyword (.control control)] control.native := by
    cases control <;> exact .token trivial
  have front := keyword.between (m := " (") (.layout (by decide)) st (by decide)
  have sp := front.between (m := ") ") (.layout (by decide)) sb (by decide)
  simpa only [List.append_nil, List.append_assoc, List.cons_append, List.nil_append] using sp

mutual

/-- A statement is written as its tokens are spelled. -/
lemma DerivesStatement.written {ks rest : List TokenKind} {s : Statement} :
    DerivesStatement ks rest s → (∀ k ∈ ks, k.Lexical) → ∀ parent,
      Written ks (s.relabel nativeWords parent).script
  | @DerivesStatement.control _ _ _ control _ _ _ _ dt db, lex, parent => by
    simp only [List.forall_mem_cons, List.forall_mem_append] at lex
    obtain ⟨_, lext, lexb⟩ := lex
    cases control with
    | si =>
      -- There is no second block, so nothing is written for it.
      change Written _ (_ ++ "")
      rw [String.append_empty]
      exact Written.control .si (dt.written lext .conditional) (db.written lexb)
    | dum => exact Written.control .dum (dt.written lext .loop) (db.written lexb)
  | .declaration dv, lex, parent => dv.written lex parent
  | .binding dv, lex, _ => dv.written lex
  | .block dv, lex, _ => dv.written lex
  | .literal dv, lex, parent => dv.written lex parent
  | .paren dv, lex, parent => dv.written lex parent

/-- The script of a block spells its tokens. -/
lemma DerivesBlock.written {ks rest : List TokenKind} {body : List Statement} :
    DerivesBlock ks rest body → (∀ k ∈ ks, k.Lexical) →
      Written ks (braced (Statement.scripts (Statement.relabelAll nativeWords .block body)))
  | .braces dv, lex => by
    simp only [List.forall_mem_cons, List.forall_mem_append] at lex
    exact (dv.written lex.2.1 .block).braced

/-- The scripts of statements spell their tokens one after the other. -/
lemma DerivesStatements.written {ks rest : List TokenKind} {ss : List Statement} :
    DerivesStatements ks rest ss → (∀ k ∈ ks, k.Lexical) → ∀ parent,
      WrittenAll ks (Statement.scripts (Statement.relabelAll nativeWords parent ss))
  | .nil, _, _ => .nil
  | .semicolon dv, lex, parent => .semicolon (dv.written (List.forall_mem_cons.mp lex).2 parent)
  | .cons dv dvs, lex, parent => by
    rw [List.forall_mem_append] at lex
    exact .cons (dv.written lex.1 parent) (dvs.written lex.2 parent)

end

/-- The script of a program is written as its tokens are spelled. -/
lemma DerivesProgram.written {ks : List TokenKind} {p : Program} (dv : DerivesProgram ks p)
    (lex : ∀ k ∈ ks, k.Lexical) : Written ks p.toNative.script := by
  rw [Program.toNative, Program.relabel_eq]
  exact (DerivesStatements.written dv lex .program).joinLines

/-! ## Without layout -/

/-- The spelling of a token has closed quotes, and no layout outside of them. -/
lemma TokenKind.Lexical.keeps {k : TokenKind} (lex : k.Lexical) : Keeps k.target k.target.toList := by
  cases k with
  | name n => exact IsName.keeps lex
  | number value =>
    rw [target, ← Decimal.ofInt_eq_toString]
    exact Decimal.keeps_ofInt value
  | text t =>
    have kept := keeps_quoted (t := t) lex
    rwa [show ('"' :: (t.toList ++ ['"'])) = ("\"" ++ t ++ "\"").toList by simp] at kept
  | boolean word =>
    have mem : word ∈ booleanWords := lex
    simp only [booleanWords, List.mem_cons, List.not_mem_nil, or_false] at mem
    rcases mem with rfl | rfl <;> exact ⟨by decide, by decide⟩
  | operator word =>
    have mem : word ∈ operatorWords := lex
    simp only [operatorWords, List.mem_cons, List.not_mem_nil, or_false] at mem
    rcases mem with rfl | rfl | rfl | rfl | rfl | rfl | rfl | rfl <;> exact ⟨by decide, by decide⟩
  | keyword word =>
    cases word with
    | declare binding => cases binding <;> exact ⟨by decide, by decide⟩
    | control control => cases control <;> exact ⟨by decide, by decide⟩
  | opening bracket => cases bracket <;> exact ⟨by decide, by decide⟩
  | closing bracket => cases bracket <;> exact ⟨by decide, by decide⟩
  | copula => exact ⟨by decide, by decide⟩
  | null => exact ⟨by decide, by decide⟩
  | semicolon => exact ⟨by decide, by decide⟩

/-- A quote is no layout. -/
lemma ne_quote_of_isLayout {c : Char} (lay : isLayout c = true) : c ≠ '"' := by
  rintro rfl
  exact absurd lay (by decide)

/-- What is left of a text without its layout are the tokens that it spells. -/
lemma Writes.withoutLayout_eq {ks : List TokenKind} {text : List Char} (sp : Writes ks text) :
    endsQuoted false text = false ∧ withoutLayout false text = targets ks := by
  induction sp with
  | nil => exact ⟨rfl, rfl⟩
  | layout lay _ ih =>
    rw [endsQuoted, withoutLayout, if_neg (ne_quote_of_isLayout lay), if_neg (ne_quote_of_isLayout lay), lay]
    exact ih
  | token lex _ _ ih =>
    rw [endsQuoted_append, withoutLayout_append, lex.keeps.closed, lex.keeps.withoutLayout_eq, targets_cons]
    exact ⟨ih.1, congrArg _ ih.2⟩

/-- Without its layout the script of a program is the spellings of its tokens. -/
lemma DerivesProgram.keeps {ks : List TokenKind} {p : Program} (dv : DerivesProgram ks p)
    (lex : ∀ k ∈ ks, k.Lexical) : Keeps p.toNative.script (targets ks) := by
  obtain ⟨closed, eq⟩ := Writes.withoutLayout_eq (dv.written lex)
  exact ⟨closed, eq⟩

/-- A source has a program when it has tokens, and these are the tokens of the program. -/
lemma Program.ofSource_eq_ok_iff {source : String} {p : Program} :
    Program.ofSource source = .ok p ↔
      ∃ ts, Token.ofSource source = .ok ts ∧ Program.ofTokens ts = .ok p := by
  unfold Program.ofSource
  constructor
  · intro eq
    split at eq
    · cases eq
    · rename_i ts eqt
      split at eq
      · cases eq
      · rename_i eqp
        cases eq
        exact ⟨ts, eqt, eqp⟩
  · rintro ⟨ts, eqt, eqp⟩
    rw [eqt]
    dsimp only
    rw [eqp]

/-- A source is compiled when it has tokens, and these are the tokens of a program. -/
lemma compile_eq_ok_iff {source out : String} :
    compile source = .ok out ↔
      ∃ ts p, Token.ofSource source = .ok ts ∧ Program.ofTokens ts = .ok p ∧
        p.toNative.script = out := by
  unfold compile
  constructor
  · intro eq
    split at eq
    · cases eq
    · rename_i p eqs
      cases eq
      obtain ⟨ts, eqt, eqp⟩ := Program.ofSource_eq_ok_iff.mp eqs
      exact ⟨ts, p, eqt, eqp, rfl⟩
  · rintro ⟨ts, p, eqt, eqp, rfl⟩
    rw [Program.ofSource_eq_ok_iff.mpr ⟨ts, eqt, eqp⟩]

/-- Without its layout, the script of a source is the spellings of its tokens, in their order. -/
theorem compile_withoutLayout (source out : String) (eq : compile source = .ok out) :
    ∃ ts, Token.ofSource source = .ok ts ∧
      withoutLayout false out.toList = ts.flatMap fun t => t.kind.target.toList := by
  obtain ⟨ts, p, eqt, eqp, rfl⟩ := compile_eq_ok_iff.mp eq
  obtain ⟨dv, _⟩ := Program.ofTokensWithin_eq_ok_iff.mp eqp
  refine ⟨ts, eqt, ?_⟩
  rw [(dv.keeps (Token.ofSource_lexical eqt)).withoutLayout_eq, targets, kinds, List.flatMap_map]

/-- A declaration and a choice, with layout inside quotes and parentheses on both sides. -/
theorem compile_withoutLayout_choice :
    ∃ ts, Token.ofSource
        "dico a esse \"b; c\"; si (a additum -II) maior III \x7b b esse verum \x7d" = .ok ts ∧
      withoutLayout false "var a = \"b; c\";\nif ((a + -2) > 3) \x7bb = true;\x7d".toList =
        ts.flatMap fun t => t.kind.target.toList :=
  compile_withoutLayout _ _ (by decide +kernel)

end LatinToScript
