import LatinToScript.Proofs.Program.WellFormed
import LatinToScript.Proofs.Token.Source
import LatinToScript.Proofs.Token.Spelling

/-!
# The Latin text of a program

`Program.latin` writes a program down in the source language: its tokens with single blanks between them,
a semicolon after each declaration, and parentheses exactly around the relations that are operands or
statements. A well-formed program comes back from its Latin text, and every program that comes from a
text is well formed, so the well-formed programs are just those that can be written.
-/

namespace LatinToScript

/-! ## The tokens of a program -/

/-- The keyword of a declaration, in whichever language it is worded. -/
def DeclarationKind.binding : DeclarationKind → Binding
  | .latin b => b
  | .native b => b

/-- The tokens of an operand. -/
def Expression.operandTokens : Expression → List TokenKind
  | .name n => [.name n]
  | .number value => [.number value]
  | .text t => [.text t]
  | .boolean value => [.boolean value.script]
  | .null _ => [.null]
  | .relation left word right =>
    .opening .parenthesis ::
      (left.operandTokens ++ .operator word :: (right.operandTokens ++ [.closing .parenthesis]))

/-- The tokens of a value or a test, which needs no parentheses. -/
def Expression.tokens : Expression → List TokenKind
  | .relation left word right => left.operandTokens ++ .operator word :: right.operandTokens
  | e => e.operandTokens

/-- The tokens of a declarator. -/
def Declarator.tokens (d : Declarator) : List TokenKind :=
  .name d.name :: .copula :: d.value.tokens

/-- The tokens of a declaration. -/
def Declaration.tokens (d : Declaration) : List TokenKind :=
  .keyword (.declare d.kind.binding) :: (d.declarators.flatMap Declarator.tokens ++ [.semicolon])

/-- Tokens between braces. -/
def enclosedInBraces (ks : List TokenKind) : List TokenKind :=
  .opening .brace :: (ks ++ [.closing .brace])

mutual

/-- The tokens of a statement. There are none for the second block of a choice. -/
def Statement.tokens : Statement → List TokenKind
  | .declaration d => d.tokens
  | .binding d => d.tokens
  | .conditional test consequent _ =>
    .keyword (.control .si) ::
      (test.toExpression.tokens ++ enclosedInBraces (Statement.tokensAll consequent))
  | .loop test body =>
    .keyword (.control .dum) ::
      (test.toExpression.tokens ++ enclosedInBraces (Statement.tokensAll body))
  | .block body => enclosedInBraces (Statement.tokensAll body)
  | .expression e => e.operandTokens

/-- The tokens of some statements. -/
def Statement.tokensAll : List Statement → List TokenKind
  | [] => []
  | s :: ss => s.tokens ++ Statement.tokensAll ss

end

/-- The text of a program in the source language. -/
def Program.latin (p : Program) : String :=
  spaced (Statement.tokensAll p.body)

/-! ## Expressions -/

/-- Well-formed operands have tokens of a text, from which they are derived. -/
lemma Expression.WellFormed.operandTokens {e : Expression} (wf : e.WellFormed) :
    DerivesOperand e.operandTokens e ∧ ∀ k ∈ e.operandTokens, k.Lexical := by
  induction e with
  | name n => exact ⟨.name, List.forall_mem_singleton.mpr wf⟩
  | number value => exact ⟨.literal .number, List.forall_mem_singleton.mpr wf⟩
  | text t => exact ⟨.literal .text, List.forall_mem_singleton.mpr wf⟩
  | boolean value =>
    cases value with
    | word w => exact ⟨.literal .boolean, List.forall_mem_singleton.mpr wf⟩
    | native b => exact wf.elim
  | null value =>
    cases value with
    | word w =>
      obtain rfl : w = nullWord := wf
      exact ⟨.literal .null, List.forall_mem_singleton.mpr trivial⟩
    | native => exact wf.elim
  | relation left word right ihl ihr =>
    obtain ⟨wl, wo, wr⟩ := wf
    obtain ⟨dl, lexl⟩ := ihl wl
    obtain ⟨dr, lexr⟩ := ihr wr
    refine ⟨.paren (.relation dl dr), ?_⟩
    simp only [Expression.operandTokens, List.forall_mem_cons, List.forall_mem_append]
    exact ⟨trivial, lexl, wo, lexr, trivial, List.forall_mem_nil _⟩

/-- The tokens of a value are derived as this value, and a text can have them. -/
lemma Expression.WellFormed.tokens {e : Expression} (wf : e.WellFormed) :
    DerivesExpression e.tokens e ∧ ∀ k ∈ e.tokens, k.Lexical := by
  cases e with
  | relation left word right =>
    obtain ⟨wl, wo, wr⟩ := wf
    obtain ⟨dl, lexl⟩ := wl.operandTokens
    obtain ⟨dr, lexr⟩ := wr.operandTokens
    refine ⟨.relation dl dr, ?_⟩
    simp only [Expression.tokens, List.forall_mem_cons, List.forall_mem_append]
    exact ⟨lexl, wo, lexr⟩
  | _ => exact ⟨.operand wf.operandTokens.1, wf.operandTokens.2⟩

/-- The tokens of operands nest as deep as these. -/
lemma Expression.WellFormed.operandTokens_within {e : Expression} (wf : e.WellFormed) {limit : Nat}
    (le : e.nesting ≤ limit) : NestedWithin limit e.operandTokens := by
  induction e generalizing limit with
  | relation left word right ihl ihr =>
    obtain ⟨wl, _, wr⟩ := wf
    cases limit with
    | zero => exact absurd le (Nat.not_succ_le_zero _)
    | succ limit =>
      obtain ⟨lel, ler⟩ := Nat.max_le.mp (Nat.le_of_succ_le_succ le)
      exact (nestedWithin_paren_iff wl.operandTokens.1.nested wr.operandTokens.1.nested).mpr
        ⟨ihl wl lel, ihr wr ler⟩
  | _ => exact nestedWithin_single rfl

/-- The tokens of a value are nested as deep as its relations are. -/
lemma Expression.WellFormed.tokens_within {e : Expression} (wf : e.WellFormed) {limit : Nat}
    (le : e.valueNesting ≤ limit) : NestedWithin limit e.tokens := by
  cases e with
  | relation left word right =>
    obtain ⟨wl, _, wr⟩ := wf
    obtain ⟨lel, ler⟩ := Nat.max_le.mp le
    rw [Expression.tokens, wl.operandTokens.1.nested.within_append_iff,
      nestedWithin_cons_iff rfl rfl]
    exact ⟨wl.operandTokens_within lel, wr.operandTokens_within ler⟩
  | _ => exact nestedWithin_single rfl

/-! ## Declarations -/

/-- The tokens of a declarator are derived as this declarator, and a text can have them. -/
lemma Declarator.WellFormed.tokens {d : Declarator} (wf : d.WellFormed) :
    DerivesDeclarator d.tokens d ∧ ∀ k ∈ d.tokens, k.Lexical := by
  obtain ⟨dv, lex⟩ := wf.value.tokens
  refine ⟨.bind dv, ?_⟩
  simp only [Declarator.tokens, List.forall_mem_cons]
  exact ⟨wf.name, trivial, lex⟩

/-- The tokens of declarators are derived as these declarators, and a text can have them. -/
lemma Declarator.WellFormed.tokensAll {ds : List Declarator} (some : ds ≠ [])
    (wf : ∀ d ∈ ds, d.WellFormed) :
    DerivesDeclarators (ds.flatMap Declarator.tokens) ds ∧
      ∀ k ∈ ds.flatMap Declarator.tokens, k.Lexical := by
  induction ds with
  | nil => exact absurd rfl some
  | cons d ds ih =>
    rw [List.forall_mem_cons] at wf
    obtain ⟨dv, lex⟩ := wf.1.tokens
    rw [List.flatMap_cons, List.forall_mem_append]
    cases ds with
    | nil =>
      rw [List.flatMap_nil, List.append_nil]
      exact ⟨.one dv, lex, List.forall_mem_nil _⟩
    | cons d' ds =>
      obtain ⟨dvs, lexs⟩ := ih (List.cons_ne_nil _ _) wf.2
      exact ⟨.cons dv dvs, lex, lexs⟩

/-- The tokens of declarators are nested as deep as the relations of the deepest one. -/
lemma Declarator.WellFormed.tokensAll_within {ds : List Declarator}
    (wf : ∀ d ∈ ds, d.WellFormed) {limit : Nat} (le : Declarator.nestingAll ds ≤ limit) :
    NestedWithin limit (ds.flatMap Declarator.tokens) := by
  induction ds with
  | nil => exact nestedWithin_nil
  | cons d ds ih =>
    rw [List.forall_mem_cons] at wf
    obtain ⟨led, leds⟩ := Nat.max_le.mp le
    rw [List.flatMap_cons, wf.1.tokens.1.nested.within_append_iff, Declarator.tokens,
      nestedWithin_cons_iff rfl rfl, nestedWithin_cons_iff rfl rfl]
    exact ⟨wf.1.value.tokens_within led, ih wf.2 leds⟩

/-- The tokens of a declaration are derived as this declaration in front of anything, and a text can have them. -/
lemma Declaration.WellFormed.tokens {d : Declaration} (wf : d.WellFormed) (rest : List TokenKind) :
    DerivesDeclaration d.tokens rest d ∧ ∀ k ∈ d.tokens, k.Lexical := by
  obtain ⟨kind, ds⟩ := d
  obtain ⟨⟨binding, rfl⟩, some, wfs⟩ := wf
  obtain ⟨dv, lex⟩ := Declarator.WellFormed.tokensAll some wfs
  refine ⟨.declare dv .semicolon, ?_⟩
  simp only [Declaration.tokens, List.forall_mem_cons, List.forall_mem_append]
  exact ⟨trivial, lex, trivial, List.forall_mem_nil _⟩

/-- The tokens of a declaration are nested as deep as the relations of its declarators. -/
lemma Declaration.WellFormed.tokens_within {d : Declaration} (wf : d.WellFormed) {limit : Nat}
    (le : Declarator.nestingAll d.declarators ≤ limit) : NestedWithin limit d.tokens := by
  have nested := (Declarator.WellFormed.tokensAll wf.ne_nil wf.declarators).1.nested
  rw [Declaration.tokens, nestedWithin_cons_iff rfl rfl, nested.within_append_iff]
  exact ⟨Declarator.WellFormed.tokensAll_within wf.declarators le, nestedWithin_single rfl⟩

/-! ## Statements -/

/-- A control statement is derived from its keyword, the tokens of its test and those of its block. -/
lemma Control.derives (control : Control) {test : Relation} {body : List Statement}
    {ks ls rest : List TokenKind} (dt : DerivesExpression ks test.toExpression)
    (db : DerivesBlock ls rest body) :
    DerivesStatement (.keyword (.control control) :: (ks ++ ls)) rest
      (control.statement test body) :=
  .control dt db

/-- A text can have the keyword and the test of a control statement in front of what it can have anyway. -/
lemma Control.lexical (control : Control) {test : Relation} {ls : List TokenKind}
    (wf : test.WellFormed) (lex : ∀ k ∈ ls, k.Lexical) :
    ∀ k ∈ .keyword (.control control) :: (test.toExpression.tokens ++ ls), k.Lexical := by
  rw [List.forall_mem_cons, List.forall_mem_append]
  exact ⟨trivial, (Expression.WellFormed.tokens wf).2, lex⟩

/-- The keyword and the test of a control statement are nested as deep as the relation is. -/
lemma Control.within (control : Control) {test : Relation} {ls : List TokenKind} {limit : Nat}
    (wf : test.WellFormed) (le : test.toExpression.valueNesting ≤ limit)
    (nw : NestedWithin limit ls) :
    NestedWithin limit (.keyword (.control control) :: (test.toExpression.tokens ++ ls)) := by
  rw [nestedWithin_cons_iff rfl rfl,
    (Expression.WellFormed.tokens wf).1.nested.within_append_iff]
  exact ⟨Expression.WellFormed.tokens_within wf le, nw⟩

mutual

/-- Well-formed statements are derived from their tokens, whatever follows these. -/
lemma Statement.WellFormed.derives {s : Statement} (wf : s.WellFormed) (rest : List TokenKind) :
    DerivesStatement s.tokens rest s := by
  cases s with
  | declaration d => exact .declaration (Declaration.WellFormed.tokens wf rest).1
  | binding d => exact .binding (Declarator.WellFormed.tokens wf).1
  | conditional test consequent alternate =>
    obtain ⟨wt, wb, rfl⟩ := wf
    exact Control.derives .si (Expression.WellFormed.tokens wt).1
      (Statement.WellFormedAll.derives_block wb rest)
  | loop test body =>
    exact Control.derives .dum (Expression.WellFormed.tokens wf.1).1
      (Statement.WellFormedAll.derives_block wf.2 rest)
  | block body => exact .block (Statement.WellFormedAll.derives_block wf rest)
  | expression e =>
    obtain ⟨we, noname⟩ := wf
    -- Of the operands, a name alone is no statement.
    have dv := we.operandTokens.1
    rw [Statement.tokens]
    generalize e.operandTokens = ks at dv
    cases dv with
    | literal dv => exact .literal dv
    | name => cases noname
    | paren dv => exact .paren dv

/-- Statements in braces are derived as a block. -/
lemma Statement.WellFormedAll.derives_block {body : List Statement}
    (wf : Statement.WellFormedAll body) (rest : List TokenKind) :
    DerivesBlock (enclosedInBraces (Statement.tokensAll body)) rest body := by
  have none : DerivesStatements [] (.closing .brace :: rest) [] := .nil
  have dv := Statement.WellFormedAll.derives wf none
  rw [List.append_nil] at dv
  exact .braces dv

/-- Well-formed statements in a row are derived from their tokens, and from semicolons after them. -/
lemma Statement.WellFormedAll.derives {ss : List Statement} (wf : Statement.WellFormedAll ss)
    {ls rest : List TokenKind} (ending : DerivesStatements ls rest []) :
    DerivesStatements (Statement.tokensAll ss ++ ls) rest ss := by
  cases ss with
  | nil => exact ending
  | cons s ss =>
    rw [Statement.tokensAll, List.append_assoc]
    exact .cons (Statement.WellFormed.derives wf.1 _) (Statement.WellFormedAll.derives wf.2 ending)

end

mutual

/-- A text can have the tokens of a statement. -/
lemma Statement.WellFormed.lexical {s : Statement} (wf : s.WellFormed) :
    ∀ k ∈ s.tokens, k.Lexical := by
  cases s with
  | declaration d => exact (Declaration.WellFormed.tokens wf []).2
  | binding d => exact (Declarator.WellFormed.tokens wf).2
  | conditional test consequent alternate =>
    exact Control.lexical .si wf.1 (Statement.WellFormedAll.lexical_block wf.2.1)
  | loop test body =>
    exact Control.lexical .dum wf.1 (Statement.WellFormedAll.lexical_block wf.2)
  | block body => exact Statement.WellFormedAll.lexical_block wf
  | expression e => exact wf.1.operandTokens.2

/-- A text can have the tokens of a block. -/
lemma Statement.WellFormedAll.lexical_block {body : List Statement}
    (wf : Statement.WellFormedAll body) :
    ∀ k ∈ enclosedInBraces (Statement.tokensAll body), k.Lexical := by
  simp only [enclosedInBraces, List.forall_mem_cons, List.forall_mem_append]
  exact ⟨trivial, Statement.WellFormedAll.lexical wf, trivial, List.forall_mem_nil _⟩

/-- A text can have the tokens of statements. -/
lemma Statement.WellFormedAll.lexical {ss : List Statement} (wf : Statement.WellFormedAll ss) :
    ∀ k ∈ Statement.tokensAll ss, k.Lexical := by
  cases ss with
  | nil => exact List.forall_mem_nil _
  | cons s ss =>
    rw [Statement.tokensAll, List.forall_mem_append]
    exact ⟨Statement.WellFormed.lexical wf.1, Statement.WellFormedAll.lexical wf.2⟩

end

/-- The brackets of statements are nested. -/
lemma Statement.WellFormedAll.nested {ss : List Statement} (wf : Statement.WellFormedAll ss) :
    Nested (Statement.tokensAll ss) := by
  have none : DerivesStatements [] [] [] := .nil
  have dv := Statement.WellFormedAll.derives wf none
  rw [List.append_nil] at dv
  exact dv.nested

mutual

/-- The tokens of a statement are nested as deep as its blocks and relations are. -/
lemma Statement.WellFormed.tokens_within {s : Statement} (wf : s.WellFormed) {limit : Nat}
    (le : s.nesting ≤ limit) : NestedWithin limit s.tokens := by
  cases s with
  | declaration d => exact Declaration.WellFormed.tokens_within wf le
  | binding d =>
    rw [Statement.tokens, Declarator.tokens, nestedWithin_cons_iff rfl rfl,
      nestedWithin_cons_iff rfl rfl]
    exact (Declarator.WellFormed.value wf).tokens_within le
  | conditional test consequent alternate =>
    obtain ⟨wt, wb, _⟩ := wf
    obtain ⟨les, leb, _⟩ := And.imp_right Nat.max_le.mp (Nat.max_le.mp le)
    exact Control.within .si wt les (Statement.WellFormedAll.block_within wb leb)
  | loop test body =>
    obtain ⟨wt, wb⟩ := wf
    obtain ⟨les, leb⟩ := Nat.max_le.mp le
    exact Control.within .dum wt les (Statement.WellFormedAll.block_within wb leb)
  | block body => exact Statement.WellFormedAll.block_within wf le
  | expression e => exact wf.1.operandTokens_within le

/-- The braces of a block need one level more than its statements. -/
lemma Statement.WellFormedAll.block_within {body : List Statement}
    (wf : Statement.WellFormedAll body) {limit : Nat} (lt : Statement.nestingAll body < limit) :
    NestedWithin limit (enclosedInBraces (Statement.tokensAll body)) := by
  cases limit with
  | zero => exact absurd lt (Nat.not_lt_zero _)
  | succ limit =>
    rw [enclosedInBraces, (Statement.WellFormedAll.nested wf).within_enclosed_iff]
    exact Statement.WellFormedAll.tokens_within wf (Nat.le_of_lt_succ lt)

/-- The tokens of statements are nested as deep as the deepest one is. -/
lemma Statement.WellFormedAll.tokens_within {ss : List Statement}
    (wf : Statement.WellFormedAll ss) {limit : Nat} (le : Statement.nestingAll ss ≤ limit) :
    NestedWithin limit (Statement.tokensAll ss) := by
  cases ss with
  | nil => exact nestedWithin_nil
  | cons s ss =>
    obtain ⟨les, less⟩ := Nat.max_le.mp le
    rw [Statement.tokensAll, (Statement.WellFormed.derives wf.1 []).nested.within_append_iff]
    exact ⟨Statement.WellFormed.tokens_within wf.1 les,
      Statement.WellFormedAll.tokens_within wf.2 less⟩

end

/-! ## Programs -/

/-- A program that comes from a source is well formed. -/
lemma Program.wellFormed_of_source {source : String} {ts : List Token} {p : Program}
    (eqt : Token.ofSource source = .ok ts) (eqp : Program.ofTokens ts = .ok p) : p.WellFormed := by
  obtain ⟨dv, nw⟩ := Program.ofTokensWithin_eq_ok_iff.mp eqp
  exact dv.wellFormed (Token.ofSource_lexical eqt) nw

/-- A well-formed program comes back from its Latin text. -/
lemma Program.WellFormed.ofSource_latin {p : Program} (wf : p.WellFormed) :
    ∃ ts, Token.ofSource p.latin = .ok ts ∧ Program.ofTokens ts = .ok p := by
  -- The text may get a semicolon of its own at the end, which is an empty statement.
  obtain ⟨ending, cases, sp⟩ := spells_scannedText (Statement.WellFormedAll.lexical wf.statements)
  obtain ⟨ts, sc, eq⟩ := sp .start
  have none : DerivesStatements ending [] [] := by
    rcases cases with rfl | rfl
    · exact .nil
    · exact .semicolon .nil
  have dv : DerivesProgram (kinds ts) p := by
    rw [eq]
    exact Statement.WellFormedAll.derives wf.statements none
  have nw : NestedWithin 256 (kinds ts) := by
    rw [eq, (Statement.WellFormedAll.nested wf.statements).within_append_iff]
    refine ⟨Statement.WellFormedAll.tokens_within wf.statements wf.nesting, ?_⟩
    rcases cases with rfl | rfl
    · exact nestedWithin_nil
    · exact nestedWithin_single rfl
  refine ⟨ts, ?_, ?_⟩
  · exact Token.ofSource_eq_ok_iff.mpr ⟨sc, (DerivesStatements.nested dv).checkBalance_eq⟩
  · exact Program.ofTokensWithin_eq_ok_iff.mpr ⟨dv, nw⟩

/-- Every program that comes from a source is well formed, and every well-formed program comes back from
its Latin text. -/
theorem Program.wellFormed_and_latin_roundTrip :
    (∀ (source : String) (ts : List Token) (p : Program),
      Token.ofSource source = .ok ts → Program.ofTokens ts = .ok p → p.WellFormed) ∧
    ∀ p : Program, p.WellFormed →
      ∃ ts, Token.ofSource p.latin = .ok ts ∧ Program.ofTokens ts = .ok p := by
  refine ⟨?_, ?_⟩
  · intro source ts p eqt eqp
    exact Program.wellFormed_of_source eqt eqp
  · intro p wf
    exact wf.ofSource_latin

/-- A loop with a negative number, a relation as an operand and a quoted text. -/
def Program.quotingLoop : Program :=
  ⟨[.loop ⟨.name "a", "maior", .number (-2)⟩
    [.declaration ⟨.latin .dico,
      [⟨"b", .relation (.relation (.name "a") "additum" (.number 9)) "sit" (.text "c; d")⟩]⟩]]⟩

/-- The loop is written down and read back. -/
theorem Program.wellFormed_and_latin_roundTrip_quotingLoop :
    quotingLoop.latin =
      "dum a maior -II \x7b dico b esse ( a additum IX ) sit \"c; d\" ; \x7d" ∧
    quotingLoop.WellFormed ∧
    ∃ ts, Token.ofSource quotingLoop.latin = .ok ts ∧ Program.ofTokens ts = .ok quotingLoop := by
  have wf : quotingLoop.WellFormed := by decide
  obtain ⟨image, roundTrip⟩ := Program.wellFormed_and_latin_roundTrip
  obtain ⟨ts, eqt, eqp⟩ := roundTrip quotingLoop wf
  exact ⟨by decide +kernel, image _ ts _ eqt eqp, ts, eqt, eqp⟩

end LatinToScript
