import LatinToScript.Proofs.Grammar.InStep

/-!
# Semicolons only separate

A semicolon behind another one or behind a brace stands where a statement may start, and is skipped. So with
it the tokens keep in step with what they are without it (`inStep_separated`), and parsing has the same
result, a fault included.

A semicolon in front of a closing brace or at the end may also be the end of a declaration, which does
without it there. Whether the tokens are a program is the same with it and without it, but a fault may be
another one. This is shown on derivations: a derivation of tokens is one of all tokens that differ from them
in such semicolons only (`DerivesStatements.alikeAtEndings`).
-/

namespace LatinToScript

/-! ## Behind a separator -/

/-- The second tokens are the first ones, perhaps with a semicolon more behind a separator. -/
inductive Separated : List Token → List Token → Prop where
  | refl {ts} :
    Separated ts ts
  | here {t u ts} :
    t.kind.isSeparator = true →
    u.kind = .semicolon →
    Separated (t :: ts) (t :: u :: ts)
  | cons {t ts us} :
    Separated ts us →
    Separated (t :: ts) (t :: us)

/-- Tokens keep in step with themselves when there is a semicolon more behind a separator. -/
lemma inStep_separated : InStep Eq Separated where
  nil := by
    rintro us ⟨⟩
    rfl
  cons := by
    intro t ts us sep
    cases sep with
    | refl => exact ⟨t, ts, rfl, ⟨rfl, rfl⟩, .inl .refl, fun _ => .refl⟩
    | @here _ u _ kt ku =>
      refine ⟨t, u :: ts, rfl, ⟨rfl, rfl⟩, .inr ⟨u, ts, rfl, ku, .refl⟩, ?_⟩
      intro other
      rw [kt] at other
      cases other
    | @cons _ _ us sep => exact ⟨t, us, rfl, ⟨rfl, rfl⟩, .inl sep, fun _ => sep⟩

/-- A semicolon can be put behind a separator anywhere in the tokens. -/
lemma Separated.insert {x t : Token} (sep : x.kind.isSeparator = true) (kt : t.kind = .semicolon)
    (pre post : List Token) : Separated (pre ++ x :: post) (pre ++ x :: t :: post) := by
  induction pre with
  | nil => exact .here sep kt
  | cons _ _ ih => exact .cons ih

/-- Faults that are alike at equal places are equal. -/
lemma ParseError.Alike.eq {e f : ParseError} (alike : ParseError.Alike Eq e f) : e = f := by
  cases alike with
  | unexpectedEnd => rfl
  | unexpectedToken eq | expected eq | missingCondition eq | missingOpeningBrace eq
  | missingClosingBrace eq | emptyDeclaration eq | nestingTooDeep eq =>
    subst eq
    rfl

/-- A semicolon more behind a separator changes nothing. -/
lemma Separated.statements_eq {ts us : List Token} {room : Nat} (sep : Separated ts us) :
    Grammar.statements room us = Grammar.statements room ts := by
  have alike : ResultsAlike (ParseError.Alike Eq) Eq (Grammar.statements room ts)
      (Grammar.statements room us) := Grammar.statements_inStep inStep_separated (.inl sep)
  cases eq : Grammar.statements room ts with
  | ok ss =>
    obtain ⟨_, equ, rfl⟩ := (eq ▸ alike).exists_ok
    exact equ
  | error e =>
    obtain ⟨f, eqf, same⟩ := (eq ▸ alike).exists_error
    rw [eqf, same.eq]

/-! ## In front of the end of a block or of the program -/

/-- Nothing comes next, or a closing brace does. -/
def AtEnding (ks : List TokenKind) : Prop :=
  ∀ k, ks.head? = some k → k = .closing .brace

/-- The tokens are the same up to semicolons in front of closing braces and of the end. -/
inductive AlikeAtEndings : List TokenKind → List TokenKind → Prop where
  | nil :
    AlikeAtEndings [] []
  | cons {k ks ls} :
    AlikeAtEndings ks ls →
    AlikeAtEndings (k :: ks) (k :: ls)
  | insert {ks ls} :
    AtEnding ks →
    AlikeAtEndings ks ls →
    AlikeAtEndings ks (.semicolon :: ls)
  | delete {ks ls} :
    AtEnding ls →
    AlikeAtEndings ks ls →
    AlikeAtEndings (.semicolon :: ks) ls

/-- Tokens without separators. -/
def Unseparated (ks : List TokenKind) : Prop :=
  ∀ k ∈ ks, k.isSeparator = false

/-- In front of a token other than a closing brace nothing ends. -/
lemma not_atEnding_cons {k : TokenKind} {ks : List TokenKind} (other : k ≠ .closing .brace) :
    ¬ AtEnding (k :: ks) :=
  fun ending => other (ending k rfl)

namespace AlikeAtEndings

variable {k : TokenKind} {ks ls us rest : List TokenKind}

/-- Tokens are alike themselves. -/
lemma refl (ks : List TokenKind) : AlikeAtEndings ks ks := by
  induction ks with
  | nil => exact .nil
  | cons _ _ ih => exact .cons ih

/-- Where a semicolon is put in on one side it is left out on the other. -/
lemma symm (alike : AlikeAtEndings ks ls) : AlikeAtEndings ls ks := by
  induction alike with
  | nil => exact .nil
  | cons _ ih => exact .cons ih
  | insert ending _ ih => exact .delete ending ih
  | delete ending _ ih => exact .insert ending ih

/-- A semicolon can be put in front of an ending, whatever comes before it. -/
lemma append_semicolon (ending : AtEnding rest) (ks : List TokenKind) :
    AlikeAtEndings (ks ++ rest) (ks ++ .semicolon :: rest) := by
  induction ks with
  | nil => exact .insert ending (.refl rest)
  | cons _ _ ih => exact .cons ih

/-- A token other than a semicolon and a closing brace is there on both sides. -/
lemma exists_cons (alike : AlikeAtEndings (k :: ks) us) (ns : k ≠ .semicolon)
    (nb : k ≠ .closing .brace) : ∃ ls, us = k :: ls ∧ AlikeAtEndings ks ls := by
  cases alike with
  | cons alike => exact ⟨_, rfl, alike⟩
  | insert ending _ => exact absurd ending (not_atEnding_cons nb)
  | delete _ _ => exact absurd rfl ns

/-- Tokens without separators stay together. -/
lemma exists_append (alike : AlikeAtEndings (ks ++ rest) us) (plain : Unseparated ks) :
    ∃ rest', us = ks ++ rest' ∧ AlikeAtEndings rest rest' := by
  induction ks generalizing us with
  | nil => exact ⟨us, rfl, alike⟩
  | cons k ks ih =>
    obtain ⟨other, plain⟩ := List.forall_mem_cons.mp plain
    have ns : k ≠ .semicolon := by
      rintro rfl
      cases other
    have nb : k ≠ .closing .brace := by
      rintro rfl
      cases other
    obtain ⟨vs, rfl, tail⟩ := alike.exists_cons ns nb
    obtain ⟨rest', rfl, after⟩ := ih tail plain
    exact ⟨rest', rfl, after⟩

/-- The semicolons in front are read as no statements. -/
lemma exists_statements (alike : AlikeAtEndings ks us) :
    ∃ ls rest, us = ls ++ rest ∧ DerivesStatements ls rest [] ∧ AlikeAtEndings ks rest ∧
      (AtEnding ks → rest.head? = ks.head?) := by
  induction alike with
  | nil => exact ⟨[], [], rfl, .nil, .nil, fun _ => rfl⟩
  | @cons k ks ls alike => exact ⟨[], k :: ls, rfl, .nil, .cons alike, fun _ => rfl⟩
  | insert _ _ ih =>
    obtain ⟨ls, rest, rfl, dvs, alike, next⟩ := ih
    exact ⟨.semicolon :: ls, rest, rfl, .semicolon dvs, alike, next⟩
  | @delete ks ls ending alike =>
    refine ⟨[], ls, rfl, .nil, .delete ending alike, ?_⟩
    intro ending'
    exact absurd ending' (not_atEnding_cons nofun)

end AlikeAtEndings

/-! ### Expressions and declarators -/

/-- Without tokens there is no separator. -/
lemma unseparated_nil : Unseparated [] :=
  List.forall_mem_nil _

/-- A token that is no separator can be put in front. -/
lemma Unseparated.cons {k : TokenKind} {ks : List TokenKind} (other : k.isSeparator = false)
    (plain : Unseparated ks) : Unseparated (k :: ks) :=
  List.forall_mem_cons.mpr ⟨other, plain⟩

/-- Tokens without separators have none one after the other. -/
lemma Unseparated.append {ks ls : List TokenKind} (plain : Unseparated ks) (plain' : Unseparated ls) :
    Unseparated (ks ++ ls) :=
  List.forall_mem_append.mpr ⟨plain, plain'⟩

/-- A literal has no separators. -/
lemma DerivesLiteral.unseparated {ks e} (dv : DerivesLiteral ks e) : Unseparated ks := by
  cases dv <;> exact .cons rfl unseparated_nil

mutual

/-- An operand has no separators. -/
lemma DerivesOperand.unseparated {ks e} : DerivesOperand ks e → Unseparated ks
  | .literal dv => dv.unseparated
  | .name => .cons rfl unseparated_nil
  | .paren dv => dv.unseparated

/-- A relation in parentheses has no separators. -/
lemma DerivesParen.unseparated {ks e} : DerivesParen ks e → Unseparated ks
  | .relation dl dr =>
    have right := dr.unseparated.append (.cons rfl unseparated_nil)
    .cons rfl (dl.unseparated.append (.cons rfl right))

end

/-- An expression has no separators. -/
lemma DerivesExpression.unseparated {ks e} (dv : DerivesExpression ks e) : Unseparated ks := by
  cases dv with
  | operand dv => exact dv.unseparated
  | relation dl dr => exact dl.unseparated.append (.cons rfl dr.unseparated)

/-- A declarator has no separators. -/
lemma DerivesDeclarator.unseparated {ks d} (dv : DerivesDeclarator ks d) : Unseparated ks := by
  cases dv with
  | bind dv => exact .cons rfl (.cons rfl dv.unseparated)

/-- Declarators have no separators, as they stand side by side. -/
lemma DerivesDeclarators.unseparated {ks ds} (dv : DerivesDeclarators ks ds) : Unseparated ks := by
  induction dv with
  | one dv => exact dv.unseparated
  | cons dv _ ih => exact dv.unseparated.append ih

/-! ### Statements -/

/-- A declaration needs no semicolon where something else ends. -/
lemma EndsDeclaration.of_atEnding {rest} (ending : AtEnding rest) : EndsDeclaration [] rest := by
  cases rest with
  | nil => exact .finish
  | cons k rest =>
    rw [ending k rfl]
    exact .brace

/-- Where a declaration ends it may end with a semicolon there that is new, or without the one that has
gone. -/
lemma EndsDeclaration.alikeAtEndings {ending rest us} (ends : EndsDeclaration ending rest)
    (alike : AlikeAtEndings (ending ++ rest) us) :
    ∃ ending' rest', us = ending' ++ rest' ∧ EndsDeclaration ending' rest' ∧
      AlikeAtEndings rest rest' := by
  cases ends with
  | semicolon =>
    cases alike with
    | @cons _ _ ls alike => exact ⟨[.semicolon], ls, rfl, .semicolon, alike⟩
    | insert ending _ => exact absurd ending (not_atEnding_cons nofun)
    | delete ending alike => exact ⟨[], us, rfl, .of_atEnding ending, alike⟩
  | brace =>
    cases alike with
    | @cons _ _ ls alike => exact ⟨[], .closing .brace :: ls, rfl, .brace, .cons alike⟩
    | @insert _ ls _ alike => exact ⟨[.semicolon], ls, rfl, .semicolon, alike⟩
  | finish =>
    cases alike with
    | nil => exact ⟨[], [], rfl, .finish, .nil⟩
    | @insert _ ls _ alike => exact ⟨[.semicolon], ls, rfl, .semicolon, alike⟩

/-- A declaration is derived from tokens that are alike, with its semicolon or without it. -/
lemma DerivesDeclaration.alikeAtEndings {ks rest us d} (dv : DerivesDeclaration ks rest d)
    (alike : AlikeAtEndings (ks ++ rest) us) :
    ∃ ls rest', us = ls ++ rest' ∧ DerivesDeclaration ls rest' d ∧ AlikeAtEndings rest rest' := by
  cases dv with
  | @declare ks ending rest binding ds dds ends =>
    rw [← List.cons_append, List.append_assoc] at alike
    obtain ⟨vs, rfl, tail⟩ := alike.exists_append (.cons rfl dds.unseparated)
    obtain ⟨ending', rest', rfl, ends, after⟩ := ends.alikeAtEndings tail
    exact ⟨.keyword (.declare binding) :: (ks ++ ending'), rest', by simp, .declare dds ends, after⟩

mutual

/-- A statement is derived from tokens that are alike. -/
lemma DerivesStatement.alikeAtEndings {ks rest us s} :
    DerivesStatement ks rest s → AlikeAtEndings (ks ++ rest) us →
    ∃ ls rest', us = ls ++ rest' ∧ DerivesStatement ls rest' s ∧ AlikeAtEndings rest rest'
  | @DerivesStatement.control ks ls rest control left word right body dt db, alike => by
    rw [← List.cons_append, List.append_assoc] at alike
    obtain ⟨vs, rfl, tail⟩ := alike.exists_append (.cons rfl dt.unseparated)
    obtain ⟨ls', rest', rfl, db, after⟩ := db.alikeAtEndings tail
    exact ⟨.keyword (.control control) :: (ks ++ ls'), rest', by simp, .control dt db, after⟩
  | .declaration dd, alike => by
    obtain ⟨ls, rest', rfl, dd, after⟩ := dd.alikeAtEndings alike
    exact ⟨ls, rest', rfl, .declaration dd, after⟩
  | .binding dd, alike => by
    obtain ⟨rest', rfl, after⟩ := alike.exists_append dd.unseparated
    exact ⟨ks, rest', rfl, .binding dd, after⟩
  | .block db, alike => by
    obtain ⟨ls, rest', rfl, db, after⟩ := db.alikeAtEndings alike
    exact ⟨ls, rest', rfl, .block db, after⟩
  | .literal de, alike => by
    obtain ⟨rest', rfl, after⟩ := alike.exists_append de.unseparated
    exact ⟨ks, rest', rfl, .literal de, after⟩
  | .paren de, alike => by
    obtain ⟨rest', rfl, after⟩ := alike.exists_append de.unseparated
    exact ⟨ks, rest', rfl, .paren de, after⟩

/-- A block is derived from tokens that are alike. -/
lemma DerivesBlock.alikeAtEndings {ks rest us body} :
    DerivesBlock ks rest body → AlikeAtEndings (ks ++ rest) us →
    ∃ ls rest', us = ls ++ rest' ∧ DerivesBlock ls rest' body ∧ AlikeAtEndings rest rest'
  | .braces dvs, alike => by
    rw [List.cons_append, List.append_assoc] at alike
    obtain ⟨vs, rfl, tail⟩ := alike.exists_cons nofun nofun
    obtain ⟨ls, rest', rfl, dvs, after, next⟩ := dvs.alikeAtEndings tail
    -- The semicolons in front of the closing brace have all gone into the block.
    have ending : AtEnding (.closing .brace :: rest) := by
      rintro _ ⟨⟩
      rfl
    obtain ⟨more, rfl⟩ := List.head?_eq_some_iff.mp (next ending)
    cases after with
    | cons after =>
      exact ⟨.opening .brace :: (ls ++ [.closing .brace]), more, by simp, .braces dvs, after⟩

/-- Statements are derived from tokens that are alike, and they go up to the same ending. -/
lemma DerivesStatements.alikeAtEndings {ks rest us ss} :
    DerivesStatements ks rest ss → AlikeAtEndings (ks ++ rest) us →
    ∃ ls rest', us = ls ++ rest' ∧ DerivesStatements ls rest' ss ∧ AlikeAtEndings rest rest' ∧
      (AtEnding rest → rest'.head? = rest.head?)
  | .nil, alike => alike.exists_statements
  | .semicolon dvs, alike => by
    cases alike with
    | cons tail =>
      obtain ⟨ls, rest', rfl, dvs, after⟩ := dvs.alikeAtEndings tail
      exact ⟨.semicolon :: ls, rest', rfl, .semicolon dvs, after⟩
    | insert ending _ => exact absurd ending (not_atEnding_cons nofun)
    | delete _ tail => exact dvs.alikeAtEndings tail
  | .cons dv dvs, alike => by
    rw [List.append_assoc] at alike
    obtain ⟨ks', vs, rfl, dv, tail⟩ := dv.alikeAtEndings alike
    obtain ⟨ls, rest', rfl, dvs, after⟩ := dvs.alikeAtEndings tail
    exact ⟨ks' ++ ls, rest', by simp, .cons dv dvs, after⟩

end

/-- A program is derived from tokens that are alike. -/
lemma DerivesProgram.alikeAtEndings {ks ls p} (dv : DerivesProgram ks p)
    (alike : AlikeAtEndings ks ls) : DerivesProgram ls p := by
  rw [← List.append_nil ks] at alike
  obtain ⟨ls, rest, rfl, dvs, _, next⟩ := DerivesStatements.alikeAtEndings dv alike
  obtain rfl := List.head?_eq_none_iff.mp (next nofun)
  rwa [List.append_nil]

/-- Tokens that are alike are the same program or none. -/
lemma AlikeAtEndings.derivesProgram_iff {ks ls p} (alike : AlikeAtEndings ks ls) :
    DerivesProgram ks p ↔ DerivesProgram ls p :=
  ⟨fun dv => dv.alikeAtEndings alike, fun dv => dv.alikeAtEndings alike.symm⟩

/-! ## Programs -/

/-- A semicolon in front of an ending does not matter to whether the tokens are a program, nor to which one. -/
lemma Program.ofTokens_insert_iff {pre post : List Token} {t : Token} {p : Program}
    (kt : t.kind = .semicolon) (ending : AtEnding (kinds post)) :
    Program.ofTokens (pre ++ t :: post) = .ok p ↔ Program.ofTokens (pre ++ post) = .ok p := by
  have alike : AlikeAtEndings (kinds (pre ++ post)) (kinds (pre ++ t :: post)) := by
    rw [kinds_append, kinds_append, kinds_cons, kt]
    exact .append_semicolon ending (kinds pre)
  unfold Program.ofTokens
  rw [ofTokensWithin_eq_ok_iff, ofTokensWithin_eq_ok_iff, alike.derivesProgram_iff, kinds_append,
    kinds_append, kinds_cons, kt, nestedWithin_insert_iff rfl rfl]

/-- A semicolon behind another one or behind a brace leaves the result of parsing as it is. In front of a
closing brace, or at the end, it leaves the program as it is, if the tokens are one. -/
theorem Program.ofTokens_semicolons (t : Token) (kt : t.kind = .semicolon) :
    (∀ pre x post,
      x.kind = .semicolon ∨ x.kind = .opening .brace ∨ x.kind = .closing .brace →
      Program.ofTokens (pre ++ x :: t :: post) = Program.ofTokens (pre ++ x :: post)) ∧
    (∀ pre c post p, c.kind = .closing .brace →
      (Program.ofTokens (pre ++ t :: c :: post) = .ok p ↔
        Program.ofTokens (pre ++ c :: post) = .ok p)) ∧
    ∀ pre p, Program.ofTokens (pre ++ [t]) = .ok p ↔ Program.ofTokens pre = .ok p := by
  refine ⟨?_, ?_, ?_⟩
  · intro pre x post kx
    have sep : x.kind.isSeparator = true := by
      rcases kx with kx | kx | kx <;> rw [kx] <;> rfl
    unfold Program.ofTokens Program.ofTokensWithin
    rw [(Separated.insert sep kt pre post).statements_eq]
  · intro pre c post p kc
    apply ofTokens_insert_iff kt
    rintro _ ⟨⟩
    exact kc
  · intro pre p
    have insert : Program.ofTokens (pre ++ [t]) = .ok p ↔ Program.ofTokens (pre ++ []) = .ok p :=
      ofTokens_insert_iff kt nofun
    rwa [List.append_nil] at insert

/-- A block with one declaration, up to what comes behind the declaration. -/
def openDeclaration : List Token :=
  [⟨.opening .brace, ⟨0, 1, 1⟩⟩, ⟨.keyword (.declare .dico), ⟨2, 1, 3⟩⟩, ⟨.name "a", ⟨7, 1, 8⟩⟩,
    ⟨.copula, ⟨9, 1, 10⟩⟩, ⟨.number 1, ⟨14, 1, 15⟩⟩]

/-- A declaration may do without a semicolon in front of the end of its block, and the block does without
one. If the block does not end, its fault is the same with a semicolon behind its brace. -/
theorem Program.ofTokens_semicolons_openDeclaration :
    (∃ p, Program.ofTokens (openDeclaration ++ [⟨.closing .brace, ⟨16, 1, 17⟩⟩]) = .ok p ∧
      Program.ofTokens (openDeclaration ++ [⟨.semicolon, ⟨40, 3, 1⟩⟩, ⟨.closing .brace, ⟨16, 1, 17⟩⟩]) =
        .ok p ∧
      Program.ofTokens (openDeclaration ++
        [⟨.closing .brace, ⟨16, 1, 17⟩⟩, ⟨.semicolon, ⟨40, 3, 1⟩⟩]) = .ok p) ∧
    ∃ e, Program.ofTokens openDeclaration = .error e ∧ e.position? = some ⟨0, 1, 1⟩ ∧
      Program.ofTokens (⟨.opening .brace, ⟨0, 1, 1⟩⟩ :: ⟨.semicolon, ⟨40, 3, 1⟩⟩ :: openDeclaration.tail) =
        .error e := by
  obtain ⟨behind, inFront, atEnd⟩ := Program.ofTokens_semicolons ⟨.semicolon, ⟨40, 3, 1⟩⟩ rfl
  constructor
  · have eq : (Program.ofTokens (openDeclaration ++ [⟨.closing .brace, ⟨16, 1, 17⟩⟩])).map (fun _ => ()) =
        .ok () := by decide +kernel
    cases result : Program.ofTokens (openDeclaration ++ [⟨.closing .brace, ⟨16, 1, 17⟩⟩]) with
    | ok p =>
      refine ⟨p, rfl, (inFront _ _ [] p rfl).mpr result, ?_⟩
      exact (atEnd (openDeclaration ++ [⟨.closing .brace, ⟨16, 1, 17⟩⟩]) p).mpr result
    | error e =>
      rw [result] at eq
      cases eq
  · have eq : (Program.ofTokens openDeclaration).map (fun _ => ()) =
        .error (.missingClosingBrace .bare ⟨0, 1, 1⟩) := by decide +kernel
    cases result : Program.ofTokens openDeclaration with
    | ok p =>
      rw [result] at eq
      cases eq
    | error e =>
      rw [result] at eq
      cases eq
      exact ⟨_, rfl, rfl, (behind [] _ openDeclaration.tail (.inr (.inl rfl))).trans result⟩

end LatinToScript
