import LatinToScript.Compile
import LatinToScript.Proofs.Json.Read

/-!
# What a dump holds

Token lists are read back from their dumps: `Token.ofDump?` takes the members of an object by their keys
and a kind of token by its tag. The dump of a program determines its tree: each part is written under a tag
that no other form of this part has.
-/

namespace LatinToScript

namespace Json

/-- The value of a member of an object. -/
def member? (key : String) : Json → Option Json
  | .object members => members.lookup key
  | _ => none

/-- The natural number that a value is. -/
def nat? : Json → Option Nat
  | .number (.ofNat n) => some n
  | _ => none

end Json

/-! ## Tokens -/

/-- The position that a value describes. -/
def Position.ofJson? (value : Json) : Option Position := do
  let offset ← value.member? "offset"
  let line ← value.member? "line"
  let column ← value.member? "column"
  return ⟨← offset.nat?, ← line.nat?, ← column.nat?⟩

/-- The keyword with a tag. -/
def Keyword.ofTag? : String → Option Keyword
  | "Dico" => some (.declare .dico)
  | "Constituo" => some (.declare .constituo)
  | "Pono" => some (.declare .pono)
  | "Si" => some (.control .si)
  | "Dum" => some (.control .dum)
  | _ => none

/-- A bracket in the direction that a value describes. -/
def TokenKind.ofDirection? (bracket : Bracket) (value : Json) : Option TokenKind :=
  match value.member? "is_opening" with
  | some (.boolean true) => some (.opening bracket)
  | some (.boolean false) => some (.closing bracket)
  | _ => none

/-- The kind of token with a tag and a value. -/
def TokenKind.ofTagged? : String → Json → Option TokenKind
  | "Keyword", .text tag => (Keyword.ofTag? tag).map .keyword
  | "Name", .text n => some (.name n)
  | "Number", .number value => some (.number value)
  | "String", .text t => some (.text t)
  | "Boolean", .text word => some (.boolean word)
  | "Operator", .text word => some (.operator word)
  | "Parenthesis", direction => ofDirection? .parenthesis direction
  | "Brace", direction => ofDirection? .brace direction
  | _, _ => none

/-- The kind of token that a value describes: a tag alone, or the only member of an object. -/
def TokenKind.ofJson? : Json → Option TokenKind
  | .text "Copula" => some .copula
  | .text "Null" => some .null
  | .text "Semicolon" => some .semicolon
  | .object [(tag, value)] => ofTagged? tag value
  | _ => none

/-- The token that a value describes. -/
def Token.ofJson? (value : Json) : Option Token := do
  let kind ← value.member? "data"
  let position ← value.member? "position"
  return ⟨← TokenKind.ofJson? kind, ← Position.ofJson? position⟩

/-- The tokens that a text describes. -/
def Token.ofDump? (text : String) : Option (List Token) :=
  match Json.read? text with
  | some (.array elements) => elements.mapM Token.ofJson?
  | _ => none

/-- A position is read back from its value. -/
lemma Position.ofJson?_toJson (position : Position) : Position.ofJson? position.toJson = some position := rfl

/-- A keyword is read back from its tag. -/
lemma Keyword.ofTag?_tag (keyword : Keyword) : Keyword.ofTag? keyword.tag = some keyword := by
  rcases keyword with (_ | _ | _) | (_ | _)
  all_goals rfl

/-- A kind of token is read back from its value. -/
lemma TokenKind.ofJson?_toJson (kind : TokenKind) : TokenKind.ofJson? kind.toJson = some kind := by
  cases kind with
  | keyword k =>
    change (Keyword.ofTag? k.tag).map TokenKind.keyword = _
    rw [Keyword.ofTag?_tag, Option.map_some]
  | opening bracket => cases bracket <;> rfl
  | closing bracket => cases bracket <;> rfl
  | _ => rfl

/-- A token is read back from its value. -/
lemma Token.ofJson?_toJson (token : Token) : Token.ofJson? token.toJson = some token := by
  change (TokenKind.ofJson? token.kind.toJson).bind (fun kind =>
    (Position.ofJson? token.position.toJson).bind fun position => some (Token.mk kind position)) = _
  rw [TokenKind.ofJson?_toJson, Position.ofJson?_toJson]
  rfl

/-- Tokens are read back from their values one by one. -/
lemma Token.mapM_ofJson? (tokens : List Token) :
    (tokens.map Token.toJson).mapM Token.ofJson? = some tokens := by
  induction tokens with
  | nil => rfl
  | cons token tokens ih => simp [Token.ofJson?_toJson, ih]

/-- Tokens are read back from their dump. -/
lemma Token.ofDump?_dump (tokens : List Token) : Token.ofDump? (Token.dump tokens) = some tokens := by
  rw [Token.ofDump?, Token.dump, Json.read?_pretty]
  exact Token.mapM_ofJson? tokens

/-! ## Programs -/

/-- A tagged value has one tag and one value. -/
@[simp]
lemma Json.tagged_inj {t u : String} {v w : Json} : Json.tagged t v = .tagged u w ↔ t = u ∧ v = w := by
  simp [Json.tagged]

/-- The members of a relation tell its operands and its operator. -/
@[simp]
lemma Relation.membersJson_inj {l m r s : Json} {v w : String} :
    Relation.membersJson l v r = Relation.membersJson m w s ↔ l = m ∧ v = w ∧ r = s := by
  simp [Relation.membersJson]

/-- The value of a block tells its statements. -/
@[simp]
lemma blockJson_inj {vs ws : List Json} : blockJson vs = blockJson ws ↔ vs = ws := by
  simp [blockJson]

/-- Declarations of different kinds have different tags. -/
lemma DeclarationKind.tag_injective : Function.Injective DeclarationKind.tag := by
  rintro (b | b) (c | c) same
  all_goals
    cases b <;> cases c <;> first | rfl | exact absurd same (by decide)

/-- A word and a truth value are dumped differently, and so are two of each. -/
lemma BooleanValue.toJson_injective : Function.Injective BooleanValue.toJson := by
  rintro (v | v) (w | w) same
  case word.word | native.native => simpa [BooleanValue.toJson] using same
  all_goals exact absurd same (by simp [BooleanValue.toJson])

/-- A word for null and the native null are dumped differently. -/
lemma NullValue.toJson_injective : Function.Injective NullValue.toJson := by
  rintro (v | _) (w | _) same
  case word.word => simpa [NullValue.toJson] using same
  case native.native => rfl
  all_goals exact absurd same (by simp [NullValue.toJson, Json.tagged])

/-- Different expressions have different values: the tag tells the kind, and the members tell the rest. -/
lemma Expression.toJson_injective : Function.Injective Expression.toJson := by
  intro e f same
  -- Two expressions of different forms differ in their tags.
  induction e generalizing f with
  | name n =>
    cases f
    case name m => simpa [Expression.toJson] using same
    all_goals exact absurd same (by simp [Expression.toJson])
  | number value =>
    cases f
    case number value' => simpa [Expression.toJson] using same
    all_goals exact absurd same (by simp [Expression.toJson])
  | text t =>
    cases f
    case text u => simpa [Expression.toJson] using same
    all_goals exact absurd same (by simp [Expression.toJson])
  | boolean value =>
    cases f
    case boolean value' =>
      simp only [Expression.toJson, Json.tagged_inj, true_and] at same
      rw [BooleanValue.toJson_injective same]
    all_goals exact absurd same (by simp [Expression.toJson])
  | null value =>
    cases f
    case null value' =>
      simp only [Expression.toJson, Json.tagged_inj, true_and] at same
      rw [NullValue.toJson_injective same]
    all_goals exact absurd same (by simp [Expression.toJson])
  | relation left operator right ihl ihr =>
    cases f
    case relation left' operator' right' =>
      simp only [Expression.toJson, Json.tagged_inj, Relation.membersJson_inj, true_and] at same
      obtain ⟨eql, rfl, eqr⟩ := same
      rw [ihl eql, ihr eqr]
    all_goals exact absurd same (by simp [Expression.toJson])

/-- Different relations have different values. -/
lemma Relation.toJson_injective : Function.Injective Relation.toJson := by
  rintro ⟨left, word, right⟩ ⟨left', word', right'⟩ same
  have parts : left.toJson = left'.toJson ∧ word = word' ∧ right.toJson = right'.toJson :=
    Relation.membersJson_inj.mp same
  rw [Expression.toJson_injective parts.1, parts.2.1, Expression.toJson_injective parts.2.2]

/-- Different declarators have different values. -/
lemma Declarator.toJson_injective : Function.Injective Declarator.toJson := by
  rintro ⟨name, value⟩ ⟨name', value'⟩ same
  have parts : name = name' ∧ value.toJson = value'.toJson := by simpa [Declarator.toJson] using same
  rw [parts.1, Expression.toJson_injective parts.2]

/-- Different declarations have different values. -/
lemma Declaration.toJson_injective : Function.Injective Declaration.toJson := by
  rintro ⟨kind, ds⟩ ⟨kind', ds'⟩ same
  have parts : kind.tag = kind'.tag ∧ ds.map Declarator.toJson = ds'.map Declarator.toJson := by
    simpa [Declaration.toJson] using same
  rw [DeclarationKind.tag_injective parts.1,
    (List.map_inj_right fun _ _ => @Declarator.toJson_injective _ _).mp parts.2]

mutual

/-- Statements with the same value are the same. -/
lemma Statement.toJson_inj : ∀ {s t : Statement}, s.toJson = t.toJson → s = t
  | .declaration d, t, same => by
    cases t
    case declaration d' =>
      simp only [Statement.toJson, Json.tagged_inj, true_and] at same
      rw [Declaration.toJson_injective same]
    all_goals exact absurd same (by simp [Statement.toJson])
  | .binding d, t, same => by
    cases t
    case binding d' =>
      simp only [Statement.toJson, Json.tagged_inj, true_and] at same
      rw [Declarator.toJson_injective same]
    all_goals exact absurd same (by simp [Statement.toJson])
  | .conditional test consequent alternate, t, same => by
    cases t
    case conditional test' consequent' alternate' =>
      have parts : test.toJson = test'.toJson ∧
          Statement.elementsJson consequent = Statement.elementsJson consequent' ∧
          Statement.alternateJson alternate = Statement.alternateJson alternate' := by
        simpa [Statement.toJson] using same
      rw [Relation.toJson_injective parts.1, Statement.elementsJson_inj parts.2.1,
        Statement.alternateJson_inj parts.2.2]
    all_goals exact absurd same (by simp [Statement.toJson])
  | .loop test body, t, same => by
    cases t
    case loop test' body' =>
      have parts : test.toJson = test'.toJson ∧
          Statement.elementsJson body = Statement.elementsJson body' := by
        simpa [Statement.toJson] using same
      rw [Relation.toJson_injective parts.1, Statement.elementsJson_inj parts.2]
    all_goals exact absurd same (by simp [Statement.toJson])
  | .block body, t, same => by
    cases t
    case block body' =>
      simp only [Statement.toJson, Json.tagged_inj, blockJson_inj, true_and] at same
      rw [Statement.elementsJson_inj same]
    all_goals exact absurd same (by simp [Statement.toJson])
  | .expression e, t, same => by
    cases t
    case expression f =>
      simp only [Statement.toJson, Json.tagged_inj, true_and] at same
      rw [Expression.toJson_injective same]
    all_goals exact absurd same (by simp [Statement.toJson])

/-- Lists of statements with the same values are the same. -/
lemma Statement.elementsJson_inj :
    ∀ {ss ts : List Statement}, Statement.elementsJson ss = Statement.elementsJson ts → ss = ts
  | [], [], _ => rfl
  | [], _ :: _, same => absurd same (by simp [Statement.elementsJson])
  | _ :: _, [], same => absurd same (by simp [Statement.elementsJson])
  | s :: ss, t :: ts, same => by
    simp only [Statement.elementsJson, List.cons.injEq] at same
    rw [Statement.toJson_inj same.1, Statement.elementsJson_inj same.2]

/-- A missing alternate and an empty one have different values. -/
lemma Statement.alternateJson_inj :
    ∀ {a b : Option (List Statement)}, Statement.alternateJson a = Statement.alternateJson b → a = b
  | none, none, _ => rfl
  | none, some _, same => absurd same (by simp [Statement.alternateJson, blockJson, Json.tagged])
  | some _, none, same => absurd same (by simp [Statement.alternateJson, blockJson, Json.tagged])
  | some ss, some ts, same => by
    simp only [Statement.alternateJson, blockJson_inj] at same
    rw [Statement.elementsJson_inj same]

end

/-- Programs with the same dump are the same. -/
lemma Program.dump_injective : Function.Injective Program.dump := by
  rintro ⟨ss⟩ ⟨ts⟩ same
  have eq : blockJson (Statement.elementsJson ss) = blockJson (Statement.elementsJson ts) :=
    Json.pretty_injective same
  rw [Statement.elementsJson_inj (blockJson_inj.mp eq)]

/-! ## Sources -/

/-- Dumps lose nothing: the tokens of a source are read back from the text that is put out for them, and two
programs with the same text, which is the text that is put out for a program, are the same. -/
theorem emit_dumps_faithful :
    (∀ (source : String) (tokens : List Token), Token.ofSource source = .ok tokens →
      ∃ text, emit .tokens source = .ok text ∧ Token.ofDump? text = some tokens) ∧
    (∀ (source : String) (p : Program), Program.ofSource source = .ok p → emit .program source = .ok p.dump) ∧
    ∀ p q : Program, p.dump = q.dump → p = q := by
  refine ⟨?_, ?_, ?_⟩
  · intro source tokens eq
    refine ⟨Token.dump tokens, ?_, Token.ofDump?_dump tokens⟩
    rw [emit, eq]
    rfl
  · intro source p eq
    rw [emit_program, eq]
    rfl
  · intro p q same
    exact Program.dump_injective same

/-- A quoted text that looks like a part of a dump, with a backslash and a control character, behind a line
break; and two programs that differ in quotes only. -/
theorem emit_dumps_faithful_quoted :
    Token.ofSource "a\nesse \"\\\x01]\x7d, é\" -XIV" =
      .ok [⟨.name "a", ⟨0, 1, 1⟩⟩, ⟨.copula, ⟨2, 2, 1⟩⟩, ⟨.text "\\\x01]\x7d, é", ⟨7, 2, 6⟩⟩,
        ⟨.number (-14), ⟨18, 2, 16⟩⟩, ⟨.semicolon, ⟨22, 2, 20⟩⟩] ∧
    (∃ text, emit .tokens "a\nesse \"\\\x01]\x7d, é\" -XIV" = .ok text ∧ Token.ofDump? text =
      some [⟨.name "a", ⟨0, 1, 1⟩⟩, ⟨.copula, ⟨2, 2, 1⟩⟩, ⟨.text "\\\x01]\x7d, é", ⟨7, 2, 6⟩⟩,
        ⟨.number (-14), ⟨18, 2, 16⟩⟩, ⟨.semicolon, ⟨22, 2, 20⟩⟩]) ∧
    Program.dump ⟨[.expression (.text "1")]⟩ ≠ Program.dump ⟨[.expression (.number 1)]⟩ := by
  have eq : Token.ofSource "a\nesse \"\\\x01]\x7d, é\" -XIV" =
      .ok [⟨.name "a", ⟨0, 1, 1⟩⟩, ⟨.copula, ⟨2, 2, 1⟩⟩, ⟨.text "\\\x01]\x7d, é", ⟨7, 2, 6⟩⟩,
        ⟨.number (-14), ⟨18, 2, 16⟩⟩, ⟨.semicolon, ⟨22, 2, 20⟩⟩] := by
    decide +kernel
  refine ⟨eq, emit_dumps_faithful.1 _ _ eq, ?_⟩
  intro same
  cases emit_dumps_faithful.2.2 _ _ same

end LatinToScript
