import LatinToScript.Proofs.Script.Vocabulary

/-!
# The literals of a script

The source language takes a quoted text as it stands, up to the next quote. In the script language a backslash
escapes the character behind it, and a line cannot end inside quotes. A script writes every text as the source
does, so the script language reads the texts of the source in it exactly when none of them has a backslash or an
end of a line (`compile_reads_texts_iff`).
-/

namespace LatinToScript

/-- How a script language reads what stands in quotes. -/
structure LiteralRules where
  /-- What a backslash and the character behind it stand for, if they stand for anything. -/
  escape : Char → Option Char
  /-- Whether a line ends with a character. -/
  endsLine : Char → Bool
  escape_quote : escape '"' = some '"'

namespace LiteralRules

variable (rules : LiteralRules)

mutual

/-- The values of the literals of a text, in their order. -/
def readScript : List Char → Option (List String)
  | [] => some []
  | c :: text =>
    if c = '"' then
      (readLiteral text).map fun (value, texts) => String.ofList value :: texts
    else
      readScript text

/-- What is left of the value of a literal, and the values of the literals behind it. -/
def readLiteral : List Char → Option (List Char × List String)
  | [] => none
  | c :: text =>
    if c = '"' then
      (readScript text).map fun texts => ([], texts)
    else if c = '\\' then
      readEscaped text
    else if rules.endsLine c then
      none
    else
      (readLiteral text).map fun (value, texts) => (c :: value, texts)

/-- The same behind a backslash. -/
def readEscaped : List Char → Option (List Char × List String)
  | [] => none
  | c :: text => (readLiteral text).map fun (value, texts) => ((rules.escape c).toList ++ value, texts)

end

/-- A text that stands for itself inside quotes. -/
def Plain (text : List Char) : Prop :=
  ∀ c ∈ text, c ≠ '\\' ∧ rules.endsLine c = false

instance (text : List Char) : Decidable (rules.Plain text) :=
  List.decidableBAll (fun c => c ≠ '\\' ∧ rules.endsLine c = false) text

variable {rules} {text : List Char}

/-- There are no literals in a text without quotes. -/
lemma readScript_append {front : List Char} (no : '"' ∉ front) :
    rules.readScript (front ++ text) = rules.readScript text := by
  induction front with
  | nil => rfl
  | cons c front ih =>
    rw [List.mem_cons, not_or] at no
    rw [List.cons_append, readScript, if_neg (Ne.symm no.1), ih no.2]

/-- A plain text is the value of its literal. -/
lemma Plain.readLiteral_eq {t : List Char} (plain : rules.Plain t) (no : '"' ∉ t) :
    rules.readLiteral (t ++ '"' :: text) = (rules.readScript text).map fun texts => (t, texts) := by
  induction t with
  | nil => rw [List.nil_append, readLiteral, if_pos rfl]
  | cons c t ih =>
    obtain ⟨⟨noslash, noend⟩, plain⟩ := List.forall_mem_cons.mp plain
    rw [List.mem_cons, not_or] at no
    rw [List.cons_append, readLiteral, if_neg (Ne.symm no.1), if_neg noslash, noend, ih plain no.2, Option.map_map]
    rfl

mutual

/-- Read as a literal, a text is plain, or it becomes shorter, or the quote behind it becomes a part of the
value. -/
lemma of_readLiteral : ∀ {t u : List Char} {texts : List String}, '"' ∉ t →
    rules.readLiteral (t ++ '"' :: text) = some (u, texts) →
      (u = t ∧ rules.Plain t ∧ rules.readScript text = some texts) ∨ u.length < t.length ∨ '"' ∈ u
  | [], _, _, _, eq => by
    rw [List.nil_append, readLiteral, if_pos rfl, Option.map_eq_some_iff] at eq
    obtain ⟨_, eq, ⟨⟩⟩ := eq
    exact .inl ⟨rfl, List.forall_mem_nil _, eq⟩
  | c :: t, _, _, no, eq => by
    rw [List.mem_cons, not_or] at no
    rw [List.cons_append, readLiteral, if_neg (Ne.symm no.1)] at eq
    by_cases slash : c = '\\'
    · rw [if_pos slash] at eq
      rcases of_readEscaped no.2 eq with le | mem
      · exact .inr (.inl (Nat.lt_succ_of_le le))
      · exact .inr (.inr mem)
    · rw [if_neg slash] at eq
      by_cases ends : rules.endsLine c = true
      · rw [if_pos ends] at eq
        cases eq
      · rw [if_neg ends, Option.map_eq_some_iff] at eq
        obtain ⟨⟨value, _⟩, eqv, eq⟩ := eq
        have both := of_readLiteral no.2 eqv
        cases eq
        rcases both with ⟨same, plain, rest⟩ | lt | mem
        · have own : c ≠ '\\' ∧ rules.endsLine c = false := ⟨slash, Bool.eq_false_iff.mpr ends⟩
          exact .inl ⟨congrArg (c :: ·) same, List.forall_mem_cons.mpr ⟨own, plain⟩, rest⟩
        · exact .inr (.inl (Nat.succ_lt_succ lt))
        · exact .inr (.inr (List.mem_cons_of_mem c mem))

/-- Behind a backslash the text gets no longer, or the quote behind it becomes a part of the value. -/
lemma of_readEscaped : ∀ {t u : List Char} {texts : List String}, '"' ∉ t →
    rules.readEscaped (t ++ '"' :: text) = some (u, texts) → u.length ≤ t.length ∨ '"' ∈ u
  | [], _, _, _, eq => by
    -- The backslash is the last character of the text, so it escapes the quote that should end the literal.
    rw [List.nil_append, readEscaped, rules.escape_quote, Option.map_eq_some_iff] at eq
    obtain ⟨_, _, ⟨⟩⟩ := eq
    exact .inr List.mem_cons_self
  | c :: t, _, _, no, eq => by
    rw [List.mem_cons, not_or] at no
    rw [List.cons_append, readEscaped, Option.map_eq_some_iff] at eq
    obtain ⟨⟨value, _⟩, eqv, eq⟩ := eq
    have both := of_readLiteral no.2 eqv
    cases eq
    have short : (rules.escape c).toList.length ≤ 1 := by
      cases rules.escape c <;> simp
    rw [List.length_append, List.length_cons]
    rcases both with ⟨rfl, _, _⟩ | lt | mem
    · omega
    · omega
    · exact .inr (List.mem_append_right _ mem)

end

/-- The quoted texts are read as they stand exactly when each of them is plain. -/
lemma readScript_eq_iff {texts : List String} (quoted : QuotedTexts text texts) :
    rules.readScript text = some texts ↔ ∀ t ∈ texts, rules.Plain t.toList := by
  induction quoted with
  | @none text no =>
    have eq : rules.readScript (text ++ []) = rules.readScript [] := readScript_append no
    rw [List.append_nil] at eq
    exact ⟨fun _ => List.forall_mem_nil _, fun _ => eq⟩
  | @cons front text texts t nof no _ ih =>
    rw [readScript_append nof, readScript, if_pos rfl, List.forall_mem_cons]
    constructor
    · intro eq
      obtain ⟨⟨u, _⟩, eqv, eq⟩ := Option.map_eq_some_iff.mp eq
      obtain ⟨equ, rfl⟩ := List.cons.inj eq
      have same : u = t.toList := by rw [← equ, String.toList_ofList]
      rcases of_readLiteral no eqv with ⟨_, plain, rest⟩ | lt | mem
      · exact ⟨plain, ih.mp rest⟩
      · rw [same] at lt
        exact absurd lt (Nat.lt_irrefl _)
      · rw [same] at mem
        exact absurd mem no
    · rintro ⟨plain, plains⟩
      rw [plain.readLiteral_eq no, ih.mpr plains, Option.map_some, Option.map_some]
      dsimp only
      rw [String.ofList_toList]

end LiteralRules

/-- The script language reads the texts of the source in its script, in their order, exactly when none of them
has a backslash or an end of a line. -/
theorem compile_reads_texts_iff (rules : LiteralRules) (source out : String) (eq : compile source = .ok out) :
    ∃ ts, Token.ofSource source = .ok ts ∧
      (rules.readScript out.toList = some (ts.filterMap fun t => t.kind.text?) ↔
        ∀ t ∈ ts.filterMap fun t => t.kind.text?, rules.Plain t.toList) := by
  obtain ⟨ts, p, eqt, eqp, rfl⟩ := compile_eq_ok_iff.mp eq
  obtain ⟨dv, _⟩ := Program.ofTokensWithin_eq_ok_iff.mp eqp
  have quoted := Writes.quotedTexts (dv.written (Token.ofSource_lexical eqt))
  rw [kinds, List.filterMap_map] at quoted
  exact ⟨ts, eqt, LiteralRules.readScript_eq_iff quoted⟩

/-- The rules for escapes of one character. A line that ends behind a backslash goes on. -/
def LiteralRules.script : LiteralRules where
  escape
    | 'b' => some '\x08'
    | 't' => some '\t'
    | 'n' => some '\n'
    | 'v' => some '\x0b'
    | 'f' => some '\x0c'
    | 'r' => some '\r'
    | '\n' => none
    | '\r' => none
    | c => some c
  endsLine c := c = '\n' || c = '\r'
  escape_quote := rfl

/-- Layout and signs of the script language are read back, and so is an empty text. -/
theorem compile_reads_texts_iff_layout :
    compile "dico a esse \"b; (c)\" additum \"\"" = .ok "var a = \"b; (c)\" + \"\";" ∧
    (∃ ts, Token.ofSource "dico a esse \"b; (c)\" additum \"\"" = .ok ts ∧
      (ts.filterMap fun t => t.kind.text?) = ["b; (c)", ""]) ∧
    (∀ t ∈ ["b; (c)", ""], LiteralRules.script.Plain t.toList) ∧
    LiteralRules.script.readScript "var a = \"b; (c)\" + \"\";".toList = some ["b; (c)", ""] := by
  have eq : compile "dico a esse \"b; (c)\" additum \"\"" = .ok "var a = \"b; (c)\" + \"\";" := by
    decide +kernel
  have tokens : Token.ofSource "dico a esse \"b; (c)\" additum \"\"" =
      .ok [⟨.keyword (.declare .dico), ⟨0, 1, 1⟩⟩, ⟨.name "a", ⟨5, 1, 6⟩⟩, ⟨.copula, ⟨7, 1, 8⟩⟩,
        ⟨.text "b; (c)", ⟨12, 1, 13⟩⟩, ⟨.operator "additum", ⟨21, 1, 22⟩⟩, ⟨.text "", ⟨29, 1, 30⟩⟩,
        ⟨.semicolon, ⟨31, 1, 32⟩⟩] := by
    decide +kernel
  have plain : ∀ t ∈ ["b; (c)", ""], LiteralRules.script.Plain t.toList := by decide
  obtain ⟨_, eqt, reads⟩ := compile_reads_texts_iff .script _ _ eq
  obtain ⟨⟩ := tokens.symm.trans eqt
  exact ⟨eq, ⟨_, tokens, rfl⟩, plain, reads.mpr plain⟩

/-- A backslash in a text is taken for an escape, a backslash at its end leaves the literal open, and so does the
end of a line. -/
theorem compile_misreads_texts :
    (∃ ts, Token.ofSource "\"a\\b\"" = .ok ts ∧ (ts.filterMap fun t => t.kind.text?) = ["a\\b"]) ∧
    compile "\"a\\b\"" = .ok "\"a\\b\"" ∧
    LiteralRules.script.readScript "\"a\\b\"".toList = some ["a\x08"] ∧
    compile "\"a\\\"" = .ok "\"a\\\"" ∧
    LiteralRules.script.readScript "\"a\\\"".toList = none ∧
    compile "\"a\nb\"" = .ok "\"a\nb\"" ∧
    LiteralRules.script.readScript "\"a\nb\"".toList = none := by
  refine ⟨⟨[⟨.text "a\\b", .start⟩, ⟨.semicolon, ⟨5, 1, 6⟩⟩], ?_, rfl⟩, ?_, ?_, ?_, ?_, ?_, ?_⟩ <;> decide +kernel

end LatinToScript
