import LatinToScript.Proofs.Script.Translation

/-!
# The vocabulary of a script

No word of the source language is left in a script: outside quotes each word could be a name in a
source, so it is neither reserved nor a numeral (`Writes.isName`). The quoted texts are those of the
tokens. Both follow from the way in which a script spells its tokens.
-/

namespace LatinToScript

/-- The quotes of a text come in pairs, and these are the texts inside them. -/
inductive QuotedTexts : List Char → List String → Prop where
  | none {text} :
    '"' ∉ text →
    QuotedTexts text []
  | cons {front text texts} {t : String} :
    '"' ∉ front →
    '"' ∉ t.toList →
    QuotedTexts text texts →
    QuotedTexts (front ++ '"' :: (t.toList ++ '"' :: text)) (t :: texts)

/-- A run of letters and underscores that is as long as it can be between two texts. -/
structure WordBetween (before word after : List Char) : Prop where
  ne_nil : word ≠ []
  chars : ∀ c ∈ word, isWordChar c = true
  starts : ∀ c ∈ before.getLast?, isWordChar c = false
  stops : Stops isWordChar after

/-- The quoted text that a token is, if it is one. -/
def TokenKind.text? : TokenKind → Option String
  | .text t => some t
  | _ => none

/-! ## Spellings -/

/-- The words of the script language could be names in a source. -/
lemma isName_of_native {w : String}
    (mem : w ∈ ["var", "const", "let", "if", "while", "true", "false", "null"]) : IsName w := by
  simp only [List.mem_cons, List.not_mem_nil, or_false] at mem
  rcases mem with rfl | rfl | rfl | rfl | rfl | rfl | rfl | rfl <;>
    exact ⟨by decide, List.all_eq_true.mp (by decide), by decide, by decide⟩

/-- A character that is neither in a word nor a quote. -/
def isSign (c : Char) : Bool :=
  !isWordChar c && c != '"'

/-- A token is spelled as a quoted text, as a word that could be a name, or without letters. -/
inductive TokenKind.WrittenAs : TokenKind → Prop where
  | text {t : String} :
    '"' ∉ t.toList →
    WrittenAs (.text t)
  | word {k : TokenKind} :
    k.text? = none →
    IsName k.target →
    WrittenAs k
  | signs {k : TokenKind} :
    k.text? = none →
    (∀ c ∈ k.target.toList, isSign c = true) →
    WrittenAs k

/-- A number is written without letters and quotes. -/
lemma Decimal.isSign_of_mem_ofInt {value : Int} {c : Char} (mem : c ∈ (ofInt value).toList) :
    isSign c = true := by
  have chars := ofInt_chars c mem
  rw [Bool.or_eq_true] at chars
  rcases chars with digit | minus
  · have other : c ≠ '"' := by
      rintro rfl
      cases digit
    rw [isSign, isWordChar_of_isDigit digit, bne_iff_ne.mpr other]
    rfl
  · rw [beq_iff_eq.mp minus]
    decide

/-- Every token of a text is spelled in one of the three ways. -/
lemma TokenKind.Lexical.writtenAs {k : TokenKind} (lex : k.Lexical) : k.WrittenAs := by
  cases k with
  | name n => exact .word rfl lex
  | number value =>
    refine .signs rfl ?_
    rw [target, ← Decimal.ofInt_eq_toString]
    intro c mem
    exact Decimal.isSign_of_mem_ofInt mem
  | text t => exact .text lex
  | boolean word =>
    have mem : word ∈ booleanWords := lex
    simp only [booleanWords, List.mem_cons, List.not_mem_nil, or_false] at mem
    rcases mem with rfl | rfl <;> exact .word rfl (isName_of_native (by decide))
  | operator word =>
    have mem : word ∈ operatorWords := lex
    simp only [operatorWords, List.mem_cons, List.not_mem_nil, or_false] at mem
    rcases mem with rfl | rfl | rfl | rfl | rfl | rfl | rfl | rfl <;>
      exact .signs rfl (List.all_eq_true.mp (by decide))
  | keyword word =>
    refine .word rfl (isName_of_native ?_)
    cases word with
    | declare binding => cases binding <;> decide
    | control control => cases control <;> decide
  | opening bracket => cases bracket <;> exact .signs rfl (List.all_eq_true.mp (by decide))
  | closing bracket => cases bracket <;> exact .signs rfl (List.all_eq_true.mp (by decide))
  | copula => exact .signs rfl (List.all_eq_true.mp (by decide))
  | null => exact .word rfl (isName_of_native (by decide))
  | semicolon => exact .signs rfl (List.all_eq_true.mp (by decide))

/-! ## Quoted texts -/

/-- A text without quotes can be put in front. -/
lemma QuotedTexts.append {front text : List Char} {texts : List String} (no : '"' ∉ front)
    (qt : QuotedTexts text texts) : QuotedTexts (front ++ text) texts := by
  cases qt with
  | none not => exact .none (List.not_mem_append no not)
  | cons nof not qt =>
    rw [← List.append_assoc]
    exact .cons (List.not_mem_append no nof) not qt

/-- No quote is among signs. -/
lemma not_mem_of_isSign {text : List Char} (signs : ∀ c ∈ text, isSign c = true) : '"' ∉ text := by
  intro mem
  exact absurd (signs '"' mem) (by decide)

/-- No quote is in a word. -/
lemma not_mem_of_word {text : List Char} (word : ∀ c ∈ text, isWordChar c = true) : '"' ∉ text := by
  intro mem
  exact absurd (word '"' mem) (by decide)

/-- The quoted texts of a script are those of the tokens that it spells. -/
lemma Writes.quotedTexts {ks : List TokenKind} {text : List Char} (wr : Writes ks text) :
    QuotedTexts text (ks.filterMap TokenKind.text?) := by
  induction wr with
  | nil => exact .none nofun
  | @layout ks c text lay _ ih =>
    have no : '"' ∉ [c] := by
      rw [List.mem_singleton]
      exact (ne_quote_of_isLayout lay).symm
    exact ih.append no
  | @token k ks text lex _ _ ih =>
    cases lex.writtenAs with
    | @text t no =>
      have chars : (TokenKind.text t).target.toList ++ text = [] ++ '"' :: (t.toList ++ '"' :: text) := by
        simp [TokenKind.target]
      rw [chars]
      exact .cons nofun no ih
    | word nk nm =>
      rw [List.filterMap_cons_none nk]
      exact ih.append (not_mem_of_word nm.word)
    | signs nk signs =>
      rw [List.filterMap_cons_none nk]
      exact ih.append (not_mem_of_isSign signs)

/-! ## Words -/

/-- Layout is in no word. -/
lemma isWordChar_of_isLayout {c : Char} (lay : isLayout c = true) : isWordChar c = false := by
  have mem : c ∈ [' ', '\n', '(', ')', ';'] := of_decide_eq_true lay
  simp only [List.mem_cons, List.not_mem_nil, or_false] at mem
  rcases mem with rfl | rfl | rfl | rfl | rfl <;> decide

namespace WordBetween

variable {before word after : List Char}

/-- What stands far in front of a word does not matter. -/
lemma of_append {front : List Char} (run : WordBetween (front ++ before) word after) :
    WordBetween before word after := by
  refine ⟨run.ne_nil, run.chars, ?_, run.stops⟩
  intro c mem
  apply run.starts
  rw [List.getLast?_append, Option.mem_def.mp mem]
  rfl

/-- A character that stands far in front of a word does not matter. -/
lemma of_cons {c : Char} (run : WordBetween (c :: before) word after) : WordBetween before word after :=
  of_append (show WordBetween ([c] ++ before) word after from run)

/-- A word starts with one of its characters. -/
lemma head (run : WordBetween before word after) {c : Char} {text : List Char}
    (eq : c :: text = word ++ after) : isWordChar c = true := by
  obtain ⟨d, ds, rfl⟩ := List.exists_cons_of_ne_nil run.ne_nil
  cases eq
  exact run.chars c List.mem_cons_self

/-- Two words that start at the same place are the same word. -/
lemma eq_of_append_eq (run : WordBetween before word after) {other more : List Char}
    (chars : ∀ c ∈ other, isWordChar c = true) (stops : Stops isWordChar more)
    (eq : other ++ more = word ++ after) : word = other := by
  rw [← takeWhile_append_of_stops run.chars run.stops, ← eq, takeWhile_append_of_stops chars stops]

end WordBetween

/-- Between the quotes of a text no place is outside of them. -/
lemma endsQuoted_of_quoted {t before mid : List Char} {c : Char} (no : '"' ∉ t) (other : c ≠ '"')
    (eq : '"' :: (t ++ ['"']) = before ++ c :: mid) : endsQuoted false before = true := by
  cases before with
  | nil =>
    cases eq
    exact absurd rfl other
  | cons d inside =>
    obtain ⟨rfl, eqi⟩ := List.cons.inj eq
    rcases List.append_eq_append_iff.mp eqi with ⟨_, _, eqn⟩ | ⟨more, rfl, _⟩
    · rcases List.cons_eq_append_iff.mp eqn with ⟨_, eqc⟩ | ⟨_, _, eqc⟩
      · cases eqc
        exact absurd rfl other
      · simp at eqc
    · rw [endsQuoted, if_pos rfl, Bool.not_false]
      exact endsQuoted_of_not_mem true fun mem => no (List.mem_append_left more mem)

/-- A word that starts inside a run of letters starts where the run does. -/
lemma WordBetween.before_eq_nil {before word after letters rest : List Char}
    (run : WordBetween before word after) (chars : ∀ c ∈ letters, isWordChar c = true)
    (eq : letters = before ++ rest) : before = [] := by
  by_contra some
  have mem : before.getLast some ∈ letters := by
    rw [eq]
    exact List.mem_append_left rest (List.getLast_mem some)
  have other := run.starts _ (List.getLast?_eq_some_getLast some)
  rw [chars _ mem] at other
  cases other

/-- A word that starts inside the spelling of a token, outside quotes, is the whole spelling. -/
lemma TokenKind.WrittenAs.isName {k : TokenKind} {text before word after mid : List Char} {c : Char}
    (as : k.WrittenAs) (seam : WordsApart k.target.toList text)
    (eqk : k.target.toList = before ++ c :: mid) (eqw : word ++ after = c :: mid ++ text)
    (run : WordBetween before word after) (outside : endsQuoted false before = false) :
    IsName (String.ofList word) := by
  have letter : isWordChar c = true := run.head eqw.symm
  cases as with
  | @text t no =>
    have chars : (TokenKind.text t).target.toList = '"' :: (t.toList ++ ['"']) := by simp [target]
    have inside := endsQuoted_of_quoted no (ne_of_isWordChar letter (by decide)) (chars.symm.trans eqk)
    rw [outside] at inside
    cases inside
  | word _ nm =>
    obtain rfl := run.before_eq_nil nm.word eqk
    rw [List.nil_append] at eqk
    rw [← eqk] at eqw
    have last := List.getLast?_eq_some_getLast (eqk ▸ List.cons_ne_nil c mid)
    have stops := seam _ last (nm.word _ (List.mem_of_getLast? last))
    rw [run.eq_of_append_eq nm.word stops eqw.symm, String.ofList_toList]
    exact nm
  | signs _ signs =>
    have sign := signs c (by rw [eqk]; simp)
    rw [isSign, letter] at sign
    cases sign

/-- Each word of a script that stands outside quotes could be a name in a source. -/
lemma Writes.isName {ks : List TokenKind} {text before word after : List Char} (wr : Writes ks text)
    (eq : text = before ++ (word ++ after)) (run : WordBetween before word after)
    (outside : endsQuoted false before = false) : IsName (String.ofList word) := by
  induction wr generalizing before with
  | nil =>
    have none := (List.append_eq_nil_iff.mp (List.append_eq_nil_iff.mp eq.symm).2).1
    exact absurd none run.ne_nil
  | @layout ks c text lay _ ih =>
    cases before with
    | nil =>
      have letter := run.head eq
      rw [isWordChar_of_isLayout lay] at letter
      cases letter
    | cons d before =>
      cases eq
      rw [endsQuoted, if_neg (ne_quote_of_isLayout lay)] at outside
      exact ih rfl run.of_cons outside
  | @token k ks text lex seam _ ih =>
    -- The word starts behind the spelling of the token or inside it.
    rcases List.append_eq_append_iff.mp eq with ⟨mid, rfl, eqt⟩ | ⟨mid, eqk, eqw⟩
    · rw [endsQuoted_append, lex.keeps.closed] at outside
      exact ih eqt run.of_append outside
    · cases mid with
      | nil =>
        have behind : WordBetween (before ++ []) word after := by rwa [List.append_nil]
        exact ih (show text = [] ++ (word ++ after) from eqw.symm) behind.of_append rfl
      | cons c mid => exact lex.writtenAs.isName seam eqk eqw run outside

/-! ## Compiling -/

/-- The quoted texts of a script are those of the source, in their order. Each word outside of them is
no reserved word of the source language and no numeral. -/
theorem compile_vocabulary (source out : String) (eq : compile source = .ok out) :
    ∃ ts, Token.ofSource source = .ok ts ∧
      QuotedTexts out.toList (ts.filterMap fun t => t.kind.text?) ∧
      ∀ before word after, out.toList = before ++ (word ++ after) → WordBetween before word after →
        endsQuoted false before = false →
        String.ofList word ∉ reservedWords ∧ Numeral.isNumeral word = false := by
  obtain ⟨ts, p, eqt, eqp, rfl⟩ := compile_eq_ok_iff.mp eq
  obtain ⟨dv, _⟩ := Program.ofTokensWithin_eq_ok_iff.mp eqp
  have wr := dv.written (Token.ofSource_lexical eqt)
  refine ⟨ts, eqt, ?_, ?_⟩
  · have quoted := Writes.quotedTexts wr
    rwa [kinds, List.filterMap_map] at quoted
  · intro before word after eqo run outside
    have nm := Writes.isName wr eqo run outside
    have num := nm.not_numeral
    rw [String.toList_ofList] at num
    exact ⟨nm.not_reserved, num⟩

/-- A quoted numeral stays, and the name next to it is a word of the script. -/
theorem compile_vocabulary_quotedNumeral :
    ∃ ts, Token.ofSource "dico tempus esse \"si XIV\"" = .ok ts ∧
      QuotedTexts "var tempus = \"si XIV\";".toList (ts.filterMap fun t => t.kind.text?) ∧
      WordBetween "var ".toList "tempus".toList " = \"si XIV\";".toList ∧
      endsQuoted false "var ".toList = false ∧
      "tempus" ∉ reservedWords ∧ Numeral.isNumeral "tempus".toList = false := by
  have eq : compile "dico tempus esse \"si XIV\"" = .ok "var tempus = \"si XIV\";" := by decide +kernel
  obtain ⟨ts, eqt, quoted, words⟩ := compile_vocabulary _ _ eq
  have run : WordBetween "var ".toList "tempus".toList " = \"si XIV\";".toList :=
    ⟨by decide, List.all_eq_true.mp (by decide), by rintro _ ⟨⟩; rfl, by rintro _ ⟨⟩; rfl⟩
  exact ⟨ts, eqt, quoted, run, rfl, words _ _ _ (by decide) run rfl⟩

end LatinToScript
