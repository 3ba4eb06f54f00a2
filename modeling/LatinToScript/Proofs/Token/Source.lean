import LatinToScript.Proofs.Grammar.Nesting
import LatinToScript.Proofs.Token.Balance
import LatinToScript.Proofs.Token.Lexical

/-!
# The tokens of a source

The tokens of a source end in a semicolon (`Token.ofSource_ended`), whether the source has one there or
not, and every bracket is opened as often as it is closed (`Token.ofSource_count_eq`). Properly nested
brackets always pass the check (`Nested.checkBalance_eq`).
-/

namespace LatinToScript

/-! ## The last token -/

/-- The last of some tokens is a semicolon. -/
def Ended (ks : List TokenKind) : Prop :=
  ks.getLast? = some .semicolon

/-- There is a last token. -/
lemma Ended.ne_nil {ks : List TokenKind} (ended : Ended ks) : ks ≠ [] := by
  rintro rfl
  cases ended

/-- What is left of tokens that end in a semicolon ends in it, too. -/
lemma Ended.of_append {ks ls : List TokenKind} (ended : Ended (ks ++ ls)) (some : ls ≠ []) :
    Ended ls := by
  rw [Ended, List.getLast?_append, List.getLast?_eq_some_getLast some, Option.some_or] at ended
  rw [Ended, List.getLast?_eq_some_getLast some, ended]

/-- Tokens without a semicolon leave the last one. -/
lemma Ended.of_append_of_not_mem {ks ls : List TokenKind} (ended : Ended (ks ++ ls))
    (no : .semicolon ∉ ks) : Ended ls := by
  apply ended.of_append
  rintro rfl
  rw [List.append_nil] at ended
  exact no (List.mem_of_getLast? ended)

/-- A token other than the semicolon leaves the last one. -/
lemma Ended.of_cons {k : TokenKind} {ks : List TokenKind} (ended : Ended (k :: ks))
    (other : k ≠ .semicolon) : Ended ks := by
  apply of_append_of_not_mem (show Ended ([k] ++ ks) from ended)
  rw [List.mem_singleton]
  exact other.symm

/-- No token ends in a blank, and only the semicolon ends in one. -/
lemma Lexes.last {front more : List Char} {kind : TokenKind} (lx : Lexes front more kind) :
    ∀ c ∈ front.getLast?, c ≠ ' ' ∧ (c = ';' → kind = .semicolon) := by
  have of_word : ∀ c, isWordChar c = true → c ≠ ' ' ∧ (c = ';' → kind = .semicolon) := by
    intro c word
    refine ⟨ne_of_isWordChar word (by decide), ?_⟩
    intro eq
    exact absurd eq (ne_of_isWordChar word (by decide))
  intro c mem
  cases lx with
  | semicolon =>
    cases mem
    exact ⟨by decide, fun _ => rfl⟩
  | text _ =>
    rw [← List.cons_append, List.getLast?_concat] at mem
    cases mem
    exact ⟨by decide, nofun⟩
  | @opening bracket =>
    cases mem
    cases bracket <;> exact ⟨by decide, by decide⟩
  | @closing bracket =>
    cases mem
    cases bracket <;> exact ⟨by decide, by decide⟩
  | negative some all _ =>
    rw [List.getLast?_cons_of_ne_nil some] at mem
    exact of_word c (isWordChar_of_isGlyph (all c (List.mem_of_getLast? mem)))
  | word word all _ =>
    rcases List.mem_cons.mp (List.mem_of_getLast? mem) with rfl | mem
    · exact of_word _ word
    · exact of_word c (all c mem)

/-- There is no token in a blank. -/
lemma Scans.eq_nil_of_blank {position : Position} {ts : List Token}
    (sc : Scans position [' '] ts) : ts = [] := by
  generalize eq : [' '] = text at sc
  cases sc with
  | nil => rfl
  | blank _ sc =>
    cases eq
    cases sc
    rfl
  | token lx _ =>
    have blank := lx.not_blank
    rw [← (List.cons.inj eq).1] at blank
    exact absurd blank (by decide)

/-- A text that ends in a semicolon and a blank gives tokens that end in a semicolon. -/
lemma Scans.ended {position : Position} {text : List Char} {ts : List Token}
    (sc : Scans position text ts) {front : List Char} (eq : text = front ++ [';', ' ']) :
    Ended (kinds ts) := by
  induction sc generalizing front with
  | nil => simp at eq
  | @blank position c text ts white _ ih =>
    cases front with
    | nil =>
      cases eq
      exact absurd white (by decide)
    | cons d front =>
      cases eq
      exact ih rfl
  | @token position c taken more kind ts lx sc ih =>
    -- Whatever is left of the text ends in a semicolon, and so do its tokens.
    have inner : ∀ {mid}, more = mid ++ [';', ' '] → Ended (kinds (⟨kind, position⟩ :: ts)) := by
      intro mid eqm
      rw [kinds_cons, Ended, List.getLast?_cons_of_ne_nil (ih eqm).ne_nil]
      exact ih eqm
    rw [← List.cons_append] at eq
    rcases List.append_eq_append_iff.mp eq with ⟨mid, rfl, rfl⟩ | ⟨mid, eqt, eqm⟩
    · exact inner rfl
    · -- The token reaches into the last two characters, so it is the semicolon or starts with it.
      have last := lx.last
      rw [eqt] at last
      rcases List.cons_eq_append_iff.mp eqm with ⟨rfl, rfl⟩ | ⟨_, rfl, eqs⟩
      · exact inner (List.nil_append _).symm
      · rcases List.cons_eq_append_iff.mp eqs with ⟨rfl, rfl⟩ | ⟨_, rfl, eqn⟩
        · have eqk := (last ';' (by simp)).2 rfl
          rw [eqk, sc.eq_nil_of_blank]
          rfl
        · obtain ⟨rfl, rfl⟩ := List.append_eq_nil_iff.mp eqn.symm
          exact absurd rfl (last ' ' (by simp)).1

/-- What is scanned behind the characters of a source. -/
def ending (text : List Char) : List Char :=
  if text.getLast? = some ';' then [' '] else [';', ' ']

/-- What is scanned is the source with its ending. -/
lemma scannedText_eq (source : String) : scannedText source = source.toList ++ ending source.toList := by
  unfold scannedText ending
  dsimp only
  split <;> rfl

/-- An ending has only a semicolon and a blank in it. -/
lemma eq_of_mem_ending {text : List Char} {c : Char} (mem : c ∈ ending text) : c = ';' ∨ c = ' ' := by
  unfold ending at mem
  split at mem
  · exact .inr (List.mem_singleton.mp mem)
  · rcases List.mem_cons.mp mem with eq | mem
    · exact .inl eq
    · exact .inr (List.mem_singleton.mp mem)

/-- A character that is scanned belongs to the source or is added behind it. -/
lemma of_append_ending {text before after : List Char} {c : Char}
    (eq : text ++ ending text = before ++ c :: after) :
    (∃ rest, text = before ++ c :: rest ∧ after = rest ++ ending text) ∨ c ∈ ending text := by
  rcases List.append_eq_append_iff.mp eq with ⟨mid, _, eqe⟩ | ⟨mid, eqt, eqc⟩
  · right
    rw [eqe]
    exact List.mem_append_right _ List.mem_cons_self
  · cases mid with
    | nil =>
      right
      rw [List.nil_append] at eqc
      rw [← eqc]
      exact List.mem_cons_self
    | cons d mid =>
      cases eqc
      exact .inl ⟨mid, eqt, rfl⟩

/-- The text that is scanned ends in a semicolon and a blank. -/
lemma exists_scannedText (source : String) : ∃ front, scannedText source = front ++ [';', ' '] := by
  unfold scannedText
  dsimp only
  split
  · rename_i last
    obtain ⟨front, eq⟩ := List.getLast?_eq_some_iff.mp last
    rw [eq]
    exact ⟨front, by simp⟩
  · exact ⟨source.toList, rfl⟩

/-- The tokens of a source end in a semicolon. -/
lemma Token.ofSource_ended {source : String} {ts : List Token}
    (eq : Token.ofSource source = .ok ts) : Ended (kinds ts) := by
  obtain ⟨sc, _⟩ := Token.ofSource_eq_ok_iff.mp eq
  obtain ⟨front, eqt⟩ := exists_scannedText source
  exact sc.ended eqt

/-! ## Balanced brackets -/

namespace OpenBrackets

/-- Open brackets of one kind that are exchanged and put back are as before. -/
lemma set_set_get (brackets : OpenBrackets) (bracket : Bracket) (positions : List Position) :
    (brackets.set bracket positions).set bracket (brackets.get bracket) = brackets := by
  cases bracket <;> rfl

/-- Properly nested tokens leave the open brackets as they are. -/
lemma check_of_nested {brackets : OpenBrackets} {ts us : List Token} (nk : Nested (kinds ts)) :
    brackets.check (ts ++ us) = brackets.check us := by
  generalize eq : kinds ts = ks at nk
  induction nk generalizing brackets ts us with
  | nil =>
    rw [kinds_eq_nil_iff.mp eq]
    rfl
  | plain op cl _ ih =>
    obtain ⟨t, more, rfl, rfl, eqm⟩ := kinds_eq_cons_iff.mp eq
    rw [List.cons_append, check.eq_def]
    dsimp only
    split
    · rename_i kt
      rw [kt] at op
      cases op
    · rename_i kt
      rw [kt] at cl
      cases cl
    · exact ih eqm
  | enclosed _ _ ihk ihl =>
    obtain ⟨o, _, rfl, ko, eqs⟩ := kinds_eq_cons_iff.mp eq
    obtain ⟨inner, _, rfl, eqi, eqc⟩ := kinds_eq_append_iff.mp eqs
    obtain ⟨c, outer, rfl, kc, eqo⟩ := kinds_eq_cons_iff.mp eqc
    rw [List.cons_append, check.eq_def]
    dsimp only
    rw [ko]
    dsimp only
    rw [List.append_assoc, ihk eqi, List.cons_append, check.eq_def]
    dsimp only
    rw [kc]
    dsimp only
    rw [get_set, if_pos rfl]
    dsimp only
    rw [set_set_get, ihl eqo]

end OpenBrackets

/-- In the tokens of a source every bracket is opened as often as it is closed. -/
lemma Token.ofSource_count_eq {source : String} {ts : List Token}
    (eq : Token.ofSource source = .ok ts) (bracket : Bracket) :
    (kinds ts).count (.opening bracket) = (kinds ts).count (.closing bracket) := by
  obtain ⟨_, balanced⟩ := Token.ofSource_eq_ok_iff.mp eq
  exact (checkBalance_eq_ok_iff.mp balanced bracket).2

/-- Properly nested brackets are balanced. -/
lemma Nested.checkBalance_eq {ts : List Token} (nk : Nested (kinds ts)) :
    checkBalance ts = .ok () := by
  have eq : ({} : OpenBrackets).check (ts ++ []) = ({} : OpenBrackets).check [] :=
    OpenBrackets.check_of_nested nk
  rw [List.append_nil] at eq
  exact eq

end LatinToScript
