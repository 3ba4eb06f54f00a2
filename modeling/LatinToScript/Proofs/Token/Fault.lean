import LatinToScript.Proofs.Token.Verdict

/-!
# Where a text has no tokens

Every token and every fault has the place of a character of the text, which is no white space. A fault names
the character that stands there: the unknown one, the quote that is not closed, or the bracket without a
partner (`Token.ofSource_fault`).
-/

namespace LatinToScript

/-- A character that is no white space stands at a place of a text, which starts at a place of its own. -/
def StandsAt (start : Position) (text : List Char) (position : Position) (c : Char) : Prop :=
  ∃ before after, text = before ++ c :: after ∧ position = start.advanceAll before ∧ isWhiteSpace c = false

/-- The character that a fault is about. -/
def TokenError.culprit : TokenError → Char
  | .unknownCharacter c _ => c
  | .unfinishedText _ => '"'
  | .unmatchedOpening bracket _ => bracket.openingChar
  | .unmatchedClosing bracket _ => bracket.closingChar

variable {position : Position} {text : List Char} {c : Char}

/-! ## Scanning -/

/-- Scanning stops at the character that starts no token. -/
lemma scan_fault {e : TokenError} (eq : scan position text = .error e) :
    StandsAt position text e.position e.culprit ∧ e.culprit ≠ ';' := by
  have vd := scan_verdict position text
  rw [eq] at vd
  cases vd with
  | @unknown before c after il _ =>
    obtain ⟨eqt, _, illegal⟩ := il
    refine ⟨⟨before, after, eqt, rfl, Bool.eq_false_iff.mpr fun white => illegal (.inl white)⟩, ?_⟩
    rintro rfl
    exact illegal (.inr (.inl (by decide)))
  | @unfinished before after _ eqt _ _ =>
    have quote : isWhiteSpace '"' = false ∧ '"' ≠ ';' := by decide
    exact ⟨⟨before, after, eqt, rfl, quote.1⟩, quote.2⟩

/-- Every token has its characters in the text, and starts where they do. -/
lemma Scans.exists_lexeme {ts : List Token} (sc : Scans position text ts) {t : Token} (mem : t ∈ ts) :
    ∃ front c taken more, text = front ++ c :: (taken ++ more) ∧
      t.position = position.advanceAll front ∧ Lexes (c :: taken) more t.kind := by
  induction sc with
  | nil => cases mem
  | @blank position d text ts white _ ih =>
    obtain ⟨front, c, taken, more, rfl, place, lx⟩ := ih mem
    exact ⟨d :: front, c, taken, more, rfl, place, lx⟩
  | @token position d others rest kind ts lx _ ih =>
    rcases List.mem_cons.mp mem with rfl | mem
    · exact ⟨[], d, others, rest, rfl, rfl, lx⟩
    · obtain ⟨front, c, taken, more, rfl, place, lx⟩ := ih mem
      refine ⟨(d :: others) ++ front, c, taken, more, ?_, ?_, lx⟩
      · rw [← List.cons_append, List.append_assoc]
      · rw [place]
        exact List.foldl_append.symm

/-- Every token stands where its first character does. -/
lemma Scans.standsAt {ts : List Token} (sc : Scans position text ts) {t : Token} (mem : t ∈ ts) :
    ∃ c taken more, StandsAt position text t.position c ∧ Lexes (c :: taken) more t.kind := by
  obtain ⟨front, c, taken, more, eq, place, lx⟩ := sc.exists_lexeme mem
  exact ⟨c, taken, more, ⟨front, _, eq, place, lx.not_blank⟩, lx⟩

/-! ## Brackets -/

/-- A fault is about a bracket. -/
inductive TokenError.Reports : TokenError → Token → Prop where
  | opening {bracket position} :
    Reports (.unmatchedOpening bracket position) ⟨.opening bracket, position⟩
  | closing {bracket position} :
    Reports (.unmatchedClosing bracket position) ⟨.closing bracket, position⟩

/-- The brackets that are open are among the tokens. -/
def OpenBrackets.Among (brackets : OpenBrackets) (ts : List Token) : Prop :=
  ∀ bracket, ∀ position ∈ brackets.get bracket, ⟨.opening bracket, position⟩ ∈ ts

namespace OpenBrackets

variable {brackets : OpenBrackets} {all ts : List Token} {e : TokenError}

/-- Open brackets stay among the tokens when those of one kind are exchanged for others of them. -/
lemma Among.set {bracket : Bracket} {positions : List Position} (among : brackets.Among all)
    (new : ∀ position ∈ positions, ⟨.opening bracket, position⟩ ∈ all) :
    (brackets.set bracket positions).Among all := by
  intro other position mem
  rw [get_set] at mem
  split at mem
  · rename_i eq
    exact eq ▸ new position mem
  · exact among other position mem

/-- A bracket that is reported at the end is one of the tokens. -/
lemma Among.close_fault (among : brackets.Among all) (eq : brackets.close = .error e) :
    ∃ t ∈ all, e.Reports t := by
  unfold close at eq
  split at eq
  · rename_i last
    cases eq
    exact ⟨_, among .parenthesis _ (List.mem_of_getLast? last), .opening⟩
  · rename_i last
    cases eq
    exact ⟨_, among .brace _ (List.mem_of_getLast? last), .opening⟩
  · cases eq

/-- A complaint is about one of the tokens, whether it is found there or at the end. -/
lemma Among.check_fault (among : brackets.Among all) (sub : ∀ t ∈ ts, t ∈ all)
    (eq : brackets.check ts = .error e) : ∃ t ∈ all, e.Reports t := by
  induction ts generalizing brackets with
  | nil => exact among.close_fault eq
  | cons t ts ih =>
    obtain ⟨mem, subs⟩ := List.forall_mem_cons.mp sub
    obtain ⟨kind, position⟩ := t
    rw [check.eq_def] at eq
    dsimp only at eq
    split at eq
    · rename_i bracket
      refine ih (among.set ?_) subs eq
      rw [List.forall_mem_cons]
      exact ⟨mem, among bracket⟩
    · rename_i bracket
      split at eq
      · cases eq
        exact ⟨_, mem, .closing⟩
      · rename_i eqo
        refine ih (among.set ?_) subs eq
        intro q memq
        exact among bracket q (eqo ▸ List.mem_cons_of_mem _ memq)
    · exact ih among subs eq

end OpenBrackets

/-- A fault of the brackets is about one of the tokens. -/
lemma checkBalance_fault {ts : List Token} {e : TokenError} (eq : checkBalance ts = .error e) :
    ∃ t ∈ ts, e.Reports t := by
  have among : ({} : OpenBrackets).Among ts := by
    intro bracket
    cases bracket <;> exact List.forall_mem_nil _
  exact among.check_fault (fun _ mem => mem) eq

/-- No word is a bracket. -/
lemma classify_ne_bracket (word : List Char) (bracket : Bracket) :
    classify word ≠ .opening bracket ∧ classify word ≠ .closing bracket := by
  unfold classify
  dsimp only
  split
  · exact ⟨nofun, nofun⟩
  split
  · exact ⟨nofun, nofun⟩
  split
  · exact ⟨nofun, nofun⟩
  split
  · exact ⟨nofun, nofun⟩
  split
  · exact ⟨nofun, nofun⟩
  split
  · exact ⟨nofun, nofun⟩
  · exact ⟨nofun, nofun⟩

/-- A bracket has one character. -/
lemma Lexes.eq_bracket {front more : List Char} {kind : TokenKind} (lx : Lexes front more kind) :
    (∀ bracket, kind = .opening bracket → front = [bracket.openingChar]) ∧
      ∀ bracket, kind = .closing bracket → front = [bracket.closingChar] := by
  cases lx with
  | semicolon => exact ⟨nofun, nofun⟩
  | text _ => exact ⟨nofun, nofun⟩
  | opening =>
    refine ⟨?_, nofun⟩
    rintro _ ⟨⟩
    rfl
  | closing =>
    refine ⟨nofun, ?_⟩
    rintro _ ⟨⟩
    rfl
  | negative _ _ _ => exact ⟨nofun, nofun⟩
  | word _ _ _ =>
    refine ⟨?_, ?_⟩
    · intro bracket eq
      exact absurd eq (classify_ne_bracket _ bracket).1
    · intro bracket eq
      exact absurd eq (classify_ne_bracket _ bracket).2

/-- The token that a fault is about starts with its culprit, which is no semicolon. -/
lemma TokenError.Reports.culprit_eq {e : TokenError} {t : Token} {taken more : List Char}
    (rp : e.Reports t) (lx : Lexes (c :: taken) more t.kind) : c = e.culprit ∧ e.culprit ≠ ';' := by
  cases rp with
  | @opening bracket _ =>
    refine ⟨(List.cons.inj (lx.eq_bracket.1 bracket rfl)).1, ?_⟩
    cases bracket <;> exact nofun
  | @closing bracket _ =>
    refine ⟨(List.cons.inj (lx.eq_bracket.2 bracket rfl)).1, ?_⟩
    cases bracket <;> exact nofun

/-- A fault is at the place of the token that it is about. -/
lemma TokenError.Reports.position_eq {e : TokenError} {t : Token} (rp : e.Reports t) :
    t.position = e.position := by
  cases rp <;> rfl

/-! ## Sources -/

/-- A source without tokens has a character that says why, and it stands at the place of the fault. -/
lemma Token.ofSource_fault {source : String} {e : TokenError} (eq : Token.ofSource source = .error e) :
    StandsAt .start (scannedText source) e.position e.culprit ∧ e.culprit ≠ ';' := by
  unfold Token.ofSource at eq
  split at eq
  · rename_i eqs
    cases eq
    exact scan_fault eqs
  · rename_i ts eqs
    split at eq
    · rename_i eqb
      cases eq
      obtain ⟨t, mem, rp⟩ := checkBalance_fault eqb
      obtain ⟨c, taken, more, st, lx⟩ := (scan_eq_ok_iff.mp eqs).standsAt mem
      obtain ⟨rfl, nosemi⟩ := rp.culprit_eq lx
      rw [rp.position_eq] at st
      exact ⟨st, nosemi⟩
    · cases eq

end LatinToScript
