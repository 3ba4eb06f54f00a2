import LatinToScript.Proofs.Diagnostic.Label

/-!
# Spans of any place

A place need not belong to the source that a diagnostic shows. Its offset may fall between the bytes of one
character or far behind the end. The span of such a place has a byte, and it stays inside the source unless
the source is empty (`Span.ofPosition_stop_le`). If it starts where a character starts, it covers this
character (`Span.exists_covers`).

Offsets are natural numbers here, and a machine has words of 64 bits for them. `WordSpan.ofOffset?` is the
same computation on words, which has no result once a sum overflows. No sum does if the length of the source
is a word (`WordSpan.ofOffset?_eq`).
-/

namespace LatinToScript

/-! ## Boundaries of characters -/

section Boundaries

variable {text : List Char} {offset : Nat} {c : Char}

/-- A character is found at an offset exactly when the text in front of it has this many bytes. -/
lemma charAt?_eq_some_iff :
    charAt? text offset = some c ↔
      ∃ before after, text = before ++ c :: after ∧ offset = byteLength before := by
  constructor
  · intro eq
    fun_induction charAt? text offset with
    | case1 => cases eq
    | case2 d rest =>
      cases eq
      exact ⟨[], rest, rfl, rfl⟩
    | case3 => cases eq
    | case4 d rest offset ge ih =>
      obtain ⟨before, after, rfl, place⟩ := ih eq
      refine ⟨d :: before, after, rfl, ?_⟩
      rw [byteLength_cons]
      omega
  · rintro ⟨before, after, rfl, rfl⟩
    exact charAt?_append before after c

/-- The next boundary lies behind the offset that it is asked for. -/
lemma lt_nextBoundary (text : List Char) (offset : Nat) : offset < nextBoundary text offset := by
  unfold nextBoundary
  split
  · rename_i c _
    exact Nat.lt_add_of_pos_right c.utf8Size_pos
  · exact Nat.lt_succ_self offset

/-- From inside a text the next boundary is not behind its end. -/
lemma nextBoundary_le (inside : offset < byteLength text) : nextBoundary text offset ≤ byteLength text := by
  unfold nextBoundary
  split
  · rename_i c eq
    obtain ⟨before, after, rfl, rfl⟩ := charAt?_eq_some_iff.mp eq
    rw [byteLength_append, byteLength_cons]
    omega
  · exact inside

/-- A boundary inside a source is the start of a character. -/
lemma exists_char_of_isValid {source : String} (inside : offset < source.utf8ByteSize)
    (valid : String.Pos.Raw.IsValid source ⟨offset⟩) :
    ∃ before c after, source.toList = before ++ c :: after ∧ offset = byteLength before := by
  obtain ⟨front, rest, rfl, place⟩ := String.Pos.Raw.isValid_iff_exists_append.mp valid
  have bytes : offset = front.utf8ByteSize := congrArg String.Pos.Raw.byteIdx place
  have some : rest.toList ≠ [] := by
    intro none
    rw [String.toList_eq_nil_iff.mp none, String.append_empty, bytes] at inside
    exact Nat.lt_irrefl _ inside
  obtain ⟨c, after, eq⟩ := List.exists_cons_of_ne_nil some
  refine ⟨front.toList, c, after, ?_, ?_⟩
  · rw [String.toList_append, eq]
  · rw [bytes, byteLength_eq, String.ofList_toList]

end Boundaries

/-! ## Spans -/

namespace Span

variable {text : List Char} {position : Position} {source : String}

/-- The span of a place reaches up to the next boundary. -/
lemma ofPosition_stop (text : List Char) (position : Position) :
    (ofPosition text position).stop = nextBoundary text (ofPosition text position).start :=
  Nat.max_eq_left (lt_nextBoundary text _)

/-- A span in the text starts at its place. -/
lemma ofPosition_start_of_lt (inside : position.offset < byteLength text) :
    (ofPosition text position).start = position.offset :=
  if_pos inside

/-- A place at the end of the text or behind it is drawn back to the last character. -/
lemma ofPosition_start_of_le (behind : byteLength text ≤ position.offset) :
    (ofPosition text position).start = byteLength text.dropLast :=
  if_neg (Nat.not_lt.mpr behind)

/-- The span of any place starts inside the text. -/
lemma ofPosition_start_lt (some : text ≠ []) (position : Position) :
    (ofPosition text position).start < byteLength text := by
  rcases Nat.lt_or_ge position.offset (byteLength text) with inside | behind
  · rw [ofPosition_start_of_lt inside]
    exact inside
  · have pos := (text.getLast some).utf8Size_pos
    have last : byteLength text = byteLength text.dropLast + byteLength [text.getLast some] := by
      rw [← byteLength_append, List.dropLast_append_getLast]
    rw [ofPosition_start_of_le behind, last, byteLength_cons]
    omega

/-- No span is empty. -/
lemma ofPosition_start_lt_stop (text : List Char) (position : Position) :
    (ofPosition text position).start < (ofPosition text position).stop := by
  rw [ofPosition_stop]
  exact lt_nextBoundary text _

/-- The span of any place ends inside the text, or behind the first byte if there is none. -/
lemma ofPosition_stop_le (text : List Char) (position : Position) :
    (ofPosition text position).stop ≤ max (byteLength text) 1 := by
  rcases eq_or_ne text [] with rfl | some
  · rw [ofPosition_stop, ofPosition_start_of_le (Nat.zero_le _)]
    decide
  · rw [ofPosition_stop]
    exact Nat.le_trans (nextBoundary_le (ofPosition_start_lt some position)) (Nat.le_max_left _ _)

/-- The end of a span is a word if the length of the text is one. -/
lemma ofPosition_stop_lt (size : byteLength text < 2 ^ 64) (position : Position) :
    (ofPosition text position).stop < 2 ^ 64 :=
  Nat.lt_of_le_of_lt (ofPosition_stop_le text position) (Nat.max_lt.mpr ⟨size, by decide⟩)

/-- A span that starts at a boundary covers the character there. -/
lemma exists_covers (some : source ≠ "")
    (valid : String.Pos.Raw.IsValid source ⟨(ofPosition source.toList position).start⟩) :
    ∃ before c after, (ofPosition source.toList position).Covers source before c after := by
  have chars : source.toList ≠ [] := mt String.toList_eq_nil_iff.mp some
  have inside := ofPosition_start_lt chars position
  rw [byteLength_eq, String.ofList_toList] at inside
  obtain ⟨before, c, after, eq, place⟩ := exists_char_of_isValid inside valid
  have covers := covers_widen eq
  rw [← place] at covers
  exact ⟨before, c, after, covers⟩

end Span

/-! ## Words -/

/-- The sum of two words, unless it overflows. -/
def wordSum? (a b : UInt64) : Option UInt64 :=
  if BitVec.uaddOverflow a.toBitVec b.toBitVec then none else some (a + b)

/-- The sum of two words, if there is one, is that of their numbers. -/
lemma wordSum?_eq_some_iff {a b sum : UInt64} :
    wordSum? a b = some sum ↔ sum.toNat = a.toNat + b.toNat := by
  have lt := sum.toNat_lt
  unfold wordSum? BitVec.uaddOverflow
  simp only [UInt64.toNat_toBitVec, ge_iff_le, decide_eq_true_eq]
  split
  · simp only [reduceCtorEq, false_iff]
    omega
  · rw [Option.some_inj, ← UInt64.toNat_inj, UInt64.toNat_add, Nat.mod_eq_of_lt (by omega)]
    exact eq_comm

/-- A sum that is a word is found without an overflow. -/
lemma exists_wordSum? (a b : UInt64) (fits : a.toNat + b.toNat < 2 ^ 64) :
    ∃ sum, wordSum? a b = some sum ∧ sum.toNat = a.toNat + b.toNat := by
  have sum : (a + b).toNat = a.toNat + b.toNat := by rw [UInt64.toNat_add, Nat.mod_eq_of_lt fits]
  exact ⟨a + b, wordSum?_eq_some_iff.mpr sum, sum⟩

/-- `nextBoundary` on words. -/
def nextBoundary? (text : List Char) (offset : UInt64) : Option UInt64 := do
  -- This sum is made first, also where a character starts and it is not needed.
  let further ← wordSum? offset 1
  match charAt? text offset.toNat with
  | some c => wordSum? offset (.ofNat c.utf8Size)
  | none => some further

/-- If the next boundary is a word, neither sum overflows. -/
lemma exists_nextBoundary? {text : List Char} {offset : UInt64}
    (fits : nextBoundary text offset.toNat < 2 ^ 64) :
    ∃ stop, nextBoundary? text offset = some stop ∧ stop.toNat = nextBoundary text offset.toNat := by
  have lt := lt_nextBoundary text offset.toNat
  have one : (1 : UInt64).toNat = 1 := rfl
  obtain ⟨further, eqf, bytes⟩ := exists_wordSum? offset 1 (by omega)
  rw [nextBoundary?, eqf, Option.bind_eq_bind, Option.bind_some]
  unfold nextBoundary at fits ⊢
  cases eq : charAt? text offset.toNat with
  | none => exact ⟨further, rfl, bytes⟩
  | some c =>
    rw [eq] at fits
    have size : (UInt64.ofNat c.utf8Size).toNat = c.utf8Size :=
      UInt64.toNat_ofNat_of_lt' (Nat.lt_of_le_of_lt c.utf8Size_le_four (by decide))
    have room : offset.toNat + (UInt64.ofNat c.utf8Size).toNat < 2 ^ 64 := by
      rw [size]
      exact fits
    obtain ⟨stop, eqs, sum⟩ := exists_wordSum? _ _ room
    rw [size] at sum
    exact ⟨stop, eqs, sum⟩

/-- A span whose ends are words. -/
structure WordSpan where
  start : UInt64
  stop : UInt64
deriving DecidableEq, Repr

namespace WordSpan

/-- The span with the numbers that the words stand for. -/
def toSpan (span : WordSpan) : Span :=
  ⟨span.start.toNat, span.stop.toNat⟩

/-- `Span.widen` on words. -/
def widen? (span : WordSpan) : Option WordSpan := do
  let further ← wordSum? span.start 1
  some { span with stop := max span.stop further }

/-- Where the span of a place starts. -/
def startAt (text : List Char) (offset : UInt64) : UInt64 :=
  if offset < .ofNat (byteLength text) then offset else .ofNat (byteLength text.dropLast)

/-- `Span.ofPosition` on words. -/
def ofOffset? (text : List Char) (offset : UInt64) : Option WordSpan := do
  let stop ← nextBoundary? text (startAt text offset)
  widen? ⟨startAt text offset, stop⟩

/-- Widening a span does not overflow if the byte behind its start has a word. -/
lemma exists_widen? (span : WordSpan) (fits : span.start.toNat + 1 < 2 ^ 64) :
    ∃ wide, span.widen? = some wide ∧ wide.toSpan = span.toSpan.widen := by
  obtain ⟨further, eq, bytes⟩ := exists_wordSum? span.start 1 fits
  refine ⟨{ span with stop := max span.stop further }, ?_, ?_⟩
  · rw [widen?, eq, Option.bind_eq_bind, Option.bind_some]
  · rw [toSpan, UInt64.toNat_max, bytes]
    rfl

/-- The start that is found with words is the start of the span. -/
lemma toNat_startAt {text : List Char} {position : Position} (size : byteLength text < 2 ^ 64)
    (word : position.offset < 2 ^ 64) :
    (startAt text (.ofNat position.offset)).toNat = (Span.ofPosition text position).start := by
  have offset : (UInt64.ofNat position.offset).toNat = position.offset := UInt64.toNat_ofNat_of_lt' word
  have length : (UInt64.ofNat (byteLength text)).toNat = byteLength text := UInt64.toNat_ofNat_of_lt' size
  unfold startAt
  split
  · rename_i inside
    rw [UInt64.lt_iff_toNat_lt, offset, length] at inside
    rw [offset, Span.ofPosition_start_of_lt inside]
  · rename_i behind
    rw [UInt64.lt_iff_toNat_lt, offset, length] at behind
    have start := Span.ofPosition_start_of_le (Nat.not_lt.mp behind)
    rw [start]
    apply UInt64.toNat_ofNat_of_lt'
    rw [← start]
    exact Nat.lt_trans (Span.ofPosition_start_lt_stop text position) (Span.ofPosition_stop_lt size position)

/-- No sum overflows for a text whose length is a word, so that words give the same span as numbers. -/
lemma ofOffset?_eq {text : List Char} {position : Position} (size : byteLength text < 2 ^ 64)
    (word : position.offset < 2 ^ 64) :
    (ofOffset? text (.ofNat position.offset)).map toSpan = some (Span.ofPosition text position) := by
  have fits := Span.ofPosition_stop_lt size position
  have bytes := toNat_startAt size word
  rw [Span.ofPosition_stop, ← bytes] at fits
  obtain ⟨stop, eqs, boundary⟩ := exists_nextBoundary? fits
  have room := Nat.lt_of_le_of_lt (lt_nextBoundary text _) fits
  obtain ⟨wide, eqw, widened⟩ := exists_widen? ⟨startAt text (.ofNat position.offset), stop⟩ room
  rw [ofOffset?, eqs, Option.bind_eq_bind, Option.bind_some, eqw, Option.map_some, widened, toSpan,
    boundary, bytes]
  rfl

end WordSpan

/-- The span of a place is computed on words without overflow, whether or not the place belongs to the source.
It has a byte, and it ends inside the source unless this is empty. It starts at the place, or with the last
character if the place is behind the end. If a character starts there, it covers this character and nothing
else. -/
theorem Span.ofPosition_safe (source : String) (position : Position)
    (size : source.utf8ByteSize < 2 ^ 64 - 1) (word : position.offset < 2 ^ 64) :
    ∃ span, Span.ofPosition source.toList position = span ∧
      (WordSpan.ofOffset? source.toList (.ofNat position.offset)).map WordSpan.toSpan = some span ∧
      span.start < span.stop ∧ span.stop ≤ max source.utf8ByteSize 1 ∧
      (position.offset < source.utf8ByteSize → span.start = position.offset) ∧
      (source.utf8ByteSize ≤ position.offset →
        (source = "" → span.start = 0) ∧
        ∀ before c, source.toList = before ++ [c] →
          span.start = (String.ofList before).utf8ByteSize) ∧
      (source ≠ "" → String.Pos.Raw.IsValid source ⟨span.start⟩ →
        ∃ before c after, span.Covers source before c after) := by
  have bytes : byteLength source.toList = source.utf8ByteSize := by
    rw [byteLength_eq, String.ofList_toList]
  have length : byteLength source.toList < 2 ^ 64 := by omega
  refine ⟨_, rfl, WordSpan.ofOffset?_eq length word, Span.ofPosition_start_lt_stop _ _, ?_, ?_, ?_,
    Span.exists_covers⟩
  · rw [← bytes]
    exact Span.ofPosition_stop_le _ _
  · rw [← bytes]
    exact Span.ofPosition_start_of_lt
  · intro behind
    rw [← bytes] at behind
    rw [Span.ofPosition_start_of_le behind]
    constructor
    · rintro rfl
      rfl
    · intro before c eq
      rw [eq, List.dropLast_concat, byteLength_eq]

/-- A place between the two bytes of a character, and the last one that a word can name. -/
theorem Span.ofPosition_safe_twoBytes :
    (WordSpan.ofOffset? "aé".toList (.ofNat 2)).map WordSpan.toSpan = some ⟨2, 3⟩ ∧
      (WordSpan.ofOffset? "aé".toList (.ofNat (2 ^ 64 - 1))).map WordSpan.toSpan = some ⟨1, 3⟩ ∧
      ∃ before c after, (⟨1, 3⟩ : Span).Covers "aé" before c after := by
  have size : "aé".utf8ByteSize < 2 ^ 64 - 1 := by decide
  obtain ⟨_, rfl, inner, _⟩ := Span.ofPosition_safe "aé" ⟨2, 1, 2⟩ size (by decide)
  obtain ⟨_, rfl, far, _, _, _, _, covers⟩ :=
    Span.ofPosition_safe "aé" ⟨2 ^ 64 - 1, 1, 3⟩ size (by decide)
  exact ⟨inner, far, covers (by decide) (by decide)⟩

end LatinToScript
