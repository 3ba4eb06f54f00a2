import LatinToScript.Diagnostic.Report
import LatinToScript.Proofs.Diagnostic.Label

/-!
# The place that a report names

A report finds the line of its label by counting characters, and a label is given in bytes. The line and the
column of a character, found from its index, are those that the scanner counts
(`Report.findLine_advanceAll`), and a line and a column belong to one index only
(`Report.offset_findLine_eq`). So a report names the place of a fault exactly if the bytes in front of the fault
are as many as the characters, and the label does not go beyond the source
(`Diagnostic.render_names_place_iff`).
-/

namespace LatinToScript

/-! ## Lines -/

/-- A line feed ends a line, and it belongs to the line that it ends. -/
lemma brokenLines_feed (rest : List Char) : brokenLines ('\n' :: rest) = ['\n'] :: brokenLines rest := by
  rw [brokenLines]
  · rfl
  · intro more eq
    cases eq

/-- A character that ends no line belongs to the line of the text behind it. -/
lemma brokenLines_cons {c : Char} {rest line : List Char} {lines : List (List Char)}
    (other : isLineBreak c = false) (eq : brokenLines rest = line :: lines) :
    brokenLines (c :: rest) = (c :: line) :: lines := by
  rw [brokenLines]
  · rw [other, eq]
    rfl
  · rintro more rfl
    cases other

/-- A text with a character has a first line, which is not empty. -/
lemma exists_brokenLines {text : List Char} (some : text ≠ []) :
    ∃ line lines, brokenLines text = line :: lines ∧ line ≠ [] := by
  rw [brokenLines.eq_def]
  split
  case h_1 => exact absurd rfl some
  case h_2 eq => exact ⟨_, _, rfl, List.cons_ne_nil _ _⟩
  case h_3 eq =>
    split
    · exact ⟨_, _, rfl, List.cons_ne_nil _ _⟩
    · split
      · exact ⟨_, _, rfl, List.cons_ne_nil _ _⟩
      · exact ⟨_, _, rfl, List.cons_ne_nil _ _⟩

namespace Report

/-- An index that is not behind the first line is in it. -/
lemma findLine_of_lt {index number offset : Nat} {line : List Char} {lines : List (List Char)}
    (lt : index < offset + line.length) :
    findLine index number offset (line :: lines) = ⟨number, offset, line⟩ := by
  cases lines with
  | nil => rfl
  | cons next lines => rw [findLine, if_pos lt]

/-- An index behind the first line is looked for in the others. -/
lemma findLine_of_le {index number offset : Nat} {line next : List Char} {lines : List (List Char)}
    (le : offset + line.length ≤ index) :
    findLine index number offset (line :: next :: lines) =
      findLine index (number + 1) (offset + line.length) (next :: lines) := by
  rw [findLine, if_neg (Nat.not_lt.mpr le)]

/-- The line and the column that the scanner counts in front of a character are those of its index. A part of
the first line may have been counted before. -/
lemma findLine_advanceAll {before after line part : List Char} {lines : List (List Char)} {c : Char}
    {position : Position} {index number offset : Nat}
    (feeds : ∀ d ∈ before, isLineBreak d = true → d = '\n')
    (eq : brokenLines (before ++ c :: after) = line :: lines)
    (here : position.line = number ∧ position.column = part.length + 1)
    (eqi : index = offset + part.length + before.length) :
    (position.advanceAll before).line = (findLine index number offset ((part ++ line) :: lines)).number ∧
    (position.advanceAll before).column + (findLine index number offset ((part ++ line) :: lines)).offset =
      index + 1 := by
  induction before generalizing position number offset part line lines with
  | nil =>
    obtain ⟨_, _, eq', some⟩ := exists_brokenLines (List.cons_ne_nil c after)
    obtain ⟨rfl, rfl⟩ := List.cons.inj (eq.symm.trans eq')
    have pos := List.length_pos_iff.mpr some
    rw [List.length_nil] at eqi
    rw [findLine_of_lt (by rw [List.length_append]; omega)]
    refine ⟨here.1, ?_⟩
    change position.column + offset = _
    omega
  | cons d before ih =>
    obtain ⟨feed, others⟩ := List.forall_mem_cons.mp feeds
    obtain ⟨line', lines', eq', _⟩ := exists_brokenLines
      (List.append_ne_nil_of_right_ne_nil before (List.cons_ne_nil c after))
    change ((position.advance d).advanceAll before).line = _ ∧
      ((position.advance d).advanceAll before).column + _ = _
    rw [List.length_cons] at eqi
    by_cases new : d = '\n'
    · -- A line feed ends the line, and the next one starts behind it.
      subst new
      rw [List.cons_append, brokenLines_feed, eq'] at eq
      obtain ⟨rfl, rfl⟩ := List.cons.inj eq
      have width : (part ++ ['\n']).length = part.length + 1 := List.length_append
      rw [findLine_of_le (by omega)]
      have line : (position.advance '\n').line = number + 1 := congrArg (· + 1) here.1
      have column : (position.advance '\n').column = ([] : List Char).length + 1 := rfl
      have next : index = offset + (part ++ ['\n']).length + ([] : List Char).length + before.length := by
        rw [width, List.length_nil]
        omega
      exact ih others eq' ⟨line, column⟩ next
    · have other : isLineBreak d = false := Bool.eq_false_iff.mpr fun broken => new (feed broken)
      rw [List.cons_append, brokenLines_cons other eq'] at eq
      obtain ⟨rfl, rfl⟩ := List.cons.inj eq
      rw [List.append_cons]
      refine ih others eq' ?_ ?_
      · rw [Position.advance, if_neg new, List.length_append, List.length_singleton]
        exact ⟨here.1, by rw [here.2]⟩
      · rw [List.length_append, List.length_singleton]
        omega

/-- The place of a character in a text, from the line of its index. -/
lemma findLine_start {before after : List Char} {c : Char}
    (feeds : ∀ d ∈ before, isLineBreak d = true → d = '\n') :
    (Position.start.advanceAll before).line =
        (findLine before.length 1 0 (brokenLines (before ++ c :: after))).number ∧
    (Position.start.advanceAll before).column +
        (findLine before.length 1 0 (brokenLines (before ++ c :: after))).offset = before.length + 1 := by
  obtain ⟨line, lines, eq, _⟩ := exists_brokenLines
    (List.append_ne_nil_of_right_ne_nil before (List.cons_ne_nil c after))
  have start : Position.start.line = 1 ∧ Position.start.column = ([] : List Char).length + 1 := ⟨rfl, rfl⟩
  have index : before.length = 0 + ([] : List Char).length + before.length := by
    rw [List.length_nil]
    omega
  have here := findLine_advanceAll feeds eq start index
  rw [List.nil_append] at here
  rw [eq]
  exact here

/-- Lines are numbered upwards. -/
lemma number_le_findLine (index number offset : Nat) (lines : List (List Char)) :
    number ≤ (findLine index number offset lines).number := by
  fun_induction findLine index number offset lines with
  | case1 => exact Nat.le_refl _
  | case2 => exact Nat.le_refl _
  | case3 => exact Nat.le_refl _
  | case4 number offset line next lines ge ih => exact Nat.le_of_succ_le ih

/-- A line starts at an index or in front of it. -/
lemma offset_findLine_le {index offset : Nat} (le : offset ≤ index) (number : Nat) (lines : List (List Char)) :
    (findLine index number offset lines).offset ≤ index := by
  fun_induction findLine index number offset lines with
  | case1 => exact le
  | case2 => exact le
  | case3 => exact le
  | case4 number offset line next lines ge ih => exact ih (Nat.not_lt.mp ge)

/-- Lines with the same number start at the same index. -/
lemma offset_findLine_eq {i j number offset : Nat} {lines : List (List Char)}
    (same : (findLine i number offset lines).number = (findLine j number offset lines).number) :
    (findLine i number offset lines).offset = (findLine j number offset lines).offset := by
  induction lines generalizing number offset with
  | nil => rfl
  | cons line lines ih =>
    cases lines with
    | nil => rfl
    | cons next lines =>
      have above := fun k => number_le_findLine k (number + 1) (offset + line.length) (next :: lines)
      rcases Nat.lt_or_ge i (offset + line.length) with lti | gei
      · rcases Nat.lt_or_ge j (offset + line.length) with ltj | gej
        · rw [findLine_of_lt lti, findLine_of_lt ltj]
        · rw [findLine_of_lt lti, findLine_of_le gej] at same
          have := above j
          dsimp only at same
          omega
      · rcases Nat.lt_or_ge j (offset + line.length) with ltj | gej
        · rw [findLine_of_le gei, findLine_of_lt ltj] at same
          have := above i
          dsimp only at same
          omega
        · rw [findLine_of_le gei, findLine_of_le gej] at same ⊢
          exact ih same

/-! ## Rows -/

/-- A report names a line and a column of a file in its second row. -/
def Locates (report file : String) (line column : Nat) : Prop :=
  ∃ (title tail : List Char) (margin : Nat), '\n' ∉ title ∧
    report.toList = title ++ '\n' :: (List.replicate margin ' ' ++
      (("╭─[ " ++ file ++ ":" ++ toString line ++ ":" ++ toString column ++ " ]").toList ++ '\n' :: tail))

/-- Decimal digits are known from every text behind them that does not go on with a digit. -/
lemma ofNat_cancel {m n : Nat} {more more' : List Char} (stops : Stops Char.isDigit more)
    (stops' : Stops Char.isDigit more')
    (eq : (Decimal.ofNat m).toList ++ more = (Decimal.ofNat n).toList ++ more') : m = n ∧ more = more' := by
  have digits : ∀ k, ∀ c ∈ (Decimal.ofNat k).toList, c.isDigit = true := fun k c =>
    Decimal.isDigit_of_mem_ofNat
  obtain ⟨same, rest⟩ := append_cancel_of_stops (digits m) (digits n) stops stops' eq
  exact ⟨Decimal.ofNat_injective (String.toList_inj.mp same), rest⟩

/-- A report names one place only. -/
lemma Locates.unique {report file : String} {line line' column column' : Nat}
    (locates : Locates report file line column) (locates' : Locates report file line' column') :
    line = line' ∧ column = column' := by
  obtain ⟨title, tail, margin, no, eq⟩ := locates
  obtain ⟨title', tail', margin', no', eq'⟩ := locates'
  obtain ⟨_, rows⟩ := append_cons_cancel no no' (eq.symm.trans eq')
  have mark : "╭─[ ".toList = ['╭', '─', '[', ' '] := rfl
  have colon : ":".toList = [':'] := rfl
  have closing : " ]".toList = [' ', ']'] := rfl
  simp only [String.toList_append, List.append_assoc, mark, colon, closing, List.cons_append,
    List.nil_append, ← Decimal.ofNat_eq_toString] at rows
  have blanks : ∀ n, ∀ c ∈ List.replicate n ' ', decide (c = ' ') = true := fun n c mem =>
    decide_eq_true (List.eq_of_mem_replicate mem)
  have marked : ∀ more, Stops (fun c => decide (c = ' ')) ('╭' :: more) := by
    rintro more c ⟨⟩
    rfl
  obtain ⟨_, rows⟩ := append_cancel_of_stops (blanks margin) (blanks margin') (marked _) (marked _) rows
  simp only [List.cons.injEq, true_and, List.append_cancel_left_eq] at rows
  have colons : ∀ more, Stops Char.isDigit (':' :: more) := by
    rintro more c ⟨⟩
    rfl
  have closings : ∀ more, Stops Char.isDigit (' ' :: more) := by
    rintro more c ⟨⟩
    rfl
  obtain ⟨eql, rows⟩ := ofNat_cancel (colons _) (colons _) rows
  obtain ⟨eqc, _⟩ := ofNat_cancel (closings _) (closings _) (List.cons.inj rows).2
  exact ⟨eql, eqc⟩

/-- Trimming adds no character. -/
lemma mem_of_mem_trimEnd {c : Char} {text : List Char} (mem : c ∈ trimEnd text) : c ∈ text := by
  rw [trimEnd, List.mem_reverse] at mem
  exact List.mem_reverse.mp ((List.dropWhile_suffix _).mem mem)

/-- A text that does not end in white space stays as it is. -/
lemma trimEnd_concat {c : Char} (other : isWhiteSpace c = false) (text : List Char) :
    trimEnd (text ++ [c]) = text ++ [c] := by
  rw [trimEnd, List.reverse_concat, List.dropWhile_cons_of_neg (by rw [other]; exact Bool.false_ne_true),
    List.reverse_cons, List.reverse_reverse]

/-- Rows end as their last row does. -/
lemma exists_intercalate_concat (rows : List (List Char)) (last : List Char) (c : Char) :
    ∃ front, List.intercalate ['\n'] (rows ++ [last ++ [c]]) = front ++ [c] := by
  induction rows with
  | nil => exact ⟨last, List.intercalate_singleton⟩
  | cons row rows ih =>
    obtain ⟨front, eq⟩ := ih
    obtain ⟨next, others, eqn⟩ := List.exists_cons_of_ne_nil (List.append_ne_nil_of_right_ne_nil rows
      (List.cons_ne_nil (last ++ [c]) []))
    refine ⟨row ++ ['\n'] ++ front, ?_⟩
    rw [List.cons_append, eqn, List.intercalate_cons_cons, ← eqn, eq]
    exact (List.append_assoc ..).symm

section Rendered

variable {d : Diagnostic} {text : SourceText} {label : Label} {labels : List Label}

/-- The first row of a report. -/
def title (d : Diagnostic) : String :=
  "[" ++ d.code ++ "] Error: " ++ d.headline

/-- The corner at the end of a report keeps its last row from being trimmed. -/
lemma exists_toList_render {first second last : String} {others : List String}
    (eq : rows d = first :: second :: (others ++ [last ++ "╯"])) :
    ∃ tail, d.render.toList = first.toList ++ '\n' :: (second.toList ++ '\n' :: tail) := by
  have feed : "\n".toList = ['\n'] := rfl
  have corner : (last ++ "╯").toList = last.toList ++ ['╯'] := String.toList_append
  obtain ⟨front, eqf⟩ := exists_intercalate_concat
    (first.toList :: second.toList :: others.map String.toList) last.toList '╯'
  obtain ⟨next, more, eqn⟩ := List.exists_cons_of_ne_nil (List.append_ne_nil_of_right_ne_nil
    (others.map String.toList) (List.cons_ne_nil (last.toList ++ ['╯']) []))
  refine ⟨List.intercalate ['\n'] (next :: more), ?_⟩
  rw [List.cons_append, List.cons_append] at eqf
  rw [Diagnostic.render, eq, String.toList_ofList, String.toList_intercalate, feed, List.map_cons,
    List.map_cons, List.map_append, List.map_singleton, corner, eqf, trimEnd_concat (by decide), ← eqf, eqn,
    List.intercalate_cons_cons, List.intercalate_cons_cons, List.append_assoc, List.append_assoc]
  rfl

/-- A report names the place where the span of its label starts, if this lies in the source. -/
lemma locates_render {line : Line} (eqs : d.source = some text) (eql : d.labels = label :: labels)
    (found : locate? text.text.toList label.span.widen = some line) (no : '\n' ∉ (title d).toList) :
    Locates d.render text.file line.number (label.span.widen.start - line.offset + 1) := by
  let width := (Decimal.digits line.number).length + 2
  let location := copies width ' ' ++ "╭─[ " ++ place text.file line label.span.widen ++ " ]"
  obtain ⟨others, eqr⟩ : ∃ others, rows d = title d :: location :: (others ++ [copies width '─' ++ "╯"]) := by
    rw [rows, eqs, eql]
    dsimp only [Option.getD_some]
    rw [found]
    exact ⟨_, rfl⟩
  obtain ⟨tail, whole⟩ := exists_toList_render eqr
  refine ⟨(title d).toList, tail, width, no, ?_⟩
  rw [whole]
  simp only [location, place, copies, Decimal.ofNat_eq_toString, String.toList_append, String.toList_ofList,
    List.append_assoc]

/-- A report whose label does not lie in the source names no place. -/
lemma not_locates_render {file : String} {line column : Nat} (eqs : d.source = some text)
    (eql : d.labels = label :: labels) (lost : locate? text.text.toList label.span.widen = none)
    (no : '\n' ∉ (title d).toList) : ¬ Locates d.render file line column := by
  have eqr : rows d = [title d] := by
    rw [rows, eqs, eql]
    dsimp only [Option.getD_some]
    rw [lost]
    rfl
  rintro ⟨front, tail, margin, _, eq⟩
  rw [Diagnostic.render, eqr, String.toList_ofList, String.intercalate_singleton] at eq
  apply no
  apply mem_of_mem_trimEnd
  rw [eq]
  exact List.mem_append_right front List.mem_cons_self

end Rendered

end Report

/-! ## Diagnostics -/

/-- No text has more characters than bytes, and as many only if each character takes one. -/
lemma length_le_byteLength (text : List Char) : text.length ≤ byteLength text := by
  induction text with
  | nil => exact Nat.le_refl _
  | cons c text ih =>
    have pos := c.utf8Size_pos
    rw [List.length_cons, byteLength_cons]
    omega

/-- A text has as many bytes as characters exactly when each of them takes one byte. -/
lemma byteLength_eq_length_iff {text : List Char} :
    byteLength text = text.length ↔ ∀ c ∈ text, c.utf8Size = 1 := by
  induction text with
  | nil => exact ⟨fun _ => List.forall_mem_nil _, fun _ => rfl⟩
  | cons c text ih =>
    have pos := c.utf8Size_pos
    have le := length_le_byteLength text
    rw [List.forall_mem_cons, ← ih, List.length_cons, byteLength_cons]
    omega

/-- Parts of one text that start it and have equally many bytes are equal. -/
lemma eq_of_byteLength_eq {before before' rest rest' : List Char} (eq : before ++ rest = before' ++ rest')
    (same : byteLength before = byteLength before') : before = before' := by
  have none : ∀ mid : List Char, byteLength mid = 0 → mid = [] := by
    intro mid zero
    by_contra some
    exact absurd zero (Nat.ne_of_gt (byteLength_pos some))
  rcases List.append_eq_append_iff.mp eq with ⟨mid, rfl, _⟩ | ⟨mid, rfl, _⟩
  all_goals
    rw [byteLength_append] at same
    rw [none mid (by omega), List.append_nil]

/-- A text whose line breaks are line feeds, as a check that can be run. -/
lemma feeds_of_all {text : List Char} (all : text.all (fun d => !isLineBreak d || d == '\n') = true) :
    ∀ d ∈ text, isLineBreak d = true → d = '\n' := by
  intro d mem broken
  have feed := List.all_eq_true.mp all d mem
  rw [broken] at feed
  exact eq_of_beq feed

namespace Diagnostic

variable {source : String} {path : Option String} {e : CompileError} {position : Position}
  {before after : List Char} {c : Char}

/-- The diagnostic of a fault shows the source with its name. -/
lemma ofCompileError_source (source : String) (path : Option String) (e : CompileError) :
    (ofCompileError source path e).source = some ⟨fileName path, source⟩ := by
  unfold ofCompileError
  split
  · rfl
  · rfl

/-- The headline comes from the stage and not from the place of the fault. -/
lemma title_ofCompileError (source : String) (path : Option String) (e : CompileError) :
    Report.title (ofCompileError source path e) = Report.title (ofStage e) := by
  unfold ofCompileError
  split
  · rfl
  · rfl

/-- The headline is one line. -/
lemma feed_not_mem_title (source : String) (path : Option String) (e : CompileError) :
    '\n' ∉ (Report.title (ofCompileError source path e)).toList := by
  rw [title_ofCompileError]
  cases e with
  | token error =>
    change '\n' ∉ "[LATINC-TOKENIZE-001] Error: error[tokenize:LATINC-TOKENIZE-001]: tokenization failed".toList
    decide +kernel
  | parse error =>
    change '\n' ∉ "[LATINC-PARSE-001] Error: error[parse:LATINC-PARSE-001]: parse failed".toList
    decide +kernel

/-- The label of a fault at a character goes from the byte of this character to the next one. -/
lemma widen_ofPosition (text : source.toList = before ++ c :: after)
    (place : position = Position.start.advanceAll before) :
    (Span.ofPosition source.toList position).widen = ⟨byteLength before, byteLength before + c.utf8Size⟩ := by
  have covers := Span.ofPosition_inside text place
  have start : (Span.ofPosition source.toList position).start = byteLength before := by
    rw [covers.start, byteLength_eq]
  have stop : (Span.ofPosition source.toList position).stop = byteLength before + c.utf8Size := by
    rw [covers.stop, ← byteLength_eq, byteLength_append, byteLength_cons, byteLength_nil, Nat.add_zero]
  have pos := c.utf8Size_pos
  rw [Span.widen, start, stop, Nat.max_eq_left (by omega)]

/-- A report names the place of a fault exactly if every character in front of the fault takes one byte, and the
character there has at most two bytes more than there are characters behind it. -/
lemma render_locates_iff (located : e.position? = some position)
    (text : source.toList = before ++ c :: after) (place : position = Position.start.advanceAll before)
    (feeds : ∀ d ∈ source.toList, isLineBreak d = true → d = '\n') :
    Report.Locates (ofCompileError source path e).render (fileName path) position.line position.column ↔
      (∀ d ∈ before, d.utf8Size = 1) ∧ c.utf8Size ≤ after.length + 2 := by
  have labels := (ofCompileError_eq source path located).1
  have sources := ofCompileError_source source path e
  have no := feed_not_mem_title source path e
  have span := widen_ofPosition text place
  have length : source.toList.length = before.length + (after.length + 1) := by
    rw [text, List.length_append, List.length_cons]
  have feeds' : ∀ d ∈ before, isLineBreak d = true → d = '\n' := by
    intro d mem
    apply feeds
    rw [text]
    exact List.mem_append_left _ mem
  obtain ⟨line, column⟩ := @Report.findLine_start before after c feeds'
  rw [← place, ← text] at line column
  have le := length_le_byteLength before
  rw [← byteLength_eq_length_iff]
  by_cases inside : byteLength before ≤ source.toList.length ∧
      byteLength before + c.utf8Size ≤ source.toList.length + 1
  · have found := Report.locates_render sources labels (by rw [span, Report.locate?, if_pos inside]) no
    rw [span] at found
    dsimp only at found
    have start := Report.offset_findLine_le (Nat.zero_le (byteLength before)) 1 (brokenLines source.toList)
    constructor
    · -- Equal lines start at the same index, so equal columns in them have the same index.
      intro named
      obtain ⟨eql, eqc⟩ := named.unique found
      have eqo := Report.offset_findLine_eq (line.symm.trans eql)
      omega
    · rintro ⟨bytes, _⟩
      rw [bytes] at found start
      have eqc : position.column =
          before.length - (Report.findLine before.length 1 0 (brokenLines source.toList)).offset + 1 := by
        omega
      rw [line, eqc]
      exact found
  · have lost : Report.locate? source.toList (Span.ofPosition source.toList position).widen = none := by
      rw [span, Report.locate?, if_neg inside]
    constructor
    · intro named
      exact absurd named (Report.not_locates_render sources labels lost no)
    · rintro ⟨bytes, fits⟩
      exact absurd ⟨by omega, by omega⟩ inside

/-- The place of a fault inside of a source is that of a character, and the report names its line and its column
exactly if every character in front of it takes one byte, and the character itself has at most two bytes more
than there are characters behind it. -/
theorem render_names_place_iff (source : String) (path : Option String) (e : CompileError)
    (position : Position) (eq : compile source = .error e) (located : e.position? = some position)
    (inside : position.offset < source.utf8ByteSize)
    (feeds : ∀ d ∈ source.toList, isLineBreak d = true → d = '\n') :
    ∃ before c after, source.toList = before ++ c :: after ∧ position = Position.start.advanceAll before ∧
      (Report.Locates (ofCompileError source path e).render (fileName path) position.line position.column ↔
        (∀ d ∈ before, d.utf8Size = 1) ∧ c.utf8Size ≤ after.length + 2) := by
  obtain ⟨_, c, located', st, _⟩ := compile_fault_standsAt eq
  cases located.symm.trans located'
  rcases st.source_or_added with ⟨before, after, text, place⟩ | ⟨_, _, behind⟩
  · exact ⟨before, c, after, text, place, render_locates_iff located text place feeds⟩
  · -- The semicolon that is added does not stand inside of the source.
    rw [behind, Position.start_advanceAll, byteLength_eq, String.ofList_toList] at inside
    exact absurd inside (Nat.lt_irrefl _)

/-- An unknown character in the second line, with a character of two bytes behind it. -/
theorem render_names_place_iff_secondLine :
    compile "a;\n  $ \"é\"" = .error (.token (.unknownCharacter '$' ⟨5, 2, 3⟩)) ∧
    Report.Locates (ofCompileError "a;\n  $ \"é\"" (some "a.lat")
      (.token (.unknownCharacter '$' ⟨5, 2, 3⟩))).render "a.lat" 2 3 := by
  have eq : compile "a;\n  $ \"é\"" = .error (.token (.unknownCharacter '$' ⟨5, 2, 3⟩)) := by decide +kernel
  obtain ⟨before, c, after, text, place, named⟩ := render_names_place_iff "a;\n  $ \"é\"" (some "a.lat") _ _ eq
    rfl (by decide +kernel) (feeds_of_all (by decide +kernel))
  have offset : byteLength before = byteLength ['a', ';', '\n', ' ', ' '] := by
    rw [Position.start_advanceAll] at place
    exact (congrArg Position.offset place).symm
  have front : ['a', ';', '\n', ' ', ' '] ++ ['$', ' ', '"', 'é', '"'] = before ++ c :: after := text
  obtain rfl := eq_of_byteLength_eq front offset.symm
  obtain ⟨rfl, rfl⟩ := List.cons.inj (List.append_cancel_left front)
  refine ⟨eq, named.mpr ⟨?_, by decide⟩⟩
  exact byteLength_eq_length_iff.mp rfl

/-- Behind a character of two bytes, the report names the place of the next character. -/
theorem render_names_next_place :
    ∃ e, compile "\"é\"$;" = .error e ∧ e.position? = some ⟨4, 1, 4⟩ ∧ 4 < "\"é\"$;".utf8ByteSize ∧
      (∀ d ∈ "\"é\"$;".toList, isLineBreak d = true → d = '\n') ∧
      Report.Locates (ofCompileError "\"é\"$;" none e).render (fileName none) 1 5 ∧
      ¬ Report.Locates (ofCompileError "\"é\"$;" none e).render (fileName none) 1 4 := by
  have eq : compile "\"é\"$;" = .error (.token (.unknownCharacter '$' ⟨4, 1, 4⟩)) := by decide +kernel
  have labels := (ofCompileError_eq "\"é\"$;" none
    (e := .token (.unknownCharacter '$' ⟨4, 1, 4⟩)) rfl).1
  have line : Report.locate? "\"é\"$;".toList (Span.ofPosition "\"é\"$;".toList ⟨4, 1, 4⟩).widen =
      some ⟨1, 0, "\"é\"$;".toList⟩ := by decide +kernel
  have found := Report.locates_render (ofCompileError_source "\"é\"$;" none _) labels line
    (feed_not_mem_title _ _ _)
  refine ⟨_, eq, rfl, by decide +kernel, feeds_of_all (by decide +kernel), found, ?_⟩
  intro named
  cases (named.unique found).2

end Diagnostic

end LatinToScript
