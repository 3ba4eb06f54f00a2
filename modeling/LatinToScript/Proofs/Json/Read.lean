import LatinToScript.Json
import LatinToScript.Proofs.Decimal
import LatinToScript.Proofs.Token.Lexeme

/-!
# Reading JSON

`Json.read?` reads any JSON text: white space may stand between its parts, texts may hold every escape,
and numbers are whole. A text that was written for a value is read as this value (`Json.read?_pretty`),
so different values have different texts.
-/

namespace LatinToScript.Json

/-! ## White space -/

/-- Whether a character is white space between the parts of a JSON text. -/
def isBlank (c : Char) : Bool :=
  c = ' ' || c = '\t' || c = '\n' || c = '\r'

/-- A text without the white space in front of it. -/
def skipBlanks (text : List Char) : List Char :=
  text.dropWhile isBlank

/-- What stands behind a character is shorter than the text with it, white space included. -/
lemma length_lt_of_skipBlanks {text rest : List Char} {c : Char} (eq : skipBlanks text = c :: rest) :
    rest.length < text.length := by
  have le : (skipBlanks text).length ≤ text.length := (List.dropWhile_suffix isBlank).length_le
  rw [eq, List.length_cons] at le
  exact le

/-! ## Quoted texts -/

/-- The value of a hexadecimal digit. -/
def hexValue? (c : Char) : Option Nat :=
  if c.isDigit then some (c.toNat - '0'.toNat)
  else if 'a' ≤ c ∧ c ≤ 'f' then some (10 + (c.toNat - 'a'.toNat))
  else if 'A' ≤ c ∧ c ≤ 'F' then some (10 + (c.toNat - 'A'.toNat))
  else none

/-- The character that hexadecimal digits name. -/
def ofHex? (digits : List Char) : Option Char :=
  match digits.mapM hexValue? with
  | none => none
  | some values =>
    let code := values.foldl (fun n d => 16 * n + d) 0
    if code.isValidChar then some (Char.ofNat code) else none

/-- The character that a letter behind a backslash stands for. -/
def unescape? : Char → Option Char
  | '"' => some '"'
  | '\\' => some '\\'
  | '/' => some '/'
  | 'b' => some '\x08'
  | 't' => some '\t'
  | 'n' => some '\n'
  | 'f' => some '\x0c'
  | 'r' => some '\r'
  | _ => none

/-- Puts a character in front of a text that has been read. -/
def prepend (c : Option Char) (read : Option (List Char × List Char)) : Option (List Char × List Char) :=
  match c, read with
  | some c, some (chars, rest) => some (c :: chars, rest)
  | _, _ => none

/-- Reads a quoted text behind its first quote. -/
def readQuoted : List Char → Option (List Char × List Char)
  | [] => none
  | '"' :: rest => some ([], rest)
  | '\\' :: 'u' :: a :: b :: c :: d :: rest => prepend (ofHex? [a, b, c, d]) (readQuoted rest)
  | '\\' :: c :: rest => prepend (unescape? c) (readQuoted rest)
  | c :: rest => prepend (if c.toNat < 0x20 then none else some c) (readQuoted rest)

/-! ## Numbers -/

/-- Reads digits; only a lone zero starts with a zero. -/
def readNat (text : List Char) : Option (Nat × List Char) :=
  let digits := text.takeWhile Char.isDigit
  if digits = [] ∨ (digits.head? = some '0' ∧ digits ≠ ['0']) then none
  else some (Nat.ofDigitChars 10 digits 0, text.drop digits.length)

/-- Reads a number with an optional minus sign. -/
def readNumber : List Char → Option (Int × List Char)
  | '-' :: rest => (readNat rest).map fun (n, rest) => (-n, rest)
  | digits => (readNat digits).map fun (n, rest) => (n, rest)

/-! ## Values -/

/-- A reader of texts that are shorter than a bound. -/
abbrev ReaderBelow (bound : Nat) (α : Type) :=
  (text : List Char) → text.length < bound → Option (α × List Char)

/-- Reads items with commas between them, up to a closing bracket. -/
def readItems {bound : Nat} {α : Type} (item : ReaderBelow bound α) (closing : Char) (text : List Char)
    (short : text.length < bound) : Option (List α × List Char) :=
  match item text short with
  | none => none
  | some (a, rest) =>
    match skipBlanks rest with
    | [] => none
    | c :: more =>
      if c = closing then
        some ([a], more)
      else if shorter : c = ',' ∧ more.length < text.length then
        match readItems item closing more (Nat.lt_trans shorter.2 short) with
        | none => none
        | some (as, rest) => some (a :: as, rest)
      else
        none
termination_by text.length
decreasing_by exact shorter.2

/-- Reads items behind an opening bracket; there may be none. -/
def readBracketed {bound : Nat} {α : Type} (item : ReaderBelow bound α) (closing : Char)
    (text : List Char) (short : text.length < bound) : Option (List α × List Char) :=
  match skipBlanks text with
  | [] => none
  | c :: rest => if c = closing then some ([], rest) else readItems item closing text short

/-- Reads a member of an object: a quoted key, a colon and a value. -/
def readMember {bound : Nat} (value : ReaderBelow bound Json) : ReaderBelow bound (String × Json) :=
  fun text short =>
    match skipBlanks text with
    | '"' :: quoted =>
      match readQuoted quoted with
      | none => none
      | some (key, rest) =>
        match skipBlanks rest with
        | ':' :: more =>
          if shorter : more.length < text.length then
            match value more (Nat.lt_trans shorter short) with
            | none => none
            | some (v, rest) => some ((String.ofList key, v), rest)
          else
            none
        | _ => none
    | _ => none

/-- Reads a value that is a word or a number. -/
def readPlain : List Char → Option (Json × List Char)
  | 'n' :: 'u' :: 'l' :: 'l' :: rest => some (.null, rest)
  | 't' :: 'r' :: 'u' :: 'e' :: rest => some (.boolean true, rest)
  | 'f' :: 'a' :: 'l' :: 's' :: 'e' :: rest => some (.boolean false, rest)
  | sign => (readNumber sign).map fun (value, rest) => (.number value, rest)

/-- Reads a value, with white space in front of it. -/
def readValue (text : List Char) : Option (Json × List Char) :=
  match start : skipBlanks text with
  | [] => none
  | c :: rest =>
    if c = '"' then
      (readQuoted rest).map fun (t, rest) => (.text (String.ofList t), rest)
    else if c = '[' then
      (readBracketed (fun t (_ : t.length < text.length) => readValue t) ']' rest
        (length_lt_of_skipBlanks start)).map fun (elements, rest) => (.array elements, rest)
    else if c = '\x7b' then
      (readBracketed (readMember fun t (_ : t.length < text.length) => readValue t) '\x7d' rest
        (length_lt_of_skipBlanks start)).map fun (members, rest) => (.object members, rest)
    else
      readPlain (c :: rest)
termination_by text.length

/-- The value of a JSON text. -/
def read? (text : String) : Option Json :=
  match readValue text.toList with
  | none => none
  | some (value, rest) => if skipBlanks rest = [] then some value else none

/-! ## What is written is read back -/

/-- White space in front is skipped as a whole. -/
lemma skipBlanks_append {blanks : List Char} (all : ∀ c ∈ blanks, isBlank c = true) (text : List Char) :
    skipBlanks (blanks ++ text) = skipBlanks text :=
  List.dropWhile_append_of_pos all

/-- Nothing is skipped in front of another character. -/
lemma skipBlanks_cons {c : Char} (other : isBlank c = false) (text : List Char) :
    skipBlanks (c :: text) = c :: text :=
  List.dropWhile_cons_of_neg (by rw [other]; exact Bool.false_ne_true)

/-- A new line is white space. -/
lemma isBlank_of_mem_newLine {level : Nat} : ∀ c ∈ (newLine level).toList, isBlank c = true := by
  intro c mem
  rw [newLine, String.toList_append] at mem
  rcases List.mem_append.mp mem with mem | mem
  · rw [List.mem_singleton.mp mem]
    rfl
  · rw [String.toList_ofList] at mem
    rw [List.eq_of_mem_replicate mem]
    rfl

/-- A control character is read back from its number. -/
lemma ofHex?_hexDigit {c : Char} (control : c.toNat < 0x20) :
    ofHex? ['0', '0', hexDigit (c.toNat / 16), hexDigit (c.toNat % 16)] = some c := by
  have all : ∀ n < 0x20, ofHex? ['0', '0', hexDigit (n / 16), hexDigit (n % 16)] = some (Char.ofNat n) := by
    decide
  rw [all _ control, Char.ofNat_toNat]

/-- A character that is no quote, no backslash and no control character stands for itself. -/
lemma readQuoted_cons {c : Char} (noquote : c ≠ '"') (nobackslash : c ≠ '\\') (printed : ¬ c.toNat < 0x20)
    (text : List Char) : readQuoted (c :: text) = prepend (some c) (readQuoted text) := by
  rw [readQuoted.eq_def]
  split
  case h_1 eq => cases eq
  case h_2 eq =>
    cases eq
    exact absurd rfl noquote
  case h_3 eq =>
    cases eq
    exact absurd rfl nobackslash
  case h_4 eq =>
    cases eq
    exact absurd rfl nobackslash
  case h_5 eq =>
    cases eq
    rw [if_neg printed]

/-- A character is read back from its escaped form. -/
lemma readQuoted_escapeChar (c : Char) (text : List Char) :
    readQuoted (escapeChar c ++ text) = prepend (some c) (readQuoted text) := by
  unfold escapeChar
  -- The seven characters with an escape of their own, then control characters, then the others.
  iterate 7
    split
    · subst c
      rfl
  split
  · rename_i control
    rw [← ofHex?_hexDigit control]
    rfl
  · rename_i noquote nobackslash _ _ _ _ _ printed
    exact readQuoted_cons noquote nobackslash printed text

/-- A quoted text is read back from its escaped characters, up to the quote that ends it. -/
lemma readQuoted_flatMap (chars rest : List Char) :
    readQuoted (chars.flatMap escapeChar ++ '"' :: rest) = some (chars, rest) := by
  induction chars with
  | nil => rfl
  | cons c chars ih =>
    rw [List.flatMap_cons, List.append_assoc, readQuoted_escapeChar, ih]
    rfl

/-- A text in quotes is a quote and what is read behind it. -/
lemma toList_quote_append (t : String) (rest : List Char) :
    ∃ quoted, (quote t).toList ++ rest = '"' :: quoted ∧ readQuoted quoted = some (t.toList, rest) := by
  refine ⟨_, ?_, readQuoted_flatMap t.toList rest⟩
  rw [quote, String.toList_append, String.toList_append, String.toList_ofList]
  simp

/-! ### Numbers -/

/-- A natural number is read back from its digits, where no digit goes on. -/
lemma readNat_ofNat (n : Nat) {rest : List Char} (stops : Stops Char.isDigit rest) :
    readNat ((Decimal.ofNat n).toList ++ rest) = some (n, rest) := by
  have all : ∀ c ∈ (Decimal.ofNat n).toList, c.isDigit = true := fun c => Decimal.isDigit_of_mem_ofNat
  rw [readNat, takeWhile_append_of_stops all stops, Decimal.ofNat, String.toList_ofList,
    if_neg, List.drop_left, Decimal.digits_eq, Nat.ofDigitChars_ten_toDigits]
  rintro (none | ⟨zero, more⟩)
  · rw [Decimal.digits_eq] at none
    exact Nat.toDigits_ne_nil none
  · rw [Decimal.eq_zero_of_head?_digits zero, Decimal.digits] at more
    exact more rfl

/-- A number is read back with its sign, where no digit goes on. -/
lemma readNumber_ofInt (value : Int) {rest : List Char} (stops : Stops Char.isDigit rest) :
    readNumber ((Decimal.ofInt value).toList ++ rest) = some (value, rest) := by
  cases value with
  | ofNat n =>
    rw [readNumber.eq_def]
    split
    · -- A number without a sign starts with a digit.
      rename_i eq
      obtain ⟨c, digits, eqc⟩ := List.exists_cons_of_ne_nil (Decimal.ofInt_ne_nil (.ofNat n))
      have digit : c.isDigit = true := Decimal.isDigit_of_mem_ofNat (eqc ▸ List.mem_cons_self)
      rw [eqc] at eq
      cases eq
      cases digit
    · rw [Decimal.ofInt, readNat_ofNat n stops]
      rfl
  | negSucc n =>
    rw [Decimal.ofInt, String.toList_append, List.append_assoc]
    change (readNat ((Decimal.ofNat (n + 1)).toList ++ rest)).map _ = _
    rw [readNat_ofNat _ stops]
    rfl

/-- A number starts with a digit or a minus sign. -/
lemma exists_toList_ofInt (value : Int) :
    ∃ c digits, (Decimal.ofInt value).toList = c :: digits ∧ (c.isDigit || c == '-') = true := by
  obtain ⟨c, digits, eq⟩ := List.exists_cons_of_ne_nil (Decimal.ofInt_ne_nil value)
  exact ⟨c, digits, eq, Decimal.ofInt_chars c (eq ▸ List.mem_cons_self)⟩

/-- Nothing else starts like a number. -/
lemma other_of_sign {c : Char} (sign : (c.isDigit || c == '-') = true) :
    isBlank c = false ∧ c ≠ '"' ∧ c ≠ '[' ∧ c ≠ '\x7b' ∧ c ≠ ']' ∧ c ≠ '\x7d' := by
  refine ⟨?_, ?_, ?_, ?_, ?_, ?_⟩
  · rw [Bool.eq_false_iff]
    intro blank
    simp only [isBlank, Bool.or_eq_true, decide_eq_true_eq] at blank
    rcases blank with ((rfl | rfl) | rfl) | rfl
    all_goals cases sign
  all_goals
    rintro rfl
    cases sign

/-- A number is told from the words by its first character, and it is read back. -/
lemma readPlain_number (value : Int) {rest : List Char} (stops : Stops Char.isDigit rest) :
    readPlain ((Decimal.ofInt value).toList ++ rest) = some (.number value, rest) := by
  obtain ⟨c, digits, eqc, sign⟩ := exists_toList_ofInt value
  have reads := readNumber_ofInt value stops
  rw [eqc] at reads ⊢
  rw [readPlain.eq_def]
  -- No word of the format starts with a digit or a sign.
  split
  case h_4 =>
    rw [reads]
    rfl
  all_goals
    rename_i eq
    obtain ⟨rfl, _⟩ := List.cons.inj eq
    cases sign

/-! ### Items -/

section Items

variable {bound : Nat} {α : Type} {item : ReaderBelow bound α} {closing : Char} {written : α → String}

/-- A reader reads a thing back from what is written for it, with white space in front and no digit
behind. -/
def ReadsBack (item : ReaderBelow bound α) (a : α) (written : List Char) : Prop :=
  ∀ ⦃text blanks rest : List Char⦄ (short : text.length < bound), text = blanks ++ (written ++ rest) →
    (∀ c ∈ blanks, isBlank c = true) → Stops Char.isDigit rest → item text short = some (a, rest)

/-- White space does not go on with digits. -/
lemma stops_blanks {blanks rest : List Char} (all : ∀ c ∈ blanks, isBlank c = true)
    (stops : Stops Char.isDigit rest) : Stops Char.isDigit (blanks ++ rest) := by
  cases blanks with
  | nil => exact stops
  | cons b blanks =>
    rintro _ ⟨⟩
    have blank := all b List.mem_cons_self
    simp only [isBlank, Bool.or_eq_true, decide_eq_true_eq] at blank
    rcases blank with ((rfl | rfl) | rfl) | rfl
    all_goals rfl

/-- A bracket that closes a list of items. -/
structure Closes (closing : Char) : Prop where
  noComma : closing ≠ ','
  noBlank : isBlank closing = false
  noDigit : closing.isDigit = false
  ends {c : Char} (other : c ≠ ']' ∧ c ≠ '\x7d') : c ≠ closing

/-- Items with white space around the commas between them are read back. -/
lemma Closes.readItems_eq (cl : Closes closing) {separator ending : List Char}
    (separators : ∀ c ∈ separator, isBlank c = true) (endings : ∀ c ∈ ending, isBlank c = true)
    {x : α} {xs : List α} (all : ∀ y ∈ x :: xs, ReadsBack item y (written y).toList)
    {text blanks rest : List Char} (short : text.length < bound)
    (eq : text = blanks ++ (List.intercalate (',' :: separator)
      ((written x).toList :: xs.map fun y => (written y).toList) ++ (ending ++ closing :: rest)))
    (leading : ∀ c ∈ blanks, isBlank c = true) :
    readItems item closing text short = some (x :: xs, rest) := by
  have first := all x List.mem_cons_self
  induction xs generalizing x text blanks with
  | nil =>
    have stops : Stops Char.isDigit (ending ++ closing :: rest) := by
      apply stops_blanks endings
      rintro _ ⟨⟩
      exact cl.noDigit
    rw [List.map_nil, List.intercalate_singleton] at eq
    rw [readItems, first short eq leading stops]
    dsimp only
    rw [skipBlanks_append endings, skipBlanks_cons cl.noBlank]
    dsimp only
    rw [if_pos rfl]
  | cons y xs ih =>
    have others := fun z mem => all z (List.mem_cons_of_mem x mem)
    rw [List.map_cons, List.intercalate_cons_cons, List.append_assoc, List.append_assoc,
      List.cons_append] at eq
    -- What stands behind the comma is read by the induction hypothesis, once it is known to be shorter.
    generalize behind : separator ++ (List.intercalate (',' :: separator)
      ((written y).toList :: xs.map fun z => (written z).toList) ++ (ending ++ closing :: rest)) = more at eq
    have stops : Stops Char.isDigit (',' :: more) := by
      rintro _ ⟨⟩
      rfl
    have shorter : more.length < text.length := by
      rw [eq]
      simp only [List.length_append, List.length_cons]
      omega
    rw [readItems, first short eq leading stops]
    dsimp only
    rw [skipBlanks_cons (by rfl)]
    dsimp only
    rw [if_neg (Ne.symm cl.noComma), dif_pos ⟨rfl, shorter⟩,
      ih others _ behind.symm separators (others y List.mem_cons_self)]

/-- What is written starts like an item: with no white space and with no closing bracket. -/
def StartsItem (written : List Char) : Prop :=
  ∃ c more, written = c :: more ∧ isBlank c = false ∧ c ≠ ']' ∧ c ≠ '\x7d'

/-- What comes behind does not matter to how an item starts. -/
lemma StartsItem.append {written : List Char} (starts : StartsItem written) (rest : List Char) :
    StartsItem (written ++ rest) := by
  obtain ⟨c, more, rfl, first⟩ := starts
  exact ⟨c, more ++ rest, List.cons_append, first⟩

/-- Items one after the other start like the first one. -/
lemma StartsItem.intercalate {written : List Char} (starts : StartsItem written) (separator : List Char)
    (others : List (List Char)) : StartsItem (List.intercalate separator (written :: others)) := by
  cases others with
  | nil =>
    rw [List.intercalate_singleton]
    exact starts
  | cons other others =>
    rw [List.intercalate_cons_cons, List.append_assoc]
    exact starts.append _

/-- Where no bracket closes at once, there are items. -/
lemma readBracketed_eq_readItems {text more : List Char} {c : Char} (eq : skipBlanks text = c :: more)
    (other : c ≠ closing) (short : text.length < bound) :
    readBracketed item closing text short = readItems item closing text short := by
  rw [readBracketed, eq]
  exact if_neg other

/-- Brackets without items stand next to each other. -/
lemma bracketed_nil {level : Nat} {left right : String} : bracketed level left right [] = left ++ right :=
  rfl

/-- Items stand in lines of their own, one level further in than their brackets. -/
lemma bracketed_cons {level : Nat} {left right item : String} {items : List String} :
    bracketed level left right (item :: items) =
      left ++ newLine (level + 1) ++ String.intercalate ("," ++ newLine (level + 1)) (item :: items)
        ++ newLine level ++ right :=
  rfl

/-- Items written between brackets are read back behind the opening one. -/
lemma Closes.exists_bracketed (cl : Closes closing) (left right : String) (opening : Char)
    (eql : left.toList = [opening]) (eqr : right.toList = [closing]) (level : Nat) {xs : List α}
    (starts : ∀ x ∈ xs, StartsItem (written x).toList) (rest : List Char) :
    ∃ text, (bracketed level left right (xs.map written)).toList ++ rest = opening :: text ∧
      ∀ {bound} {item : ReaderBelow bound α}, (∀ x ∈ xs, ReadsBack item x (written x).toList) →
        ∀ short, readBracketed item closing text short = some (xs, rest) := by
  cases xs with
  | nil =>
    refine ⟨closing :: rest, ?_, ?_⟩
    · rw [List.map_nil, bracketed_nil, String.toList_append, eql, eqr]
      rfl
    · intro bound item _ short
      rw [readBracketed, skipBlanks_cons cl.noBlank]
      dsimp only
      rw [if_pos rfl]
  | cons x xs =>
    refine ⟨(newLine (level + 1)).toList ++ (List.intercalate (',' :: (newLine (level + 1)).toList)
      ((written x).toList :: xs.map fun y => (written y).toList) ++
        ((newLine level).toList ++ closing :: rest)), ?_, ?_⟩
    · rw [List.map_cons, bracketed_cons]
      simp only [String.toList_append, String.toList_intercalate, eql, eqr, List.map_cons, List.map_map]
      simp [Function.comp_def]
    · intro bound item all short
      have reads := cl.readItems_eq isBlank_of_mem_newLine isBlank_of_mem_newLine all short rfl
        isBlank_of_mem_newLine
      -- The first item does not start like the bracket that closes the list.
      obtain ⟨c, more, eq, blank, other⟩ := ((starts x List.mem_cons_self).intercalate
        (',' :: (newLine (level + 1)).toList) (xs.map fun y => (written y).toList)).append
        ((newLine level).toList ++ closing :: rest)
      have start := (congrArg skipBlanks eq).trans (skipBlanks_cons blank more)
      exact (readBracketed_eq_readItems ((skipBlanks_append isBlank_of_mem_newLine _).trans start)
        (cl.ends other) short).trans reads

end Items

/-! ### Values -/

/-- The bracket that ends an array is told from all that may stand in front of it. -/
lemma closes_array : Closes ']' :=
  ⟨by decide, rfl, rfl, fun other => other.1⟩

/-- The bracket that ends an object is told from all that may stand in front of it. -/
lemma closes_object : Closes '\x7d' :=
  ⟨by decide, rfl, rfl, fun other => other.2⟩

/-- A quoted text starts like an item, with its quote. -/
lemma startsItem_quote (t : String) : StartsItem (quote t).toList := by
  obtain ⟨quoted, eq, _⟩ := toList_quote_append t []
  rw [List.append_nil] at eq
  exact ⟨'"', quoted, eq, by decide⟩

/-- A number starts like an item, with a digit or a sign. -/
lemma startsItem_ofInt (value : Int) : StartsItem (Decimal.ofInt value).toList := by
  obtain ⟨c, digits, eq, sign⟩ := exists_toList_ofInt value
  obtain ⟨blank, _, _, _, ends⟩ := other_of_sign sign
  exact ⟨c, digits, eq, blank, ends⟩

/-- An array or an object starts like an item, with its opening bracket. -/
lemma startsItem_bracketed {left : String} {opening : Char} (eq : left.toList = [opening])
    (other : isBlank opening = false ∧ opening ≠ ']' ∧ opening ≠ '\x7d') (level : Nat) (right : String)
    (items : List String) : StartsItem (bracketed level left right items).toList := by
  have starts : StartsItem left.toList := ⟨opening, [], eq, other⟩
  cases items with
  | nil =>
    rw [bracketed_nil, String.toList_append]
    exact starts.append _
  | cons item items =>
    rw [bracketed_cons]
    simp only [String.toList_append, List.append_assoc]
    exact starts.append _

/-- A value never starts like white space or like a bracket that closes. -/
lemma startsItem_write (level : Nat) (v : Json) : StartsItem (write level v).toList := by
  cases v with
  | null =>
    rw [write]
    exact ⟨'n', ['u', 'l', 'l'], rfl, by decide⟩
  | boolean b =>
    cases b with
    | false =>
      rw [write]
      exact ⟨'f', ['a', 'l', 's', 'e'], rfl, by decide⟩
    | true =>
      rw [write]
      exact ⟨'t', ['r', 'u', 'e'], rfl, by decide⟩
  | number value =>
    rw [write]
    exact startsItem_ofInt value
  | text t =>
    rw [write]
    exact startsItem_quote t
  | array elements =>
    rw [write]
    exact startsItem_bracketed rfl (by decide) level _ _
  | object members =>
    rw [write]
    exact startsItem_bracketed rfl (by decide) level _ _

/-- The elements of an array are written one by one. -/
lemma writeElements_eq_map (level : Nat) (vs : List Json) : writeElements level vs = vs.map (write level) := by
  induction vs with
  | nil => rfl
  | cons v vs ih => rw [writeElements, ih, List.map_cons]

/-- The text of a member of an object. -/
def writeMember (level : Nat) (member : String × Json) : String :=
  quote member.1 ++ ": " ++ write level member.2

/-- The members of an object are written one by one. -/
lemma writeMembers_eq_map (level : Nat) (members : List (String × Json)) :
    writeMembers level members = members.map (writeMember level) := by
  induction members with
  | nil => rfl
  | cons member members ih =>
    rw [writeMembers, ih, List.map_cons]
    rfl

/-- A member starts like an item, with the quote of its key. -/
lemma startsItem_writeMember (level : Nat) (member : String × Json) :
    StartsItem (writeMember level member).toList := by
  rw [writeMember, String.toList_append, String.toList_append, List.append_assoc]
  exact (startsItem_quote member.1).append _

/-- A value is read back behind white space, where no digit goes on. -/
def Readable (v : Json) : Prop :=
  ∀ level ⦃blanks rest : List Char⦄, (∀ c ∈ blanks, isBlank c = true) → Stops Char.isDigit rest →
    readValue (blanks ++ ((write level v).toList ++ rest)) = some (v, rest)

/-- A readable value is read back by a reader of shorter texts. -/
lemma Readable.readsBack {v : Json} (readable : Readable v) (level bound : Nat) :
    ReadsBack (fun t (_ : t.length < bound) => readValue t) v (write level v).toList := by
  rintro text blanks rest short rfl leading stops
  exact readable level leading stops

/-- A member with a readable value is read back, with its key. -/
lemma Readable.readMember {member : String × Json} (readable : Readable member.2) (level bound : Nat) :
    ReadsBack (readMember fun t (_ : t.length < bound) => readValue t) member
      (writeMember level member).toList := by
  intro text blanks rest short eq leading stops
  obtain ⟨key, v⟩ := member
  rw [writeMember, String.toList_append, String.toList_append, List.append_assoc, List.append_assoc] at eq
  obtain ⟨quoted, eqq, reads⟩ := toList_quote_append key (": ".toList ++ ((write level v).toList ++ rest))
  have start : skipBlanks text = '"' :: quoted := by
    rw [eq, eqq, skipBlanks_append leading, skipBlanks_cons rfl]
  have colon : skipBlanks (": ".toList ++ ((write level v).toList ++ rest)) =
      ':' :: ([' '] ++ ((write level v).toList ++ rest)) := rfl
  have shorter : ([' '] ++ ((write level v).toList ++ rest)).length < text.length := by
    have longer : ": ".toList.length = 2 := rfl
    rw [eq]
    simp only [List.length_append, longer, List.length_singleton]
    omega
  have value : readValue ([' '] ++ ((write level v).toList ++ rest)) = some (v, rest) :=
    readable level (List.forall_mem_singleton.mpr rfl) stops
  simp only [Json.readMember, start, reads, colon, dif_pos shorter, value, String.ofList_toList]

/-- Reading a value, by the first character that is no white space. -/
lemma readValue_eq {text rest : List Char} {c : Char} (start : skipBlanks text = c :: rest) :
    readValue text =
      if c = '"' then
        (readQuoted rest).map fun (t, rest) => (.text (String.ofList t), rest)
      else if c = '[' then
        (readBracketed (fun t (_ : t.length < text.length) => readValue t) ']' rest
          (length_lt_of_skipBlanks start)).map fun (elements, rest) => (.array elements, rest)
      else if c = '\x7b' then
        (readBracketed (readMember fun t (_ : t.length < text.length) => readValue t) '\x7d' rest
          (length_lt_of_skipBlanks start)).map fun (members, rest) => (.object members, rest)
      else
        readPlain (c :: rest) := by
  rw [readValue.eq_def]
  split
  · rename_i none
    rw [start] at none
    cases none
  · rename_i c' rest' start'
    obtain ⟨rfl, rfl⟩ := List.cons.inj (start.symm.trans start')
    rfl

/-- White space is skipped up to another character. -/
lemma skipBlanks_append_cons {blanks : List Char} (leading : ∀ c ∈ blanks, isBlank c = true) {c : Char}
    (other : isBlank c = false) (text : List Char) : skipBlanks (blanks ++ c :: text) = c :: text :=
  (skipBlanks_append leading _).trans (skipBlanks_cons other text)

/-- A value that starts like no text, array or object is read back as a word or a number is. -/
lemma readable_plain {v : Json} {c : Char} {more : List Char}
    (eq : ∀ level, (write level v).toList = c :: more)
    (other : isBlank c = false ∧ c ≠ '"' ∧ c ≠ '[' ∧ c ≠ '\x7b')
    (plain : ∀ rest, Stops Char.isDigit rest → readPlain (c :: more ++ rest) = some (v, rest)) :
    Readable v := by
  intro level blanks rest leading stops
  obtain ⟨blank, noquote, noarray, noobject⟩ := other
  rw [eq, List.cons_append, readValue_eq (skipBlanks_append_cons leading blank _), if_neg noquote,
    if_neg noarray, if_neg noobject, ← List.cons_append, plain rest stops]

/-- Numbers are readable. -/
lemma readable_number (value : Int) : Readable (.number value) := by
  obtain ⟨c, digits, eq, sign⟩ := exists_toList_ofInt value
  obtain ⟨blank, noquote, noarray, noobject, _⟩ := other_of_sign sign
  apply readable_plain
  · intro level
    rw [write, eq]
  · exact ⟨blank, noquote, noarray, noobject⟩
  · intro rest stops
    rw [← eq]
    exact readPlain_number value stops

/-- Texts are readable. -/
lemma readable_text (t : String) : Readable (.text t) := by
  intro level blanks rest leading _
  obtain ⟨quoted, eq, reads⟩ := toList_quote_append t rest
  rw [write, eq, readValue_eq (skipBlanks_append_cons leading rfl _), if_pos rfl, reads, Option.map_some]
  dsimp only
  rw [String.ofList_toList]

/-- An array of readable values is readable. -/
lemma readable_array {elements : List Json} (all : ∀ v ∈ elements, Readable v) :
    Readable (.array elements) := by
  intro level blanks rest leading _
  obtain ⟨text, eq, reads⟩ := closes_array.exists_bracketed "[" "]" '[' rfl rfl level
    (fun v (_ : v ∈ elements) => startsItem_write (level + 1) v) rest
  rw [write, writeElements_eq_map, eq, readValue_eq (skipBlanks_append_cons leading rfl _),
    if_neg (by decide), if_pos rfl, reads fun v mem => (all v mem).readsBack _ _, Option.map_some]

/-- An object with readable values is readable. -/
lemma readable_object {members : List (String × Json)} (all : ∀ m ∈ members, Readable m.2) :
    Readable (.object members) := by
  intro level blanks rest leading _
  obtain ⟨text, eq, reads⟩ := closes_object.exists_bracketed "\x7b" "\x7d" '\x7b' rfl rfl level
    (fun m (_ : m ∈ members) => startsItem_writeMember (level + 1) m) rest
  rw [write, writeMembers_eq_map, eq, readValue_eq (skipBlanks_append_cons leading rfl _),
    if_neg (by decide), if_neg (by decide), if_pos rfl, reads fun m mem => (all m mem).readMember _ _,
    Option.map_some]

mutual

/-- Every value is read back from what is written for it. -/
lemma readable : ∀ v : Json, Readable v
  | .null => readable_plain (fun _ => by rw [write]; rfl) (by decide) fun _ _ => rfl
  | .boolean true => readable_plain (fun _ => by rw [write]; rfl) (by decide) fun _ _ => rfl
  | .boolean false => readable_plain (fun _ => by rw [write]; rfl) (by decide) fun _ _ => rfl
  | .number value => readable_number value
  | .text t => readable_text t
  | .array elements => readable_array (readable_elements elements)
  | .object members => readable_object (readable_members members)

/-- All elements of an array are readable. -/
lemma readable_elements : ∀ vs : List Json, ∀ v ∈ vs, Readable v
  | [] => List.forall_mem_nil _
  | v :: vs => List.forall_mem_cons.mpr ⟨readable v, readable_elements vs⟩

/-- All members of an object have readable values. -/
lemma readable_members : ∀ ms : List (String × Json), ∀ m ∈ ms, Readable m.2
  | [] => List.forall_mem_nil _
  | (_, v) :: ms => List.forall_mem_cons.mpr ⟨readable v, readable_members ms⟩

end

/-- The text of a value is read as this value. -/
lemma read?_pretty (v : Json) : read? v.pretty = some v := by
  have stops : Stops Char.isDigit [] := by
    rintro _ ⟨⟩
  have reads := readable v 0 (List.forall_mem_nil _) stops
  rw [List.nil_append, List.append_nil] at reads
  rw [read?, pretty, reads]
  rfl

/-- Different values have different texts. -/
lemma pretty_injective : Function.Injective pretty := by
  intro v w same
  have reads := read?_pretty v
  rw [same, read?_pretty w] at reads
  exact (Option.some.inj reads).symm

end LatinToScript.Json
