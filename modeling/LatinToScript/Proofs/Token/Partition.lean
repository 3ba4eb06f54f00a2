import LatinToScript.Proofs.Position
import LatinToScript.Proofs.Token.Lexical

/-!
# Tokens partition their text

A text is made of pieces, each a token after some white space, and of white space at its end.
`Partitions` says so for a text and its tokens, together with the place of every token in closed
form. The tokens of a source partition the text that is scanned for it
(`Token.ofSource_partitions`).

The pieces are collected along `Scans`, which takes white space one character at a time. `Cut` says
piece by piece what `Partitions` says of each piece wherever it stands, so that the induction goes
through.
-/

namespace LatinToScript

/-- A token with its characters and the white space in front of them. -/
structure Piece where
  gap : List Char
  lexeme : List Char
  token : Token

namespace Piece

/-- The characters of some pieces. -/
def text (pieces : List Piece) : List Char :=
  pieces.flatMap fun piece => piece.gap ++ piece.lexeme

/-- A piece stands between two texts: its gap is white space, its lexeme is as long as its
token can be, and the place of the token counts the bytes, the lines and the columns in front
of the lexeme. -/
structure Fits (front : List Char) (piece : Piece) (more : List Char) : Prop where
  gap : ∀ c ∈ piece.gap, isWhiteSpace c = true
  lexeme : Lexes piece.lexeme more piece.token.kind
  offset : piece.token.position.offset = (String.ofList (front ++ piece.gap)).utf8ByteSize
  line : piece.token.position.line = 1 + (front ++ piece.gap).count '\n'
  column : piece.token.position.column = 1 + (lastLine (front ++ piece.gap)).length

/-- A piece fits if its token is at the place behind the text in front of it. -/
lemma fits_of_position {front more : List Char} {piece : Piece}
    (white : ∀ c ∈ piece.gap, isWhiteSpace c = true)
    (lx : Lexes piece.lexeme more piece.token.kind)
    (place : piece.token.position = Position.start.advanceAll (front ++ piece.gap)) :
    piece.Fits front more := by
  rw [Position.start_advanceAll, byteLength_eq] at place
  exact ⟨white, lx, by rw [place], by rw [place], by rw [place]⟩

/-- The token of a piece that fits is at the place behind the text in front of it. -/
lemma Fits.position {front more : List Char} {piece : Piece} (fits : piece.Fits front more) :
    piece.token.position = Position.start.advanceAll (front ++ piece.gap) := by
  rw [Position.start_advanceAll, byteLength_eq, ← fits.offset, ← fits.line, ← fits.column]

end Piece

/-- The tokens partition the text. Their offsets increase and lie between characters. -/
structure Partitions (text : List Char) (ts : List Token) : Prop where
  pieces : ∃ pieces last, pieces.map Piece.token = ts ∧ text = Piece.text pieces ++ last ∧
    (∀ c ∈ last, isWhiteSpace c = true) ∧
    ∀ before piece after, pieces = before ++ piece :: after →
      piece.Fits (Piece.text before) (Piece.text after ++ last)
  increasing : (ts.map fun t => t.position.offset).Pairwise (· < ·)
  boundary : ∀ t ∈ ts, String.Pos.Raw.IsValid (String.ofList text) ⟨t.position.offset⟩

/-- Pieces after a text, each of which fits there, up to some white space at the end. -/
inductive Cut : List Char → List Piece → List Char → Prop where
  | nil {front last} :
    (∀ c ∈ last, isWhiteSpace c = true) →
    Cut front [] last
  | cons {front piece pieces last} :
    Piece.Fits front piece (Piece.text pieces ++ last) →
    Cut (front ++ (piece.gap ++ piece.lexeme)) pieces last →
    Cut front (piece :: pieces) last

/-- A text that is cut into tokens is cut into pieces. -/
lemma Scans.cut {position : Position} {text : List Char} {ts : List Token}
    (sc : Scans position text ts) {front : List Char}
    (place : position = Position.start.advanceAll front) :
    ∃ pieces last, pieces.map Piece.token = ts ∧ text = Piece.text pieces ++ last ∧
      Cut front pieces last := by
  induction sc generalizing front with
  | nil => exact ⟨[], [], rfl, rfl, .nil (List.forall_mem_nil _)⟩
  | @blank position c text ts white _ ih =>
    have place' : position.advance c = Position.start.advanceAll (front ++ [c]) := by
      rw [Position.advanceAll_append, ← place]
      rfl
    obtain ⟨pieces, last, eq, rfl, cut⟩ := ih place'
    -- The blank belongs to the gap of the first piece, or to the end when there is none.
    cases cut with
    | nil whites =>
      exact ⟨[], c :: last, eq, rfl, .nil (List.forall_mem_cons.mpr ⟨white, whites⟩)⟩
    | @cons _ piece pieces _ fits cut =>
      refine ⟨⟨c :: piece.gap, piece.lexeme, piece.token⟩ :: pieces, last, eq, by simp [Piece.text], ?_⟩
      have place'' := fits.position
      rw [List.append_assoc, List.singleton_append] at place'' cut
      apply Cut.cons
      · apply Piece.fits_of_position
        · exact List.forall_mem_cons.mpr ⟨white, fits.gap⟩
        · exact fits.lexeme
        · exact place''
      · exact cut
  | @token position c taken more kind ts lx _ ih =>
    have place' : position.advanceAll (c :: taken) =
        Position.start.advanceAll (front ++ (c :: taken)) := by
      rw [Position.advanceAll_append, ← place]
    obtain ⟨pieces, last, eq, rfl, cut⟩ := ih place'
    refine ⟨⟨[], c :: taken, ⟨kind, position⟩⟩ :: pieces, last, ?_, by simp [Piece.text], ?_⟩
    · rw [List.map_cons, eq]
    · apply Cut.cons
      · apply Piece.fits_of_position
        · exact List.forall_mem_nil _
        · exact lx
        · rw [List.append_nil]
          exact place
      · exact cut

namespace Cut

variable {front last : List Char} {pieces : List Piece}

/-- What is left after the last piece is white space. -/
lemma white (cut : Cut front pieces last) : ∀ c ∈ last, isWhiteSpace c = true := by
  induction cut with
  | nil white => exact white
  | cons _ _ ih => exact ih

/-- Every piece fits where it stands. -/
lemma fits (cut : Cut front pieces last) {before after : List Piece} {piece : Piece}
    (eq : pieces = before ++ piece :: after) :
    piece.Fits (front ++ Piece.text before) (Piece.text after ++ last) := by
  induction before generalizing front pieces with
  | nil =>
    subst eq
    cases cut with
    | cons fits _ =>
      rw [show Piece.text [] = [] from rfl, List.append_nil]
      exact fits
  | cons first before ih =>
    subst eq
    cases cut with
    | cons _ cut =>
      have fits := ih cut rfl
      rw [List.append_assoc] at fits
      exact fits

/-- No token starts in front of the text that it follows. -/
lemma byteLength_le (cut : Cut front pieces last) :
    ∀ piece ∈ pieces, byteLength front ≤ piece.token.position.offset := by
  induction cut with
  | nil _ => exact List.forall_mem_nil _
  | cons fits _ ih =>
    rw [List.forall_mem_cons, fits.offset, ← byteLength_eq, byteLength_append]
    refine ⟨Nat.le_add_right _ _, ?_⟩
    intro piece mem
    have le := ih piece mem
    rw [byteLength_append] at le
    omega

/-- Every token starts behind the ones in front of it, since no lexeme is empty. -/
lemma increasing (cut : Cut front pieces last) :
    (pieces.map fun piece => piece.token.position.offset).Pairwise (· < ·) := by
  induction cut with
  | nil _ => exact List.Pairwise.nil
  | @cons front piece pieces last fits cut ih =>
    rw [List.map_cons, List.pairwise_cons]
    refine ⟨?_, ih⟩
    intro offset mem
    obtain ⟨next, memn, rfl⟩ := List.mem_map.mp mem
    have le := cut.byteLength_le next memn
    have some : piece.lexeme ≠ [] := by
      have lx := fits.lexeme
      intro none
      rw [none] at lx
      cases lx
    have pos := byteLength_pos some
    rw [byteLength_append, byteLength_append] at le
    rw [fits.offset, ← byteLength_eq, byteLength_append]
    omega

end Cut

/-- A text that is cut into tokens from its start is partitioned by them. -/
lemma Scans.partitions {text : List Char} {ts : List Token} (sc : Scans .start text ts) :
    Partitions text ts := by
  have place : Position.start = Position.start.advanceAll [] := rfl
  obtain ⟨pieces, last, rfl, rfl, cut⟩ := sc.cut place
  have fits : ∀ before piece after, pieces = before ++ piece :: after →
      piece.Fits (Piece.text before) (Piece.text after ++ last) :=
    fun _ _ _ eq => cut.fits eq
  refine ⟨⟨pieces, last, rfl, rfl, cut.white, fits⟩, ?_, ?_⟩
  · rw [List.map_map]
    exact cut.increasing
  · intro t mem
    obtain ⟨piece, memp, rfl⟩ := List.mem_map.mp mem
    obtain ⟨before, after, rfl⟩ := List.append_of_mem memp
    rw [(fits before piece after rfl).offset]
    have eq : Piece.text (before ++ piece :: after) ++ last =
        (Piece.text before ++ piece.gap) ++ (piece.lexeme ++ (Piece.text after ++ last)) := by
      simp [Piece.text]
    rw [eq, String.Pos.Raw.isValid_iff_exists_append]
    exact ⟨_, _, String.ofList_append, rfl⟩

/-- The tokens of a source partition the text that is scanned for it. -/
theorem Token.ofSource_partitions (source : String) (ts : List Token)
    (eq : Token.ofSource source = .ok ts) : Partitions (scannedText source) ts :=
  (Token.ofSource_eq_ok_iff.mp eq).1.partitions

/-- A quoted text over two lines with a character of two bytes, and a negative number right after
it. -/
theorem Token.ofSource_partitions_lines :
    Token.ofSource "a esse \"é\n\" -XIV" =
      .ok [⟨.name "a", ⟨0, 1, 1⟩⟩, ⟨.copula, ⟨2, 1, 3⟩⟩, ⟨.text "é\n", ⟨7, 1, 8⟩⟩,
        ⟨.number (-14), ⟨13, 2, 3⟩⟩, ⟨.semicolon, ⟨17, 2, 7⟩⟩] ∧
    Partitions (scannedText "a esse \"é\n\" -XIV")
      [⟨.name "a", ⟨0, 1, 1⟩⟩, ⟨.copula, ⟨2, 1, 3⟩⟩, ⟨.text "é\n", ⟨7, 1, 8⟩⟩,
        ⟨.number (-14), ⟨13, 2, 3⟩⟩, ⟨.semicolon, ⟨17, 2, 7⟩⟩] := by
  have eq : Token.ofSource "a esse \"é\n\" -XIV" =
      .ok [⟨.name "a", ⟨0, 1, 1⟩⟩, ⟨.copula, ⟨2, 1, 3⟩⟩, ⟨.text "é\n", ⟨7, 1, 8⟩⟩,
        ⟨.number (-14), ⟨13, 2, 3⟩⟩, ⟨.semicolon, ⟨17, 2, 7⟩⟩] := by
    decide +kernel
  exact ⟨eq, Token.ofSource_partitions _ _ eq⟩

end LatinToScript
