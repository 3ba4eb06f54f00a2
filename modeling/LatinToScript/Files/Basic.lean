/-!
# File systems

What a program needs of a file system, and why an operation on one can fail.

Paths are texts whose pieces are divided by slashes. Empty pieces and single dots count for nothing,
except that a path may start with one: an empty piece in front of a slash is the root, and a dot is
the working directory.
-/

namespace LatinToScript

/-! ## Paths -/

namespace Path

/-- The pieces of a text between its slashes. -/
def pieces : List Char → List (List Char)
  | [] => [[]]
  | c :: rest =>
    if c = '/' then
      [] :: pieces rest
    else
      match pieces rest with
      | [] => [[c]]
      | piece :: others => (c :: piece) :: others

/-- Whether a piece behind the first one counts for nothing. -/
def isIdle (piece : List Char) : Bool :=
  piece = [] || piece = ['.']

/-- The pieces of a path, the last one first, without idle ones at its end. -/
def trim : List (List Char) → List (List Char)
  | [] => []
  | [first] => [first]
  | piece :: next :: others =>
    if isIdle piece then trim (next :: others) else piece :: next :: others

/-- The pieces of a path without the last that counts, if there is one; the last piece comes
first. -/
def init? : List (List Char) → Option (List (List Char))
  | [] => none
  | [first] => if first = [] then none else some []
  | piece :: next :: others =>
    if isIdle piece then init? (next :: others) else some (trim (next :: others))

/-- The path with given pieces, the last one first. -/
def ofPieces : List (List Char) → String
  | [[]] => "/"
  | ps => String.intercalate "/" (ps.reverse.map String.ofList)

/-- The path without its last piece; none for the root and for the empty path. -/
def parent? (path : String) : Option String :=
  (init? (pieces path.toList).reverse).map ofPieces

/-- Without idle pieces a path is not longer. -/
theorem length_trim_le (ps : List (List Char)) : (trim ps).length ≤ ps.length := by
  induction ps with
  | nil => exact Nat.le_refl _
  | cons piece others ih =>
    cases others with
    | nil => exact Nat.le_refl _
    | cons next others =>
      rw [trim]
      split
      · exact Nat.le_succ_of_le ih
      · exact Nat.le_refl _

/-- Without its last piece a path is shorter. -/
theorem length_init?_lt {ps qs : List (List Char)} (h : init? ps = some qs) :
    qs.length < ps.length := by
  induction ps with
  | nil => cases h
  | cons piece others ih =>
    cases others with
    | nil =>
      rw [init?] at h
      split at h
      · cases h
      · cases h
        exact Nat.zero_lt_succ _
    | cons next others =>
      rw [init?] at h
      split at h
      · exact Nat.lt_succ_of_lt (ih h)
      · cases h
        exact Nat.lt_succ_of_le (length_trim_le _)

/-- A path of given pieces, the last one first, and all the paths above it, up to the root or the
working directory. -/
def lineage (ps : List (List Char)) : List String :=
  match h : init? ps with
  | none => [ofPieces ps]
  | some [] => [ofPieces ps]
  | some (q :: qs) =>
    have := length_init?_lt h
    ofPieces ps :: lineage (q :: qs)
termination_by ps.length

/-- The names that lead to the place of a path, dots included, the last one last. -/
def names (path : String) : List String :=
  ((pieces path.toList).filter fun piece => !piece.isEmpty).map String.ofList

/-- Whether a path starts at the root. -/
def isAbsolute (path : String) : Bool :=
  path.toList.head? = some '/'

/-- Whether a path ends in a slash, so that it can only be the path of a directory. -/
def hasTrailingSlash (path : String) : Bool :=
  path.toList.getLast? = some '/'

end Path

/-! ## Operations -/

/-- Why an operation on a file fails. -/
inductive FileError where
  | notFound
  | notDirectory
  | isDirectory
  | alreadyExists
  /-- The content of a file is no UTF-8 text. -/
  | notText
deriving DecidableEq, Repr

/-- The text of the message. -/
def FileError.message : FileError → String
  | .notFound => "No such file or directory (os error 2)"
  | .notDirectory => "Not a directory (os error 20)"
  | .isDirectory => "Is a directory (os error 21)"
  | .alreadyExists => "File exists (os error 17)"
  | .notText => "stream did not contain valid UTF-8"

/-- The operations of a file system; paths that do not start at the root start at its working
directory. -/
structure FileSystem (m : Type → Type) where
  /-- The content of a file. -/
  read : (path : String) → m (Except FileError ByteArray)
  /-- Makes a directory and those above it, as far as they are missing. -/
  createDirectories : (path : String) → m (Except FileError Unit)
  /-- Gives a file a content; a missing file is made. -/
  write : (path : String) → ByteArray → m (Except FileError Unit)

end LatinToScript
