import LatinToScript.Files.FileTree
import Mathlib.Tactic.Common

/-!
# Laws of file systems

`FileSystem.Laws` says what can be relied on when files are read and written. The laws are about what stands at
each place, whatever paths lead there: reading changes nothing, making directories makes nothing else, and writing
a file changes this file only, or nothing at all if it fails. File trees keep the laws (`FileTree.laws`).
-/

namespace LatinToScript

/-- What stands at the places of a file system, and which of them the path of a file leads to. -/
structure FileView (σ π : Type) where
  entry : σ → π → Option Entry
  place : σ → String → Option π

/-- What stood at a place is still there, or there is a directory where nothing was. -/
inductive Entry.Kept : Option Entry → Option Entry → Prop where
  | same {e} :
    Kept e e
  | made :
    Kept none (some .directory)

/-- What two commands keep one after the other is kept by both together. -/
lemma Entry.Kept.trans {a b c : Option Entry} (first : Kept a b) (second : Kept b c) : Kept a c := by
  cases first with
  | same => exact second
  | made =>
    cases second with
    | same => exact .made

/-- No file has changed; only directories may have been added. -/
def FileView.Spared {σ π : Type} (view : FileView σ π) (s s' : σ) : Prop :=
  ∀ a, Entry.Kept (view.entry s a) (view.entry s' a)

/-- What can be relied on when files are read and written. -/
structure FileSystem.Laws {σ π : Type} (files : FileSystem (StateM σ)) (view : FileView σ π) : Prop where
  read_state : ∀ path s, ((files.read path).run s).2 = s
  read_file : ∀ path s a content,
    view.place s path = some a →
    view.entry s a = some (.file content) →
    ((files.read path).run s).1 = .ok content
  createDirectories : ∀ path s, view.Spared s ((files.createDirectories path).run s).2
  write_error : ∀ path content s e,
    ((files.write path content).run s).1 = .error e →
    ∀ a, view.entry ((files.write path content).run s).2 a = view.entry s a
  write_ok : ∀ path content s,
    ((files.write path content).run s).1 = .ok () →
    ∃ a, view.place ((files.write path content).run s).2 path = some a ∧
      view.entry ((files.write path content).run s).2 a = some (.file content) ∧
      ∀ b, b ≠ a → view.entry ((files.write path content).run s).2 b = view.entry s b

/-! ## File trees -/

namespace FileTree

variable {tree made : FileTree} {place directory next : List String} {path : String} {content : ByteArray}

/-- What stands where in a file tree. A path with a slash at its end leads to no file. -/
def view : FileView FileTree (List String) where
  entry := get?
  place tree path :=
    match tree.locate path with
    | .ok (.place place) => if Path.hasTrailingSlash path then none else some place
    | _ => none

/-- A path leads to the place that it is located at, unless it ends in a slash. -/
lemma view_place_eq_some_iff :
    view.place tree path = some place ↔
      tree.locate path = .ok (.place place) ∧ Path.hasTrailingSlash path = false := by
  rw [view]
  dsimp only
  split
  case h_1 found eq =>
    rw [eq]
    cases Path.hasTrailingSlash path <;> simp
  case h_2 no =>
    constructor
    · intro eq
      cases eq
    · rintro ⟨eq, _⟩
      exact (no place eq).elim

/-- What is put at a place stands there, unless the place is the root. -/
lemma get?_put_self (tree : FileTree) (some : place ≠ []) (entry : Entry) :
    (tree.put place entry).get? place = .some entry := by
  rw [get?, if_neg some, put, List.lookup_cons_self]

/-- Entries of other places are found when those of one place are taken away. -/
lemma lookup_filter_ne {other : List String} (entries : List (List String × Entry)) (ne : other ≠ place) :
    (entries.filter fun e => e.1 ≠ place).lookup other = entries.lookup other := by
  induction entries with
  | nil => rfl
  | cons e entries ih =>
    obtain ⟨key, entry⟩ := e
    by_cases same : key = place
    · have off : (other == key) = false := by
        rw [same]
        exact beq_eq_false_iff_ne.mpr ne
      rw [List.filter_cons_of_neg (by simpa using same), ih, List.lookup_cons, off]
    · rw [List.filter_cons_of_pos (by simpa using same), List.lookup_cons, List.lookup_cons, ih]

/-- What is put at a place changes no other place. -/
lemma get?_put_of_ne {other : List String} (tree : FileTree) (ne : other ≠ place) (entry : Entry) :
    (tree.put place entry).get? other = tree.get? other := by
  have off : (other == place) = false := beq_eq_false_iff_ne.mpr ne
  rw [get?, get?, put, List.lookup_cons, off]
  congr 1
  exact lookup_filter_ne tree.entries ne

/-- The root is a directory, so a place with something else is not the root. -/
lemma ne_nil_of_get?_ne (no : tree.get? place ≠ some .directory) : place ≠ [] := by
  rintro rfl
  exact no rfl

/-! Only directories are on the way to the place of a path, so it stays where it is as long as they do. -/

section Stays

variable (stays : ∀ place, tree.get? place = some .directory → made.get? place = some .directory)

include stays

/-- A step into a directory, or to what stands in it, leads to the same place. -/
lemma enter_eq_ok {name : String} (eq : tree.enter directory name = .ok next) :
    made.enter directory name = .ok next := by
  rw [enter] at eq ⊢
  by_cases dot : name = "."
  · rwa [if_pos dot] at eq ⊢
  by_cases dots : name = ".."
  · rwa [if_neg dot, if_pos dots] at eq ⊢
  rw [if_neg dot, if_neg dots] at eq ⊢
  split at eq
  case h_1 found =>
    rwa [stays _ found]
  case h_2 => cases eq
  case h_3 => cases eq

/-- The steps along some names lead to the same place. -/
lemma enterAll_eq_ok {names : List String} (eq : tree.enterAll directory names = .ok next) :
    made.enterAll directory names = .ok next := by
  induction names generalizing directory with
  | nil => exact eq
  | cons name names ih =>
    rw [enterAll] at eq ⊢
    split at eq
    case h_1 => cases eq
    case h_2 between eqn =>
      rw [enter_eq_ok stays eqn]
      exact ih eq

/-- A path that leads to a place still leads to it. -/
lemma locate_eq_ok (same : made.workingDirectory = tree.workingDirectory)
    (eq : tree.locate path = .ok (.place place)) : made.locate path = .ok (.place place) := by
  rw [locate] at eq ⊢
  rw [same]
  split at eq
  case h_1 => split at eq <;> cases eq
  case h_2 name _ =>
    split at eq
    case h_1 => cases eq
    case h_2 found eqd =>
      rw [enterAll_eq_ok stays eqd]
      exact eq

end Stays

/-- A file that is written is put at the place of its path, where no directory is. -/
lemma write_eq_ok (eq : tree.write path content = .ok made) :
    ∃ place, view.place tree path = some place ∧ tree.get? place ≠ some .directory ∧
      made = tree.put place (.file content) := by
  rw [write] at eq
  split at eq
  case h_1 => cases eq
  case h_2 => cases eq
  case h_3 place eql =>
    split at eq
    case isTrue => cases eq
    case isFalse slash =>
      split at eq
      case h_1 => cases eq
      case h_2 no =>
        cases eq
        exact ⟨place, view_place_eq_some_iff.mpr ⟨eql, Bool.eq_false_iff.mpr slash⟩, no, rfl⟩

/-- A path still leads to the file that has been put at its place. -/
lemma view_place_put (leads : view.place tree path = some place) (no : tree.get? place ≠ some .directory)
    (entry : Entry) : view.place (tree.put place entry) path = some place := by
  obtain ⟨eq, slash⟩ := view_place_eq_some_iff.mp leads
  have stays : ∀ other, tree.get? other = some .directory →
      (tree.put place entry).get? other = some .directory := by
    intro other found
    have ne : other ≠ place := by
      rintro rfl
      exact no found
    rw [get?_put_of_ne tree ne, found]
  exact view_place_eq_some_iff.mpr ⟨locate_eq_ok stays rfl eq, slash⟩

/-- Making a directory changes no file. -/
lemma createDirectory_kept (eq : tree.createDirectory path = .ok made) (a : List String) :
    Entry.Kept (tree.get? a) (made.get? a) := by
  rw [createDirectory] at eq
  split at eq
  case h_1 => cases eq
  case h_2 => cases eq
  case h_3 place _ =>
    split at eq
    case h_1 => cases eq
    case h_2 no =>
      cases eq
      by_cases same : a = place
      · have some : place ≠ [] := ne_nil_of_get?_ne (by rw [no]; exact nofun)
        rw [same, no, get?_put_self tree some]
        exact .made
      · rw [get?_put_of_ne tree same]
        exact .same

/-- Making some directories, as far as it goes, changes no file. -/
lemma createLineage_kept (tree : FileTree) (paths : List String) (a : List String) :
    Entry.Kept (tree.get? a) ((tree.createLineage paths).2.get? a) := by
  induction paths generalizing tree with
  | nil => exact .same
  | cons path above ih =>
    rw [createLineage]
    split
    case h_1 made eq => exact createDirectory_kept eq a
    case h_2 =>
      have up := ih tree
      split
      case h_1 eq =>
        rw [eq] at up
        exact up
      case h_2 eq =>
        rw [eq] at up
        split
        case h_1 made eqm => exact up.trans (createDirectory_kept eqm a)
        case h_2 => exact up
    case h_3 => exact .same

/-- A file system writes as its file tree does, and a tree that cannot be written to stays as it is. -/
lemma run_write (tree : FileTree) (path : String) (content : ByteArray) :
    (fileSystem.write path content).run tree =
      match tree.write path content with
      | .error e => (.error e, tree)
      | .ok made => (.ok (), made) := by
  change (StateT.run (match tree.write path content with
    | .error e => pure (.error e)
    | .ok made => do
      set made
      pure (.ok ()) : StateM FileTree (Except FileError Unit)) tree) = _
  cases tree.write path content <;> rfl

/-- File trees keep the laws of file systems. -/
lemma laws : fileSystem.Laws view where
  read_state _ _ := rfl
  read_file path tree place content leads found := by
    obtain ⟨eq, slash⟩ := view_place_eq_some_iff.mp leads
    change tree.get? place = _ at found
    change tree.read path = .ok content
    rw [read, eq]
    dsimp only
    rw [found]
    dsimp only
    rw [slash, if_neg Bool.false_ne_true]
  createDirectories path tree := by
    intro a
    change Entry.Kept (tree.get? a) ((tree.createDirectories path).2.get? a)
    rw [createDirectories]
    split
    case isTrue => exact .same
    case isFalse => exact createLineage_kept tree _ a
  write_error path content tree e failed a := by
    rw [run_write] at failed ⊢
    cases eq : tree.write path content with
    | error e => rfl
    | ok made =>
      rw [eq] at failed
      cases failed
  write_ok path content tree ok := by
    rw [run_write] at ok ⊢
    cases eq : tree.write path content with
    | error e =>
      rw [eq] at ok
      cases ok
    | ok made =>
      obtain ⟨place, leads, no, rfl⟩ := write_eq_ok eq
      refine ⟨place, view_place_put leads no _, get?_put_self tree (ne_nil_of_get?_ne no) _, ?_⟩
      intro other ne
      exact get?_put_of_ne tree ne _

end FileTree

end LatinToScript
