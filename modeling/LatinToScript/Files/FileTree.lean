import LatinToScript.Files.Basic

/-!
# File trees

A file system held in memory: files and directories by the names that lead to them from the root.
The root is always there.
-/

namespace LatinToScript

/-- What can stand at a place of a file tree. -/
inductive Entry where
  | file (content : ByteArray)
  | directory

/-- Files and directories by their place, and the place at which paths start. A place is the list of
names that lead to it from the root. -/
structure FileTree where
  entries : List (List String × Entry) := []
  workingDirectory : List String := []

namespace FileTree

/-- What stands at a place. -/
def get? (tree : FileTree) (place : List String) : Option Entry :=
  if place = [] then some .directory else tree.entries.lookup place

/-- The tree with an entry at a place. -/
def put (tree : FileTree) (place : List String) (entry : Entry) : FileTree :=
  { tree with entries := (place, entry) :: tree.entries.filter fun e => e.1 ≠ place }

/-- The directory that a name leads to from another one. -/
def enter (tree : FileTree) (directory : List String) (name : String) :
    Except FileError (List String) :=
  if name = "." then
    .ok directory
  else if name = ".." then
    .ok directory.dropLast
  else
    match tree.get? (directory ++ [name]) with
    | some .directory => .ok (directory ++ [name])
    | some (.file _) => .error .notDirectory
    | none => .error .notFound

/-- The directory that some names lead to, one after the other. -/
def enterAll (tree : FileTree) (directory : List String) :
    List String → Except FileError (List String)
  | [] => .ok directory
  | name :: names =>
    match tree.enter directory name with
    | .error e => .error e
    | .ok next => tree.enterAll next names

/-- What a path leads to. -/
inductive Target where
  /-- A directory named by a path without names or with a dot at its end. -/
  | directory
  /-- A place in a directory that exists. -/
  | place (place : List String)

/-- Follows a path up to its last name. -/
def locate (tree : FileTree) (path : String) : Except FileError Target :=
  let start := if Path.isAbsolute path then [] else tree.workingDirectory
  match (Path.names path).getLast? with
  | none => if path = "" then .error .notFound else .ok .directory
  | some name =>
    match tree.enterAll start (Path.names path).dropLast with
    | .error e => .error e
    | .ok directory =>
      if name = "." ∨ name = ".." then .ok .directory else .ok (.place (directory ++ [name]))

/-- The content of the file at a path. -/
def read (tree : FileTree) (path : String) : Except FileError ByteArray :=
  match tree.locate path with
  | .error e => .error e
  | .ok .directory => .error .isDirectory
  | .ok (.place place) =>
    match tree.get? place with
    | none => .error .notFound
    | some .directory => .error .isDirectory
    | some (.file content) =>
      if Path.hasTrailingSlash path then .error .notDirectory else .ok content

/-- The tree after a file has been given a content. -/
def write (tree : FileTree) (path : String) (content : ByteArray) : Except FileError FileTree :=
  match tree.locate path with
  | .error e => .error e
  | .ok .directory => .error .isDirectory
  | .ok (.place place) =>
    if Path.hasTrailingSlash path then
      .error .isDirectory
    else
      match tree.get? place with
      | some .directory => .error .isDirectory
      | _ => .ok (tree.put place (.file content))

/-- The tree after one directory has been made. -/
def createDirectory (tree : FileTree) (path : String) : Except FileError FileTree :=
  match tree.locate path with
  | .error e => .error e
  | .ok .directory => .error .alreadyExists
  | .ok (.place place) =>
    match tree.get? place with
    | some _ => .error .alreadyExists
    | none => .ok (tree.put place .directory)

/-- Whether a path is that of a directory. -/
def isDirectory (tree : FileTree) (path : String) : Bool :=
  match tree.locate path with
  | .error _ => false
  | .ok .directory => true
  | .ok (.place place) =>
    match tree.get? place with
    | some .directory => true
    | _ => false

/-- Makes the first of some directories after the others, each of which stands in the next, as far
as they are missing; the tree after it. -/
def createLineage (tree : FileTree) : List String → Except FileError Unit × FileTree
  | [] => (.ok (), tree)
  | path :: above =>
    match tree.createDirectory path with
    | .ok made => (.ok (), made)
    | .error .notFound =>
      match tree.createLineage above with
      | (.error e, made) => (.error e, made)
      | (.ok (), made) =>
        match made.createDirectory path with
        | .ok made' => (.ok (), made')
        | .error e => (if made.isDirectory path then .ok () else .error e, made)
    | .error e => (if tree.isDirectory path then .ok () else .error e, tree)

/-- Makes a directory and those above it, as far as they are missing; the tree after it. -/
def createDirectories (tree : FileTree) (path : String) : Except FileError Unit × FileTree :=
  if path = "" then
    (.ok (), tree)
  else
    tree.createLineage (Path.lineage (Path.pieces path.toList).reverse)

/-- The file system of a file tree. -/
def fileSystem : FileSystem (StateM FileTree) where
  read path := do return (← get).read path
  createDirectories path := do
    let (result, tree) := (← get).createDirectories path
    set tree
    return result
  write path content := do
    match (← get).write path content with
    | .error e => return .error e
    | .ok tree =>
      set tree
      return .ok ()

end FileTree

end LatinToScript
