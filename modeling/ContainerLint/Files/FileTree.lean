import ContainerLint.Text.CharClass

/-!
# File paths and file trees

A path is a text in which slashes divide names. Nothing is normalised when paths are joined. A file
tree is what the library knows of a file system: which directories there are and what the files
hold.

## Main definitions

* `Path.isAbsolute`, `Path.join` — absolute paths, and paths relative to a directory.
* `Path.parent?` — the directory of a path.
* `FileTree` — directories and files, each known by the names on the way from the root.
* `FileTree.resolve?` — where a path leads.
* `FileTree.readBytes?` — the content of the file that a path leads to, unless the path is too long.
* `FileTree.isFile`, `FileTree.readText?`, `FileTree.canonical?` — questions about a path.
-/

set_option autoImplicit false

namespace ContainerLint

open Text

/-! ## Paths -/

namespace Path

/-- Whether a path starts at the root directory. -/
def isAbsolute (path : String) : Bool :=
  path.toList.head? == some '/'

/-- The path `path` seen from the directory `base`. An absolute path does not depend on it. -/
def join (base path : String) : String :=
  if isAbsolute path then path
  else if base.isEmpty || base.toList.getLast? == some '/' then base ++ path
  else base ++ "/" ++ path

/-- Whether a segment of a path does not lead anywhere. -/
def isIdle (segment : String) : Bool :=
  segment == "" || segment == "."

/-- The segments without idle ones at the end. -/
def dropIdle (segments : List String) : List String :=
  (segments.reverse.dropWhile isIdle).reverse

/-- The directory of a path. Slashes and idle segments at the end do not count, neither before nor
after the last name is taken away. -/
def parent? (path : String) : Option String :=
  match splitAt '/' path with
  | [] => none
  | "" :: segments =>
    match dropIdle segments with
    | [] => none
    | segments => some ("/" ++ "/".intercalate (dropIdle segments.dropLast))
  | first :: segments =>
    match dropIdle segments with
    | [] => some ""
    | segments => some ("/".intercalate (first :: dropIdle segments.dropLast))

end Path

/-! ## Trees -/

/-- The names on the way from the root directory. -/
abbrev Location := List String

/-- A file system without links. -/
structure FileTree where
  dirs : List Location := []
  files : List (Location × ByteArray) := []

namespace FileTree

/-- Whether there is a directory at a location. The root directory is always there. -/
def isDir (tree : FileTree) (location : Location) : Bool :=
  location.isEmpty || tree.dirs.contains location

/-- The content of the file at a location. -/
def content? (tree : FileTree) (location : Location) : Option ByteArray :=
  (tree.files.find? fun f => f.1 == location).map (·.2)

/-- Whether there is something at a location. -/
def hasEntry (tree : FileTree) (location : Location) : Bool :=
  tree.isDir location || (tree.content? location).isSome

/-- Add a directory and those above it. -/
def addDir (tree : FileTree) (location : Location) : FileTree :=
  { tree with dirs := tree.dirs ++ (List.range location.length).map fun n => location.take (n + 1) }

/-- Add a file and the directories above it. -/
def addFile (tree : FileTree) (location : Location) (content : ByteArray) : FileTree :=
  let tree := tree.addDir location.dropLast
  { tree with files := tree.files ++ [(location, content)] }

/-- One step of a path. Every step, also one that does not lead anywhere, starts in a directory. -/
def step (tree : FileTree) (location : Location) (segment : String) : Option Location :=
  if !tree.isDir location then none
  else if Path.isIdle segment then some location
  else if segment == ".." then some location.dropLast
  else
    let location := location ++ [segment]
    if tree.hasEntry location then some location else none

/-- Where an absolute path leads, if everything on the way exists. -/
def resolve? (tree : FileTree) (path : String) : Option Location :=
  if Path.isAbsolute path then (splitAt '/' path).foldlM tree.step [] else none

/-- The most bytes that a path may have if it is to be opened. -/
def pathLimit : Nat := 4095

/-- The content of the file that a path leads to. A path beyond the limit is refused, wherever it
leads. -/
def readBytes? (tree : FileTree) (path : String) : Option ByteArray :=
  if path.utf8ByteSize ≤ pathLimit then (tree.resolve? path).bind tree.content? else none

/-- Whether a path leads to a file. -/
def isFile (tree : FileTree) (path : String) : Bool :=
  (tree.readBytes? path).isSome

/-- The text of the file that a path leads to, if it is valid UTF-8. -/
def readText? (tree : FileTree) (path : String) : Option String :=
  (tree.readBytes? path).bind String.fromUTF8?

/-- The shortest path that leads to the same place. The path is followed name by name, so it may be
of any length. -/
def canonical? (tree : FileTree) (path : String) : Option String :=
  (tree.resolve? path).map fun location => "/" ++ "/".intercalate location

end FileTree

end ContainerLint
