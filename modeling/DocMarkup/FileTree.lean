import DocMarkup.Host
import DocMarkup.Text.Split

/-!
# Trees of files

Files as a value: every file with its place and its text. Directories are the places above files,
and a few that may be empty. Paths are followed name by name, and each name needs a directory to be
looked up in.

## Main definitions

* `FileTree` : the files.
* `FileTree.resolve` : the place that a path leads to.
* `FileTree.read` : the text of the file that a path leads to.
* `FileTree.host` : the tree as the surroundings of a program.
-/

namespace DocMarkup

/-- A place in a tree of files: the names from the root on. -/
abbrev Place := List String

/-- Files with their places. -/
structure FileTree where
  files : List (Place × String)
  /-- Directories that exist even if they hold no file. -/
  folders : List Place

/-- What stands at a place. -/
inductive Entry where
  | file (text : String)
  | directory
  deriving DecidableEq, Repr

namespace FileTree

/-- What stands at a place, if anything does. The root is a directory. -/
def entry? (t : FileTree) (p : Place) : Option Entry :=
  match t.files.lookup p with
  | some text => some (.file text)
  | none =>
    if p = [] || (t.files.map Prod.fst ++ t.folders).any p.isPrefixOf then some .directory
    else none

/-- The place that a name leads to from another. The root is above itself. -/
def enter (t : FileTree) (p : Place) (name : String) : Except FileError Place :=
  match t.entry? p with
  | none => .error .missing
  | some (.file _) => .error .notDirectory
  | some .directory =>
    .ok (if name = "" ∨ name = "." then p else if name = ".." then p.dropLast else p ++ [name])

/-- The place that a path leads to: from the root if it starts with a slash, else from the working
directory. -/
def resolve (t : FileTree) (working : Place) (path : String) : Except FileError Place :=
  match path.toList with
  | [] => .error .missing
  | c :: rest =>
    ((Text.split '/' (c :: rest)).map String.ofList).foldlM t.enter
      (if c = '/' then [] else working)

/-- The text of the file that a path leads to. -/
def read (t : FileTree) (working : Place) (path : String) : Except FileError String := do
  match t.entry? (← t.resolve working path) with
  | none => .error .missing
  | some .directory => .error .isDirectory
  | some (.file text) => .ok text

/-- The path of a place from the root. -/
def absolute (p : Place) : String := "/" ++ "/".intercalate p

/-- The paths of a place, its names given from the last to the first, and of all above it. -/
def upwards : List String → List String
  | [] => [absolute []]
  | name :: rest => absolute (name :: rest).reverse :: upwards rest

/-- The surroundings of a program that stands in a directory of the tree. -/
def host (t : FileTree) (working : Place) (input : String) (settings : List (String × String)) :
    Host Id where
  readFile path := t.read working path
  readInput := .ok input
  environment name := settings.lookup name
  directories := upwards working.reverse

end FileTree

end DocMarkup
