/-!
# What a program finds around it

A program reads files, standard input and variables, and stands in a working directory. All of
that is one record of actions in a monad, so that the program itself does not depend on where its
answers come from: the system's files, or a tree of files held as a value.

## Main definitions

* `FileError` : why a file cannot be read.
* `Host` : the actions.
-/

namespace DocMarkup

/-- Why a file cannot be read. -/
inductive FileError where
  | missing
  | isDirectory
  /-- A file stands where its path needs a directory. -/
  | notDirectory
  | other (message : String)
  deriving DecidableEq, Repr

namespace FileError

/-- The message of the error. -/
def message : FileError → String
  | missing => "No such file or directory (os error 2)"
  | isDirectory => "Is a directory (os error 21)"
  | notDirectory => "Not a directory (os error 20)"
  | other m => m

/-- Whether there is nothing at the path. -/
def isAbsent : FileError → Bool
  | missing | notDirectory => true
  | isDirectory | other _ => false

end FileError

/-- What a program finds around it. -/
structure Host (m : Type → Type) where
  /-- The text of a file. -/
  readFile : String → m (Except FileError String)
  /-- The text of standard input. -/
  readInput : m (Except FileError String)
  /-- The value of an environment variable, if it is set. -/
  environment : String → m (Option String)
  /-- The working directory and those above it, nearest first. -/
  directories : m (List String)

end DocMarkup
