import DocMarkup.Cache
import DocMarkup.Host
import DocMarkup.Override
import DocMarkup.Toml.Document

/-!
# Configuration

How many trees a compiler keeps and which tags replace the elements of which kinds, as a file says.
The file is given, or it is the nearest one of a fixed name in the working directory and those
above it; without any, defaults hold. Names of kinds are not checked here.

## Main definitions

* `Config` : the settings, and the file that they come from.
* `Config.ofTable?` : the settings of a document.
* `Config.fault?` : what is wrong with settings.
* `Config.load` : the settings that hold for a program.
-/

namespace DocMarkup

/-- The settings of a program. -/
structure Config where
  /-- How many trees a compiler keeps. -/
  capacity : Nat := Cache.defaultCapacity
  /-- The tags that replace elements, by names of kinds. -/
  overrides : Dict String := ∅
  /-- The path of the file that they come from. -/
  origin : Option String := none

/-- Why there are no settings. -/
inductive ConfigError where
  | notFound (path : String)
  | unreadable (e : FileError)
  | malformed
  | zeroCapacity
  | invalidTag (kind tag : String)
  deriving DecidableEq, Repr

/-- The message of the error. -/
def ConfigError.message : ConfigError → String
  | notFound path => "Configuration file not found: " ++ path
  | unreadable e => "I/O error: " ++ e.message
  | malformed => "TOML parse error"
  | zeroCapacity => "Configuration error: cache.capacity must be greater than 0"
  | invalidTag kind tag =>
    "Configuration error: render.overrides." ++ kind ++ ": invalid tag name " ++ Text.quoted tag

namespace Config

/-- Whether the entries of a table that no setting stands in are sound. -/
def othersSound (names : List String) (t : Toml.Table) : Bool :=
  t.all fun e => names.contains e.1 || e.2.isSound

/-- The only field of a section, if it is set. A section is a table, or an array that starts with
its field. What else a table holds has to be sound; what follows in an array does not count. -/
def field? (name : String) (v : Toml.Value) : Option (Option Toml.Value) :=
  match v.table?, v.items? with
  | some t, _ => if othersSound [name] t then some (t.lookup name) else none
  | none, some items => some items.head?
  | none, none => none

/-- What a document says in the field of a section, as a value of a type. -/
def setting? {α : Type} (t : Toml.Table) (name field : String) (default : α)
    (ofValue? : Toml.Value → Option α) : Option α :=
  match t.lookup name with
  | none => some default
  | some v =>
    match field? field v with
    | none => none
    | some none => some default
    | some (some w) => ofValue? w

/-- A value as a number of 64 bits. -/
def natural? : Toml.Value → Option Nat
  | .number (.integer n) => if 0 ≤ n ∧ n.toNat < 1 <<< 64 then some n.toNat else none
  | _ => none

/-- A value as a dictionary of texts. -/
def texts? (v : Toml.Value) : Option (Dict String) := do
  let entries ← (← v.table?).mapM fun (k, w) => match w with
    | .string s => some (k, s)
    | _ => none
  return Dict.ofList entries

/-- The settings of a document. What it says beyond them does not count, as long as it is sound. -/
def ofTable? (t : Toml.Table) : Option Config := do
  let capacity ← setting? t "cache" "capacity" Cache.defaultCapacity natural?
  let overrides ← setting? t "render" "overrides" ∅ texts?
  if othersSound ["cache", "render"] t then some ⟨capacity, overrides, none⟩ else none

/-- What is wrong with settings: nothing may be kept, or the first of the tags is no tag. -/
def fault? (c : Config) : Option ConfigError :=
  if c.capacity = 0 then some .zeroCapacity
  else (c.overrides.entries.find? fun e => !Html.isTagName e.2).map fun e => .invalidTag e.1 e.2

/-- The settings of a file of that text. -/
def ofText (path text : String) : Except ConfigError Config :=
  match (Toml.document? text).bind ofTable? with
  | none => .error .malformed
  | some c => .ok { c with origin := some path }

/-- The settings with a capacity given elsewhere, if they have no fault then. -/
def checked (capacity : Option Nat) (c : Config) : Except ConfigError Config :=
  let c := { c with capacity := capacity.getD c.capacity }
  match c.fault? with
  | some e => .error e
  | none => .ok c

/-- The name of the file to look for. -/
def fileName : String := "dj.toml"

/-- The path of a name in a directory. -/
def inside (directory name : String) : String :=
  if directory.toList.getLast? = some '/' then directory ++ name else directory ++ "/" ++ name

variable {m : Type → Type} [Monad m]

/-- The settings of the nearest file of the fixed name, or the defaults. -/
def discover (host : Host m) : List String → m (Except ConfigError Config)
  | [] => pure (.ok {})
  | directory :: above => do
    let path := inside directory fileName
    match ← host.readFile path with
    | .error e => if e.isAbsent then discover host above else return .error (.unreadable e)
    | .ok text => return ofText path text

/-- The settings of a given file. -/
def given (host : Host m) (path : String) : m (Except ConfigError Config) := do
  match ← host.readFile path with
  | .error e => return .error (if e.isAbsent then .notFound path else .unreadable e)
  | .ok text => return ofText path text

/-- The settings that hold for a program that may be given a file and a capacity. -/
def load (host : Host m) (path : Option String) (capacity : Option Nat) :
    m (Except ConfigError Config) := do
  let found ← match path with
    | some path => given host path
    | none => do discover host (← host.directories)
  return found.bind (checked capacity)

end Config

end DocMarkup
