import DocMarkup.CommandLine.Help
import DocMarkup.Compiler
import DocMarkup.Config
import DocMarkup.RawHtml.Sanitize

/-!
# The program

What a command line does: the lines that it writes, what it says about its success, and its exit
code. Documents are rendered one after the other, and the first that fails ends the run; what was
rendered before stays written.

## Main definitions

* `Outcome` : what a run leaves behind.
* `Failure` : why a run ends early.
* `Program.renderEach` : the markup of inputs in order.
* `Program.run` : a run for arguments.
-/

namespace DocMarkup

/-- What a run leaves behind. -/
structure Outcome where
  code : Nat
  /-- The lines of standard output. A line holds markup, which may hold line ends of its own. -/
  lines : List String
  /-- What the run says about its success, if anything. -/
  status : Option String
  deriving DecidableEq, Repr

/-- Why a run ends early. -/
inductive Failure where
  | config (e : ConfigError)
  | overrides (e : OverrideError)
  | input (e : FileError)
  | unreadable (path : String) (e : FileError)
  | document (name : String) (e : DecodeError)

/-- The message of a failure. What is wrong with the syntax of a document is not said. -/
def Failure.message : Failure → String
  | config e => e.message
  | overrides e => e.message
  | input e => e.message
  | unreadable path e => path ++ ": " ++ e.message
  | document name e => name ++ ": " ++ e.message?.getD DecodeError.heading

namespace Program

/-- The outcome of a run that has written lines. -/
def outcome (lines : List String) (failure : Option Failure) (success : Option String) : Outcome :=
  match failure with
  | some f => ⟨1, lines, some ("Error: " ++ f.message)⟩
  | none => ⟨0, lines, success⟩

/-- The outcome of arguments that name no command to run. -/
def halted : Halt → Outcome
  | .misuse => ⟨2, [], none⟩
  | .help topic => ⟨0, topic.lines, none⟩
  | .version => ⟨0, [versionLine], none⟩

variable {m : Type → Type} [Monad m]

/-- The text of an input: a file, or standard input. -/
def source (host : Host m) (input : Option String) : m (Except Failure String) := do
  match input with
  | some path => return (← host.readFile path).mapError (Failure.unreadable path)
  | none => return (← host.readInput).mapError Failure.input

/-- The name of an input in messages. -/
def inputName (input : Option String) : String := input.getD "<stdin>"

/-- The markup of inputs in order, up to the first that fails. -/
def renderEach (host : Host m) (ov : Overrides) :
    Compiler → List (Option String) → m (List String × Option Failure)
  | _, [] => pure ([], none)
  | c, input :: rest => do
    match ← source host input with
    | .error f => return ([], some f)
    | .ok text =>
      match c.render ov text with
      | (.error e, _) => return ([], some (.document (inputName input) e))
      | (.ok html, c) =>
        let (lines, failure) ← renderEach host ov c rest
        return ((html.map Html.markup).getD "" :: lines, failure)

/-- The inputs that files stand for: without any, standard input. -/
def inputs (files : List String) : List (Option String) :=
  if files.isEmpty then [none] else files.map some

/-- What a run says that has rendered documents. -/
def summary (count : Nat) : String := "Rendered " ++ Decimal.text count ++ " document(s)"

/-- The highest capacity for which memory can be asked. The trees stand in a table whose number of
places is a power of two, and seven of eight places may be taken; a table of `2 ^ 59` places is
larger than any memory. -/
def maxCapacity : Nat := 7 * (1 <<< 55)

/-- The outcome of asking for more memory than there can be. -/
def exhausted : Outcome := ⟨101, [], none⟩

/-- Renders inputs under the settings that hold. -/
def render (host : Host m) (o : RenderOptions) : m Outcome := do
  match ← Config.load host o.config o.capacity with
  | .error e => return outcome [] (some (.config e)) none
  | .ok config =>
    match Overrides.ofTags config.overrides.entries with
    | .error e => return outcome [] (some (.overrides e)) none
    | .ok ov =>
      if maxCapacity < config.capacity then return exhausted
      let (lines, failure) ← renderEach host ov (Compiler.empty config.capacity) (inputs o.files)
      return outcome lines failure (if o.verbose then some (summary lines.length) else none)

/-- Writes what is harmless of an input. -/
def sanitize (host : Host m) (file : Option String) : m Outcome := do
  match ← source host file with
  | .error f => return outcome [] (some f) none
  | .ok text =>
    return outcome [Html.markup (.fragment none (RawHtml.sanitize text "raw"))] none none

/-- The variable that stands for a capacity that no argument gives. -/
def capacityVariable : String := "DJ_CACHE_CAPACITY"

/-- The options with a capacity from the variable. A value that is no number is misuse. -/
def withVariable (host : Host m) (o : RenderOptions) : m (Except Halt RenderOptions) := do
  match o.capacity, ← host.environment capacityVariable with
  | none, some v =>
    match Arguments.natural? v with
    | some n => return .ok { o with capacity := some n }
    | none => return .error .misuse
  | _, _ => return .ok o

/-- A run for arguments. -/
def run (host : Host m) (args : List String) : m Outcome := do
  match Arguments.parse args with
  | .error h => return halted h
  | .ok (.sanitize file) => sanitize host file
  | .ok (.render o) =>
    match ← withVariable host o with
    | .error h => return halted h
    | .ok o => render host o

end Program

end DocMarkup
