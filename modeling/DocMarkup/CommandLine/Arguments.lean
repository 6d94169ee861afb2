import DocMarkup.Decimal.Natural
import DocMarkup.Text.Digit
import DocMarkup.Text.Split

/-!
# Command line arguments

Arguments are read one by one from the left. The value of an option stands in its own argument,
after an equals sign, or in the next argument unless that looks like an option. After two hyphens
every argument is a file. The first argument that is wrong, or that asks for help, ends the
reading.

## Main definitions

* `Invocation` : what a command line asks for.
* `Arguments.parse` : what arguments ask for, or why they end the reading.
-/

namespace DocMarkup

/-- What `render` is asked to do. -/
structure RenderOptions where
  files : List String := []
  config : Option String := none
  capacity : Option Nat := none
  verbose : Bool := false
  deriving DecidableEq, Repr

/-- What a command line asks for. -/
inductive Invocation where
  | render (options : RenderOptions)
  | sanitize (file : Option String)
  deriving DecidableEq, Repr

/-- What help is about. -/
inductive Topic where
  | program
  | render
  | sanitize
  | help
  deriving DecidableEq, Repr

/-- Why the reading of arguments ends before a command is clear. -/
inductive Halt where
  /-- The arguments make no sense. -/
  | misuse
  | help (topic : Topic)
  | version
  deriving DecidableEq, Repr

namespace Arguments

/-- An option that takes a value. -/
inductive ValueOption where
  | config
  | capacity
  deriving DecidableEq, Repr

/-- The arguments of a command so far. -/
structure Reading where
  options : RenderOptions := {}
  /-- The option whose value is still to come. -/
  pending : Option ValueOption := none
  /-- Whether every argument is a file from here on. -/
  onlyFiles : Bool := false

/-- A number of 64 bits; a plus sign may stand in front. -/
def natural? (s : String) : Option Nat :=
  let ds := match s.toList with
    | '+' :: rest => rest
    | s => s
  if ds ≠ [] ∧ ds.all Char.isDigit ∧ Text.numeral 10 ds < 1 <<< 64 then some (Text.numeral 10 ds)
  else none

/-- How an argument looks. -/
inductive Form where
  | twoHyphens
  /-- Two hyphens and a name, perhaps with a value after an equals sign. -/
  | long (name : List Char) (value : Option (List Char))
  /-- A hyphen and letters. -/
  | letters (cs : List Char)
  /-- Anything else, a lone hyphen among them. -/
  | plain
  deriving DecidableEq, Repr

/-- How an argument looks. -/
def form (arg : String) : Form :=
  match arg.toList with
  | ['-', '-'] => .twoHyphens
  | '-' :: '-' :: rest =>
    match Text.cut? '=' rest with
    | some (name, value) => .long name (some value)
    | none => .long rest none
  | '-' :: c :: cs => .letters (c :: cs)
  | _ => .plain

namespace Reading

/-- The reading after a file. A file has a name. -/
def file (r : Reading) (name : String) : Except Halt Reading :=
  if name = "" then .error .misuse
  else .ok { r with options := { r.options with files := r.options.files ++ [name] } }

/-- The reading after the value of an option. No option is given twice. -/
def value (r : Reading) (o : ValueOption) (v : String) : Except Halt Reading :=
  match o with
  | .config =>
    if r.options.config.isSome ∨ v = "" then .error .misuse
    else .ok { r with options := { r.options with config := some v }, pending := none }
  | .capacity =>
    match r.options.capacity, natural? v with
    | none, some n =>
      .ok { r with options := { r.options with capacity := some n }, pending := none }
    | _, _ => .error .misuse

/-- The reading after an option whose value may follow. -/
def option (r : Reading) (o : ValueOption) (v : Option (List Char)) : Except Halt Reading :=
  match v with
  | some v => r.value o (String.ofList v)
  | none => .ok { r with pending := some o }

/-- The reading after the request for more output, which is made once. -/
def verbose (r : Reading) : Except Halt Reading :=
  if r.options.verbose then .error .misuse
  else .ok { r with options := { r.options with verbose := true } }

/-- The reading after letters that follow one hyphen. A letter that takes a value takes the rest,
without an equals sign at its start. -/
def letters (r : Reading) : List Char → Except Halt Reading
  | [] => .ok r
  | 'h' :: _ => .error (.help .render)
  | 'v' :: rest => do letters (← r.verbose) rest
  | ['c'] => r.option .config none
  | 'c' :: '=' :: rest => r.option .config (some rest)
  | 'c' :: rest => r.option .config (some rest)
  | _ => .error .misuse

/-- The reading after a long option. -/
def long (r : Reading) (name : List Char) (v : Option (List Char)) : Except Halt Reading :=
  match String.ofList name, v with
  | "config", v => r.option .config v
  | "cache-capacity", v => r.option .capacity v
  | "verbose", none => r.verbose
  | "help", none => .error (.help .render)
  | _, _ => .error .misuse

/-- The reading after one more argument of `render`. -/
def next (r : Reading) (arg : String) : Except Halt Reading :=
  if r.onlyFiles then r.file arg
  else match form arg, r.pending with
    | .plain, none => r.file arg
    | .plain, some o => r.value o arg
    | _, some _ => .error .misuse
    | .twoHyphens, none => .ok { r with onlyFiles := true }
    | .long name v, none => r.long name v
    | .letters cs, none => r.letters cs

/-- What the arguments of `render` ask for, once all are read. -/
def finish (r : Reading) : Except Halt RenderOptions :=
  if r.pending.isSome then .error .misuse else .ok r.options

end Reading

/-- What the arguments of `render` ask for. -/
def render (args : List String) : Except Halt RenderOptions := do
  (← args.foldlM Reading.next {}).finish

/-- The arguments of `sanitize` so far: its file, and whether only a file may come. -/
def sanitizeNext (r : Option String × Bool) (arg : String) : Except Halt (Option String × Bool) :=
  let file : Except Halt (Option String × Bool) :=
    if r.1.isSome ∨ arg = "" then .error .misuse else .ok (some arg, r.2)
  if r.2 then file
  else match form arg with
    | .plain => file
    | .twoHyphens => .ok (r.1, true)
    | .long ['h', 'e', 'l', 'p'] none => .error (.help .sanitize)
    | .letters ('h' :: _) => .error (.help .sanitize)
    | _ => .error .misuse

/-- What the arguments of `sanitize` ask for. -/
def sanitize (args : List String) : Except Halt (Option String) :=
  (args.foldlM sanitizeNext (none, false)).map Prod.fst

/-- What a request for help is about. -/
def help (args : List String) : Halt :=
  match args with
  | [] => .help .program
  | ["render"] => .help .render
  | ["sanitize"] => .help .sanitize
  | ["help"] => .help .help
  | _ => .misuse

/-- What arguments ask for. -/
def parse : List String → Except Halt Invocation
  | "render" :: args => (render args).map .render
  | "sanitize" :: args => (sanitize args).map .sanitize
  | "help" :: args => .error (help args)
  | arg :: _ =>
    match form arg with
    | .long ['h', 'e', 'l', 'p'] none | .letters ('h' :: _) => .error (.help .program)
    | .long ['v', 'e', 'r', 's', 'i', 'o', 'n'] none | .letters ('V' :: _) => .error .version
    | _ => .error .misuse
  | [] => .error .misuse

end Arguments

end DocMarkup
