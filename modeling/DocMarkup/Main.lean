import DocMarkup.CommandLine.Program
import DocMarkup.FileTree

/-!
# The command line

The system's files as the surroundings of the program, and its outcome as output.
-/

namespace DocMarkup

/-- Why the system cannot read a file. Some of its calls give the codes of errors with a minus
sign. -/
def FileError.ofSystem (e : IO.Error) : FileError :=
  let coded (code : UInt32) (details : String) : FileError :=
    let code := if code < 0x80000000 then code else 0 - code
    if code = 20 then .notDirectory
    else if code = 21 then .isDirectory
    else .other s!"{details} (os error {code})"
  match e with
  | .noFileOrDirectory .. => .missing
  | .inappropriateType _ code details => coded code details
  | .permissionDenied _ code details => coded code details
  | .invalidArgument _ code details => coded code details
  | e => .other (toString e)

/-- The text of bytes. -/
def textOfBytes (bytes : ByteArray) : Except FileError String :=
  match String.fromUTF8? bytes with
  | some text => .ok text
  | none => .error (.other "stream did not contain valid UTF-8")

/-- The text of the bytes that an action gives, its failure among the results. -/
def attempt (action : IO ByteArray) : IO (Except FileError String) :=
  try return textOfBytes (← action) catch e => return .error (.ofSystem e)

/-- All bytes of a stream, after those that were read before. -/
partial def readAll (stream : IO.FS.Stream) (before : ByteArray) : IO ByteArray := do
  let chunk ← stream.read 65536
  if chunk.isEmpty then return before else readAll stream (before ++ chunk)

/-- The system as the surroundings of the program. -/
def systemHost : Host IO where
  readFile path := attempt (IO.FS.readBinFile path)
  readInput := attempt do readAll (← IO.getStdin) .empty
  environment name := IO.getEnv name
  directories := do
    let names := (Text.split '/' (← IO.currentDir).toString.toList).map String.ofList
    return FileTree.upwards (names.filter (· ≠ "")).reverse

end DocMarkup

/-- Runs the program: markup goes to standard output, and what it says to standard error. -/
def main (args : List String) : IO UInt32 := do
  let outcome ← DocMarkup.Program.run DocMarkup.systemHost args
  outcome.lines.forM IO.println
  outcome.status.forM IO.eprintln
  return outcome.code.toUInt32
