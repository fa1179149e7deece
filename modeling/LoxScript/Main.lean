import LoxScript.CommandLine.Run
import Std.Time.DateTime.Timestamp

/-!
# The command

Reads the arguments, the file or the lines entered, and the clock; everything else is decided by
`LoxScript.CommandLine.Run`.
-/

namespace LoxScript.Main

open LoxScript.CommandLine

/-- Deeper than any evaluation that a machine can hold. -/
def bound : Nat := Nat.pow 10 15

/-- A machine whose clock stands at the present time. -/
def machine : IO Machine := do
  let now ← Std.Time.Timestamp.now
  return ⟨.binary64, .sinceEpoch .binary64 now.toNanosecondsSinceUnixEpoch.val, bound⟩

/-- The number of a system error, which some calls give negated. -/
def errorNumber (code : UInt32) : Nat := (min code (0 - code)).toNat

/-- What the system says about a file that cannot be read. -/
def fault : IO.Error → Fault
  | .noFileOrDirectory _ code reason => .ofSystem (errorNumber code) reason
  | .inappropriateType _ code reason => .ofSystem (errorNumber code) reason
  | .invalidArgument _ code reason => .ofSystem (errorNumber code) reason
  | .permissionDenied _ code reason => .ofSystem (errorNumber code) reason
  | error => .other error.toString

/-- The bytes of a file. -/
def readFile (path : String) : IO (Except Fault ByteArray) := do
  try return .ok (← IO.FS.readBinFile path) catch error => return .error (fault error)

/-- Shows an outcome and gives its exit code. -/
def report (outcome : Outcome) : IO UInt32 := do
  IO.print outcome.stdout
  IO.eprint outcome.stderr
  return outcome.code.toUInt32

/-- The bytes of the next line with its line feed, or none at the end. -/
partial def readLine (input : IO.FS.Stream) (line : ByteArray) : IO ByteArray := do
  let next ← input.read 1
  if next.isEmpty then return line
  let line := line ++ next
  if next.data.contains 10 then return line else readLine input line

/-- Runs line after line as they are entered. -/
partial def converse (s : Session) : IO UInt32 := do
  IO.print Prompt.invitation
  (← IO.getStdout).flush
  let line ← readLine (← IO.getStdin) ByteArray.empty
  if line.isEmpty then
    IO.println ""
    return Exit.success.toUInt32
  match decode line with
  | .error fault =>
    IO.eprint (complaint fault.text)
    return Exit.badFile.toUInt32
  | .ok line =>
    let m ← machine
    let (output, complaint, s) := Prompt.answer m line { s with clock := m.clock }
    IO.print output
    IO.eprint complaint
    converse s

/-- Does what the arguments ask for. -/
def serve (arguments : List String) : IO UInt32 := do
  let m ← machine
  match Request.ofArguments arguments with
  | .session => converse m.session
  | .script path => report (runScript m path (← readFile path))
  | .help | .misuse => report (run m arguments ⟨[]⟩ ⟨[], false⟩)

end LoxScript.Main

/-- The command. -/
def main (arguments : List String) : IO UInt32 := LoxScript.Main.serve arguments
