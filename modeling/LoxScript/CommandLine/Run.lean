import LoxScript.CommandLine.Directory
import LoxScript.CommandLine.Request
import LoxScript.Evaluation.Run

/-!
# Runs of the command

A file is run as one script in a session of its own. In a session at the prompt each line is a script,
all in one session, and goes on whatever went wrong in the lines before. The exit code tells the kinds
of failure apart.

## Main definitions

* `Outcome`: the exit code and the text on both outputs.
* `Prompt.answer`: one line at the prompt. `Prompt.run`: all of them.
* `runScript`, `run`: a file, and whatever the arguments ask for.
-/

namespace LoxScript.CommandLine

/-- What is left of a run of the command. -/
structure Outcome where
  /-- The exit code. -/
  code : Nat
  /-- The text on standard output. -/
  stdout : String
  /-- The text on standard error. -/
  stderr : String
deriving DecidableEq, Repr

namespace Exit

/-- All went well. -/
def success : Nat := 0

/-- The arguments were wrong. -/
def usage : Nat := 64

/-- The script was no program. -/
def badScript : Nat := 65

/-- The program went wrong. -/
def badRun : Nat := 70

/-- A file could not be read, or output could not be written. -/
def badFile : Nat := 74

/-- The exit code for a failure. -/
def ofFailure : Failure → Nat
  | .rejected _ => badScript
  | .stopped (.outputRefused _) => badFile
  | .stopped _ => badRun

end Exit

/-- What running depends on besides scripts: arithmetic, the clock, and a bound on the depth of
evaluation. -/
structure Machine where
  /-- The operations on numbers. -/
  arithmetic : Arithmetic
  /-- What shows the time. -/
  clock : Clock
  /-- The bound on the depth. -/
  bound : Nat

/-- A session to run scripts of the command in. -/
def Machine.session (m : Machine) : Session := Session.start m.clock .unlimited

/-- Runs a script in a session. The answer is the output of this run and the failure, if there is one;
the output is not kept in the session. -/
def Machine.run (m : Machine) (source : String) (s : Session) :
    String × Option Failure × Session :=
  match Session.runSource m.arithmetic m.bound source { s with output := "" } with
  | (.ok _, s) => (s.output.text, none, s)
  | (.error failure, s) => (s.output.text, some failure, s)

/-- A complaint is a text on a line of its own. -/
def complaint (text : String) : String := text ++ "\n"

/-- Runs a file. -/
def runScript (m : Machine) (path : String) (content : Except Fault ByteArray) : Outcome :=
  match content >>= decode with
  | .error fault => ⟨Exit.badFile, "", complaint s!"Could not read '{path}': {fault.text}"⟩
  | .ok source =>
    match m.run source m.session with
    | (output, none, _) => ⟨Exit.success, output, ""⟩
    | (output, some failure, _) => ⟨Exit.ofFailure failure, output, complaint failure.text⟩

/-- The lines of a text, each with its line feed. -/
def linesFrom (line : List Char) : List Char → List String
  | [] => if line.isEmpty then [] else [String.ofList line.reverse]
  | '\n' :: text => String.ofList ('\n' :: line).reverse :: linesFrom [] text
  | c :: text => linesFrom (c :: line) text

/-- The lines entered at the prompt. -/
structure Entered where
  /-- The lines up to the end, or up to one that is not text. -/
  lines : List String
  /-- Whether there is one that is not text. -/
  broken : Bool

namespace Entered

/-- The lines of a text. -/
def ofText (text : String) : Entered := ⟨linesFrom [] text.toList, false⟩

/-- The lines of a list of bytes, each with its line feed. -/
def byteLines (line : List UInt8) : List UInt8 → List (List UInt8)
  | [] => if line.isEmpty then [] else [line.reverse]
  | byte :: bytes =>
    if byte = 10 then (byte :: line).reverse :: byteLines [] bytes
    else byteLines (byte :: line) bytes

/-- Decodes lines up to the first that is not text. -/
def ofByteLines : List (List UInt8) → Entered
  | [] => ⟨[], false⟩
  | line :: others =>
    match decode ⟨line.toArray⟩ with
    | .error _ => ⟨[], true⟩
    | .ok text => { ofByteLines others with lines := text :: (ofByteLines others).lines }

/-- The lines that bytes encode. -/
def ofBytes (bytes : ByteArray) : Entered := ofByteLines (byteLines [] bytes.toList)

end Entered

namespace Prompt

/-- What is shown before a line is read. -/
def invitation : String := "> "

/-- Runs one line. The answer is its output and its complaint. -/
def answer (m : Machine) (line : String) (s : Session) : String × String × Session :=
  let (output, failure?, s) := m.run line s
  (output, failure?.elim "" (complaint ·.text), s)

/-- Runs lines in a session, one after the other. At the end of the input a line feed is shown. -/
def runLines (m : Machine) (broken : Bool) : List String → Session → Outcome
  | [], _ =>
    if broken then ⟨Exit.badFile, invitation, complaint Fault.notText.text⟩
    else ⟨Exit.success, invitation ++ "\n", ""⟩
  | line :: lines, s =>
    -- the session goes on in the state the line left, also after a failure
    let (output, complaint, s) := answer m line s
    let rest := runLines m broken lines s
    ⟨rest.code, invitation ++ output ++ rest.stdout, complaint ++ rest.stderr⟩

/-- Runs the lines entered. -/
def run (m : Machine) (entered : Entered) : Outcome :=
  runLines m entered.broken entered.lines m.session

end Prompt

/-- What the command says of itself and of its argument, to those who ask and to those who misuse it. -/
def usageText : String :=
  "Tree-walking interpreter for the krios scripting language\n\n" ++
  "[FILE]  Script to run. Starts an interactive prompt if omitted.\n"

/-- Runs the command in a directory. -/
def run (m : Machine) (arguments : List String) (directory : Directory) (entered : Entered) :
    Outcome :=
  match Request.ofArguments arguments with
  | .help => ⟨Exit.success, usageText, ""⟩
  | .misuse => ⟨Exit.usage, "", usageText⟩
  | .session => Prompt.run m entered
  | .script path => runScript m path (directory.read path)

end LoxScript.CommandLine
