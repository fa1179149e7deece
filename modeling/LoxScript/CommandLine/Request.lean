/-!
# Requests

What the arguments of the command ask for: help, a session, or a script to run. Arguments are read from
left to right. An argument that begins with a dash is an option, unless it is the dash alone or stands
behind the first `--`. Anything else names the script, and there can be only one.

## Main definitions

* `Request`, `Request.ofArguments`.
-/

namespace LoxScript.CommandLine

/-- What the command is asked to do. -/
inductive Request where
  /-- To say how it is used. -/
  | help
  /-- Nothing that it can do. -/
  | misuse
  /-- To run lines as they are entered. -/
  | session
  /-- To run a file. -/
  | script (path : String)
deriving DecidableEq, Repr

namespace Request

/-- Whether an argument is an option. -/
def isOption (argument : String) : Bool := argument.startsWith "-" && argument != "-"

/-- Whether an option asks for help. In a group of short options the first one counts. -/
def asksForHelp (option : String) : Bool := option = "--help" || option.startsWith "-h"

/-- Reads the arguments behind those already read. `literal` says whether options have ended, and
`path?` is the script named so far. An empty name is found out when reading stops. -/
def ofRemaining : (literal : Bool) → (path? : Option String) → List String → Request
  | _, none, [] => .session
  | _, some path, [] => if path.isEmpty then .misuse else .script path
  | literal, path?, argument :: others =>
    if isOption argument && !literal then
      if argument = "--" then ofRemaining true path? others
      else if asksForHelp argument && path? != some "" then .help
      else .misuse
    else if path?.isSome then .misuse
    else ofRemaining literal (some argument) others

/-- What the arguments ask for. -/
def ofArguments (arguments : List String) : Request := ofRemaining false none arguments

end Request

end LoxScript.CommandLine
