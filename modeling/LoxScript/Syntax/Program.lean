import LoxScript.Syntax.StmtParser
import LoxScript.Token.Scan

/-!
# Programs

A program is a list of statements. It is read declaration by declaration. After an error that stops
reading, tokens are skipped up to a place where a statement may begin, and reading resumes there as at
the top of a script. If there was any error there is no program, only the list of all errors.

## Main definitions

* `Parser.resume`: where reading goes on after an error.
* `Program.ofTokens`, `Program.ofSource`: the program, or why there is none.
* `Rejection`: the lexical errors of a script and its syntax errors.
-/

namespace LoxScript

namespace Parser

/-- The kinds of token that a statement begins with, as far as the token alone tells. -/
def startsStatement (kind : Token.Kind) : Bool :=
  kind = .keyword .class || kind = .keyword .fun || kind = .keyword .var || kind = .keyword .for ||
    kind = .keyword .if || kind = .keyword .while || kind = .keyword .print ||
    kind = .keyword .return

/-- The tokens from the first that begins a statement, or from behind the first semicolon before it. -/
def nextStatement : List Token → List Token
  | [] => []
  | t :: ts =>
    if startsStatement t.kind then t :: ts
    else if t.kind = .semicolon then ts
    else nextStatement ts

/-- The tokens to go on with after an error at the first of these. That one is skipped in any case. -/
def resume : List Token → List Token
  | [] => []
  | t :: ts => if t.kind = .semicolon then ts else nextStatement ts

/-- Everything that was read: the trees, and the errors in the order in which they were found. -/
structure Reading where
  /-- The statements read. -/
  program : List Stmt
  /-- The errors found. -/
  errors : List SyntaxError

/-- Reads at most `bound` tokens. Each turn passes at least one. -/
def readWithin (ending : Token) : (bound : Nat) → (ts : List Token) → Reading
  | 0, _ => ⟨[], []⟩
  | _ + 1, [] => ⟨[], []⟩
  | bound + 1, ts =>
    -- each turn begins outside all functions, also after an error in the body of one
    match declaration ts.length ⟨ending, false⟩ ts with
    | ⟨reports, rest, .ok statement⟩ =>
      let others := readWithin ending bound rest
      ⟨statement :: others.program, reports ++ others.errors⟩
    | ⟨reports, rest, .error e⟩ =>
      let others := readWithin ending bound (resume rest)
      ⟨others.program, reports ++ e :: others.errors⟩

/-- Reads all tokens of a script. -/
def read (ending : Token) (ts : List Token) : Reading := readWithin ending ts.length ts

end Parser

/-- The tokens before the end of the script. -/
def Token.content (ts : List Token) : List Token := ts.takeWhile (·.kind ≠ .endOfInput)

/-- The token for the end of the script: the first of its kind, or else one on the line of the last
token, which is the first line if there is no token. -/
def Token.endingOf (ts : List Token) : Token :=
  (ts.find? (·.kind = .endOfInput)).getD (Token.ending (ts.getLast?.elim 1 (·.line)))

/-- The statements of a script. -/
abbrev Program : Type := List Stmt

/-- Why a script is no program. -/
structure Rejection where
  /-- The errors in its characters. -/
  lexical : List LexicalError
  /-- The errors in its tokens. -/
  syntactic : List SyntaxError
deriving DecidableEq, Repr

/-- All errors of a script, those in its characters first. -/
def Rejection.diagnostics (r : Rejection) : List Diagnostic :=
  r.lexical.map (·.diagnostic) ++ r.syntactic.map (·.diagnostic)

namespace Program

/-- The program that a list of tokens stands for, up to the first token for the end of the script. -/
def ofTokens (ts : List Token) : Except (List SyntaxError) Program :=
  let reading := Parser.read (Token.endingOf ts) (Token.content ts)
  if reading.errors.isEmpty then .ok reading.program else .error reading.errors

/-- The program of a script. The tokens are read even if there are errors in the characters. -/
def ofSource (A : Arithmetic) (source : String) : Except Rejection Program :=
  let scan := Scan.ofSource A source
  match scan.errors, ofTokens scan.tokens with
  -- an error in the characters rejects the script even where its other tokens are a program
  | [], .ok program => .ok program
  | lexical, .ok _ => .error ⟨lexical, []⟩
  | lexical, .error syntactic => .error ⟨lexical, syntactic⟩

end Program

end LoxScript
