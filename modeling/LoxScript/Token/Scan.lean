import LoxScript.Diagnostic
import LoxScript.Text.Line
import LoxScript.Token.Piece

/-!
# Scanning

The tokens of a script, and the lexical errors in it, are read off its pieces. Each gets the line that
its piece ends on. The tokens are followed by one that stands for the end of the script.

## Main definitions

* `LexicalError`, with its diagnostic.
* `Scan.ofPieces`, `Scan.ofSource`: the tokens and the errors, both in the order of the script.
* `Scan.tokens?`: the tokens, unless there is an error.
-/

namespace LoxScript

/-- What may be wrong with a character of a script. -/
inductive LexicalError.Problem where
  /-- It begins no token. -/
  | unexpectedCharacter
  /-- It opens a string that is never closed. -/
  | unterminatedString
deriving DecidableEq, Repr

/-- The message for a lexical problem. -/
def LexicalError.Problem.message : LexicalError.Problem → String
  | .unexpectedCharacter => "Unexpected character."
  | .unterminatedString => "Unterminated string."

/-- A lexical problem and its line. -/
structure LexicalError where
  /-- What is wrong. -/
  problem : LexicalError.Problem
  /-- The line of the end of the faulty piece. -/
  line : Nat
deriving DecidableEq, Repr

/-- A lexical error names no place besides its line. -/
def LexicalError.diagnostic (e : LexicalError) : Diagnostic :=
  ⟨e.line, .unstated, e.problem.message⟩

/-- What a script consists of, blanks and comments left out. -/
structure Scan where
  /-- The tokens, the last of which is the end of the script. -/
  tokens : List Token
  /-- The errors. -/
  errors : List LexicalError
deriving DecidableEq, Repr

namespace Scan

/-- Puts a piece that ends on `line` in front. -/
def prepend (line : Nat) (s : Scan) : Piece → Scan
  | .blank _ | .comment _ => s
  | .token kind lexeme => { s with tokens := ⟨kind, String.ofList lexeme, line⟩ :: s.tokens }
  | .unexpected _ => { s with errors := ⟨.unexpectedCharacter, line⟩ :: s.errors }
  | .unterminated _ => { s with errors := ⟨.unterminatedString, line⟩ :: s.errors }

/-- Scans the pieces that follow a place on `line`. -/
def ofPieces (line : Nat) : List Piece → Scan
  | [] => ⟨[Token.ending line], []⟩
  | piece :: pieces =>
    -- the line feeds of a string count before its own line is noted
    let line := line + Text.newlines piece.text
    (ofPieces line pieces).prepend line piece

/-- Scans a script. -/
def ofSource (A : Arithmetic) (source : String) : Scan :=
  ofPieces 1 (Piece.split A source.toList)

/-- The tokens of a scan without errors. -/
def tokens? (s : Scan) : Except (List LexicalError) (List Token) :=
  if s.errors.isEmpty then .ok s.tokens else .error s.errors

end Scan

end LoxScript
