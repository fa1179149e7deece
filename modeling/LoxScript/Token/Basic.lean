import LoxScript.Number.Basic

/-!
# Tokens

A token has a kind, which decides how it is read, a lexeme, which is its text in the script, and the
line on which that text ends. Literals carry their value in the kind, so that reading never looks at a
lexeme; only messages and names do.

## Main definitions

* `Keyword`, with `Keyword.spelling` and `Keyword.ofSpelling?`.
* `Token.Kind`, `Token`.
-/

namespace LoxScript

/-- The reserved words. -/
inductive Keyword where
  | and | «class» | else | false | fun | for | if | nil | or | print | return | super | this | true
  | var | while
deriving DecidableEq, Repr

namespace Keyword

/-- The reserved words in alphabetical order, except that `fun` precedes `for`. -/
def all : List Keyword :=
  [.and, .class, .else, .false, .fun, .for, .if, .nil, .or, .print, .return, .super, .this, .true,
    .var, .while]

/-- How a reserved word is spelled. -/
def spelling : Keyword → String
  | .and => "and"
  | .class => "class"
  | .else => "else"
  | .false => "false"
  | .fun => "fun"
  | .for => "for"
  | .if => "if"
  | .nil => "nil"
  | .or => "or"
  | .print => "print"
  | .return => "return"
  | .super => "super"
  | .this => "this"
  | .true => "true"
  | .var => "var"
  | .while => "while"

/-- The reserved word that has exactly this spelling. -/
def ofSpelling? (text : String) : Option Keyword := all.find? (·.spelling = text)

end Keyword

/-- What a token is, with the value of a literal. -/
inductive Token.Kind where
  | leftParen | rightParen | leftBrace | rightBrace | comma | dot | minus | plus | semicolon
  | slash | star
  | bang | bangEqual | equal | equalEqual | greater | greaterEqual | less | lessEqual
  | identifier
  | string (text : String)
  | number (value : Number)
  | keyword (word : Keyword)
  /-- The end of the script. -/
  | endOfInput
deriving DecidableEq, Repr

/-- A piece of a script that counts. -/
structure Token where
  /-- What it is. -/
  kind : Token.Kind
  /-- Its text. -/
  lexeme : String
  /-- The line of its last character. -/
  line : Nat
deriving DecidableEq, Repr

/-- The token behind the last one, on the last line. -/
def Token.ending (line : Nat) : Token := ⟨.endOfInput, "", line⟩

end LoxScript
