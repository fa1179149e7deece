import LoxScript.Number.Arithmetic
import LoxScript.Token.Basic

/-!
# Pieces of a script

A script is cut into pieces from the front, each as long as it can be: a blank, a comment, the lexeme
of a token, a character that begins nothing, or a string that is never closed. Nothing is dropped, so
the pieces in order are the script.

The classes of characters are ASCII: a letter of another alphabet begins nothing outside a string or a
comment.

## Main definitions

* `Piece`, with `Piece.text`.
* `Piece.first`: the first piece of a text that is not empty, and the text after it.
* `Piece.split`: all pieces of a text.

## Main statements

* `Piece.text_first`: the first piece and the text behind it are the text that was cut.
-/

namespace LoxScript

/-- A part of a script that is recognized as a whole. -/
inductive Piece where
  /-- A space, a tab, a carriage return or a line feed. -/
  | blank (char : Char)
  /-- Two slashes and what follows them on the line. -/
  | comment (text : List Char)
  /-- A token. -/
  | token (kind : Token.Kind) (lexeme : List Char)
  /-- A character that begins no token. -/
  | unexpected (char : Char)
  /-- A quote without a second one, and everything behind it. -/
  | unterminated (text : List Char)
deriving DecidableEq, Repr

namespace Piece

/-- The characters of a piece. -/
def text : Piece → List Char
  | .blank char => [char]
  | .comment text => text
  | .token _ lexeme => lexeme
  | .unexpected char => [char]
  | .unterminated text => text

/-- The characters between tokens. -/
def isBlank (c : Char) : Bool := c = ' ' || c = '\t' || c = '\r' || c = '\n'

/-- The characters that a name may begin with. -/
def isNameStart (c : Char) : Bool := c.isAlpha || c = '_'

/-- The characters that a name may go on with. -/
def isNamePart (c : Char) : Bool := c.isAlphanum || c = '_'

/-- The tokens of one character. -/
def symbol? : Char → Option Token.Kind
  | '(' => some .leftParen
  | ')' => some .rightParen
  | '{' => some .leftBrace
  | '}' => some .rightBrace
  | ',' => some .comma
  | '.' => some .dot
  | '-' => some .minus
  | '+' => some .plus
  | ';' => some .semicolon
  | '/' => some .slash
  | '*' => some .star
  | '!' => some .bang
  | '=' => some .equal
  | '>' => some .greater
  | '<' => some .less
  | _ => none

/-- The tokens of a character and an equals sign. -/
def symbolWithEqual? : Char → Option Token.Kind
  | '!' => some .bangEqual
  | '=' => some .equalEqual
  | '>' => some .greaterEqual
  | '<' => some .lessEqual
  | _ => none

/-- The kind of a name: a reserved word if it has the spelling of one. -/
def nameKind (name : List Char) : Token.Kind :=
  match Keyword.ofSpelling? (String.ofList name) with
  | some word => .keyword word
  | none => .identifier

/-- A string, from behind its opening quote to its closing one. -/
def quoted (rest : List Char) : Piece × List Char :=
  let content := rest.takeWhile (· != '"')
  -- no character but a quote ends a string, not even a line feed
  match rest.dropWhile (· != '"') with
  | [] => (.unterminated ('"' :: content), [])
  | quote :: rest => (.token (.string (String.ofList content)) ('"' :: content ++ [quote]), rest)

/-- A number: digits, and a point with more digits if a digit follows the point. -/
def numeral (A : Arithmetic) (text : List Char) : Piece × List Char :=
  let whole := text.takeWhile Char.isDigit
  let (lexeme, rest) :=
    match text.dropWhile Char.isDigit with
    | '.' :: digit :: rest =>
      if digit.isDigit then
        (whole ++ '.' :: digit :: rest.takeWhile Char.isDigit, rest.dropWhile Char.isDigit)
      else (whole, '.' :: digit :: rest)
    | rest => (whole, rest)
  (.token (.number (A.ofDecimal (Decimal.ofLiteral lexeme))) lexeme, rest)

/-- A name or a reserved word. -/
def name (text : List Char) : Piece × List Char :=
  let lexeme := text.takeWhile isNamePart
  (.token (nameKind lexeme) lexeme, text.dropWhile isNamePart)

/-- A comment, which ends before the next line feed. -/
def remark (text : List Char) : Piece × List Char :=
  (.comment (text.takeWhile (· != '\n')), text.dropWhile (· != '\n'))

/-- An operator or a punctuation mark, the longer one if both fit, or a character that is neither. -/
def symbol (c : Char) (rest : List Char) : Piece × List Char :=
  let single :=
    match symbol? c with
    | some kind => (.token kind [c], rest)
    | none => (.unexpected c, rest)
  match rest with
  | '=' :: rest =>
    match symbolWithEqual? c with
    | some kind => (.token kind [c, '='], rest)
    | none => single
  | _ => single

/-- The first piece of the text `c :: rest`, and the text behind it. -/
def first (A : Arithmetic) (c : Char) (rest : List Char) : Piece × List Char :=
  -- only a slash begins two sorts of pieces, so the comment is tried before the symbol
  if isBlank c then (.blank c, rest)
  else if c = '"' then quoted rest
  else if c = '/' && rest.head? = some '/' then remark (c :: rest)
  else if c.isDigit then numeral A (c :: rest)
  else if isNameStart c then name (c :: rest)
  else symbol c rest

/-- A string and what follows it are the text from its opening quote on. -/
theorem text_quoted (rest : List Char) :
    (quoted rest).1.text ++ (quoted rest).2 = '"' :: rest := by
  have split := List.takeWhile_append_dropWhile (p := (· != '"')) (l := rest)
  unfold quoted
  cases h : rest.dropWhile (· != '"') with
  | nil => simpa [h, text] using split
  | cons quote tail => simpa [h, text] using split

/-- A number and what follows it are the text. -/
theorem text_numeral (A : Arithmetic) (source : List Char) :
    (numeral A source).1.text ++ (numeral A source).2 = source := by
  have split := List.takeWhile_append_dropWhile (p := Char.isDigit) (l := source)
  unfold numeral
  cases h : source.dropWhile Char.isDigit with
  | nil => simpa [h, text] using split
  | cons point tail =>
    rw [h] at split
    cases tail with
    | nil => by_cases hp : point = '.' <;> simpa [hp, text] using split
    | cons digit tail =>
      by_cases hp : point = '.'
      -- a point belongs to the number only if a digit follows it
      · subst hp
        by_cases hd : digit.isDigit <;> simpa [hd, text] using split
      · simpa [hp, text] using split

/-- A name and what follows it are the text. -/
theorem text_name (source : List Char) : (name source).1.text ++ (name source).2 = source :=
  List.takeWhile_append_dropWhile

/-- A comment and what follows it are the text. -/
theorem text_remark (source : List Char) : (remark source).1.text ++ (remark source).2 = source :=
  List.takeWhile_append_dropWhile

/-- A symbol, or a character that is none, and what follows it are the text. -/
theorem text_symbol (c : Char) (rest : List Char) :
    (symbol c rest).1.text ++ (symbol c rest).2 = c :: rest := by
  unfold symbol
  cases symbol? c <;> cases symbolWithEqual? c <;> cases rest with
  | nil => rfl
  | cons d rest => by_cases h : d = '=' <;> simp [h, text]

/-- The first piece and what follows it are the text. -/
theorem text_first (A : Arithmetic) (c : Char) (rest : List Char) :
    (first A c rest).1.text ++ (first A c rest).2 = c :: rest := by
  unfold first
  split
  · rfl
  split
  · next h => rw [text_quoted, h]
  split
  · exact text_remark _
  split
  · exact text_numeral A _
  split
  · exact text_name _
  · exact text_symbol c rest

/-- The pieces of a text of at most `bound` characters. A piece is never empty, so as many pieces as
there are characters are enough. -/
def splitWithin (A : Arithmetic) : (bound : Nat) → (text : List Char) → List Piece
  | 0, _ => []
  | _ + 1, [] => []
  | bound + 1, c :: rest =>
    let (piece, rest) := first A c rest
    piece :: splitWithin A bound rest

/-- The pieces of a text, in order. -/
def split (A : Arithmetic) (text : List Char) : List Piece := splitWithin A text.length text

end Piece

end LoxScript
