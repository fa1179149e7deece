import LoxScript.Syntax.Error

/-!
# Parsers of tokens

A parser reads a beginning of the tokens ahead. It answers with the errors it reports on the way, the
tokens it leaves, and a value or the error that stopped it. The token for the end of the script is not
among the tokens ahead; it is what a parser sees when there are none left.

## Main definitions

* `Parser`, `Reply`, and the monad on them: reports add up, and the first error that stops a part
  stops the whole.
* `Parser.peek`, `Parser.take?`, `Parser.expect`: looking at the next token and passing it.
* `Parser.report`, `Parser.fail`: errors that do not stop reading, and errors that do.
-/

namespace LoxScript

/-- What a parser knows besides the tokens ahead. -/
structure Parser.Context where
  /-- The token seen behind the last one. -/
  ending : Token
  /-- Whether a function body is being read. -/
  inFunction : Bool

/-- What a parser answers. -/
structure Parser.Reply (α : Type) where
  /-- The errors reported while reading went on. -/
  reports : List SyntaxError
  /-- The tokens that are left. -/
  rest : List Token
  /-- The tree that was read, or the error that stopped reading. -/
  outcome : Except SyntaxError α

/-- A reader of some beginning of the tokens ahead. -/
def Parser (α : Type) : Type := Parser.Context → List Token → Parser.Reply α

namespace Parser

variable {α β : Type}

/-- Reads nothing. -/
protected def pure (a : α) : Parser α := fun _ ts => ⟨[], ts, .ok a⟩

/-- Reads on after a value was read. -/
protected def bind (p : Parser α) (next : α → Parser β) : Parser β := fun ctx ts =>
  match p ctx ts with
  | ⟨reports, rest, .error e⟩ => ⟨reports, rest, .error e⟩
  | ⟨reports, rest, .ok a⟩ =>
    let reply := next a ctx rest
    ⟨reports ++ reply.reports, reply.rest, reply.outcome⟩

instance : Monad Parser where
  pure := Parser.pure
  bind := Parser.bind

/-- The next token. -/
def peek : Parser Token := fun ctx ts => ⟨[], ts, .ok (ts.head?.getD ctx.ending)⟩

/-- Passes the next token. At the end nothing is passed. -/
def skip : Parser Unit := fun _ ts => ⟨[], ts.drop 1, .ok ()⟩

/-- Passes the next token if its kind is accepted. -/
def take? (accepts : Token.Kind → Bool) : Parser (Option Token) := fun _ ts =>
  match ts with
  | [] => ⟨[], [], .ok none⟩
  | t :: rest => if accepts t.kind then ⟨[], rest, .ok (some t)⟩ else ⟨[], t :: rest, .ok none⟩

/-- Reports a problem with a token and goes on. -/
def report (problem : SyntaxError.Problem) (t : Token) : Parser Unit := fun _ ts =>
  ⟨[⟨problem, t⟩], ts, .ok ()⟩

/-- Stops, because the next token is not what should stand there. -/
def fail (what : Expectation) : Parser α := fun ctx ts =>
  ⟨[], ts, .error ⟨.expected what, ts.head?.getD ctx.ending⟩⟩

/-- Passes a token of the given kind, which must be the next one. -/
def expect (kind : Token.Kind) (what : Expectation) : Parser Token := do
  match ← take? (· = kind) with
  | some t => pure t
  | none => fail what

/-- Whether a function body is being read. -/
def inFunction : Parser Bool := fun ctx ts => ⟨[], ts, .ok ctx.inFunction⟩

/-- Reads as in the body of a function. -/
def insideFunction (p : Parser α) : Parser α := fun ctx ts => p { ctx with inFunction := true } ts

end Parser

end LoxScript
