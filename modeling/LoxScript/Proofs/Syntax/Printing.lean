import LoxScript.Proofs.Evaluation.Exact
import LoxScript.Proofs.Syntax.Alike
import LoxScript.Proofs.Syntax.Completion
import LoxScript.Proofs.Token.Spacing

/-!
# Printing programs

A tree is written in the surface syntax, each node with the tokens that the grammar asks for and a blank
between each two tokens. There are no parentheses but those of the groupings in the tree, and a `for`
loop is written as the blocks and the `while` loop that stand for it in the tree.

What is written of the tree of a text without faults is a text with the same tree. For expressions that
is so level by level. A statement may be written as one that dangles less: the block of a `for` loop ends
what would go on in front of an `else`. It never dangles more, so every `else` stays where it is.

## Main definitions

* `Expr.spelled`, `Stmt.spelled`: the tokens of a tree as it is written.
* `Expr.numbers`, `Stmt.numbers`: the number literals of a tree.
* `Program.render`: the text of a program.

## Main statements

* `Grammar.Phrase.spelled`, `Grammar.Statement.spelled`: what is written of a tree has that tree.
* `Program.ofSource_render`: reading what was written of a program gives the program, on other lines.
-/

namespace LoxScript

/-! ## Trees as they are written -/

namespace Token

/-- A reserved word. -/
def word (keyword : Keyword) : Token := ⟨.keyword keyword, keyword.spelling, 1⟩

/-- A comma. -/
def comma : Token := ⟨.comma, ",", 1⟩

/-- A semicolon. -/
def semicolon : Token := ⟨.semicolon, ";", 1⟩

/-- An equals sign. -/
def equals : Token := ⟨.equal, "=", 1⟩

/-- An opening parenthesis. -/
def openParen : Token := ⟨.leftParen, "(", 1⟩

/-- A closing parenthesis. -/
def closeParen : Token := ⟨.rightParen, ")", 1⟩

/-- An opening brace. -/
def openBrace : Token := ⟨.leftBrace, "\x7b", 1⟩

/-- A closing brace. -/
def closeBrace : Token := ⟨.rightBrace, "\x7d", 1⟩

end Token

namespace Literal

/-- The kind of the token that stands for the literal. -/
def kind : Literal → Token.Kind
  | .nil => .keyword .nil
  | .bool value => .keyword (if value then .true else .false)
  | .number value => .number value
  | .string text => .string text

/-- The literal as it is written. -/
def token (value : Literal) : Token := ⟨value.kind, value.text, 1⟩

/-- The number, if the literal is one. -/
def numbers : Literal → List Number
  | .number value => [value]
  | _ => []

end Literal

namespace Expr

mutual

/-- The tokens of an expression as it is written. -/
def spelled : Expr → List Token
  | .literal value => [value.token]
  | .grouping inner => Token.openParen :: (inner.spelled ++ [Token.closeParen])
  | .unary operator operand => operator :: operand.spelled
  | .binary operator left right | .logical operator left right =>
    left.spelled ++ operator :: right.spelled
  | .variable name => [name]
  | .assign name value => name :: Token.equals :: value.spelled
  | .call callee paren arguments =>
    callee.spelled ++ Token.openParen :: (spelledItems arguments ++ [paren])

/-- The tokens of expressions with commas between them. -/
def spelledItems : List Expr → List Token
  | [] => []
  | [e] => e.spelled
  | e :: es => e.spelled ++ Token.comma :: spelledItems es

end

mutual

/-- The number literals of an expression. -/
def numbers : Expr → List Number
  | .literal value => value.numbers
  | .grouping inner => inner.numbers
  | .unary _ operand => operand.numbers
  | .binary _ left right | .logical _ left right => left.numbers ++ right.numbers
  | .variable _ => []
  | .assign _ value => value.numbers
  | .call callee _ arguments => callee.numbers ++ numbersEach arguments

/-- The number literals of several expressions. -/
def numbersEach : List Expr → List Number
  | [] => []
  | e :: es => e.numbers ++ numbersEach es

end

end Expr

namespace Stmt

mutual

/-- The tokens of a statement as it is written. -/
def spelled : Stmt → List Token
  | .expression value => value.spelled ++ [Token.semicolon]
  | .print value => Token.word .print :: (value.spelled ++ [Token.semicolon])
  | .var name none => [Token.word .var, name, Token.semicolon]
  | .var name (some value) =>
    Token.word .var :: name :: Token.equals :: (value.spelled ++ [Token.semicolon])
  | .block body => Token.openBrace :: (spelledEach body ++ [Token.closeBrace])
  | .ifThen condition body =>
    Token.word .if :: Token.openParen :: (condition.spelled ++ Token.closeParen :: body.spelled)
  | .ifElse condition body otherwise =>
    Token.word .if :: Token.openParen ::
      (condition.spelled ++ Token.closeParen :: (body.spelled ++ Token.word .else :: otherwise.spelled))
  | .loop condition body =>
    Token.word .while :: Token.openParen :: (condition.spelled ++ Token.closeParen :: body.spelled)
  | .function name parameters body =>
    Token.word .fun :: name :: Token.openParen ::
      (parameters.intersperse Token.comma ++
        Token.closeParen :: Token.openBrace :: (spelledEach body ++ [Token.closeBrace]))
  | .result keyword none => [keyword, Token.semicolon]
  | .result keyword (some value) => keyword :: (value.spelled ++ [Token.semicolon])

/-- The tokens of statements in a row. -/
def spelledEach : List Stmt → List Token
  | [] => []
  | s :: ss => s.spelled ++ spelledEach ss

end

mutual

/-- The number literals of a statement. -/
def numbers : Stmt → List Number
  | .expression value | .print value => value.numbers
  | .var _ value | .result _ value => value.elim [] Expr.numbers
  | .block body | .function _ _ body => numbersEach body
  | .ifThen condition body | .loop condition body => condition.numbers ++ body.numbers
  | .ifElse condition body otherwise =>
    condition.numbers ++ (body.numbers ++ otherwise.numbers)

/-- The number literals of several statements. -/
def numbersEach : List Stmt → List Number
  | [] => []
  | s :: ss => s.numbers ++ numbersEach ss

end

end Stmt

/-- The text of a program, with one blank between each two tokens. -/
def Program.render (p : Program) : String := Token.spaced (Stmt.spelledEach p)

/-- The number literals of a program. -/
def Program.numbers (p : Program) : List Number := Stmt.numbersEach p

/-! ## Tokens that are written -/

/-- All of these are finite. -/
def Number.AllFinite (xs : List Number) : Prop := ∀ x ∈ xs, x.isFinite

theorem Number.allFinite_append {xs ys : List Number} :
    AllFinite (xs ++ ys) ↔ AllFinite xs ∧ AllFinite ys :=
  List.forall_mem_append

namespace Token

variable {A : Arithmetic}

/-- All of these are lexemes of their kinds. -/
def AllLexed (A : Arithmetic) (ts : List Token) : Prop := ∀ t ∈ ts, t.Lexed A

@[simp] theorem allLexed_nil : AllLexed A [] := List.forall_mem_nil _

@[simp] theorem allLexed_cons {t : Token} {ts : List Token} :
    AllLexed A (t :: ts) ↔ t.Lexed A ∧ AllLexed A ts :=
  List.forall_mem_cons

@[simp] theorem allLexed_append {ts us : List Token} :
    AllLexed A (ts ++ us) ↔ AllLexed A ts ∧ AllLexed A us :=
  List.forall_mem_append

@[simp] theorem lexed_word (keyword : Keyword) : (word keyword).Lexed A := .keyword keyword

@[simp] theorem lexed_signs :
    comma.Lexed A ∧ semicolon.Lexed A ∧ equals.Lexed A ∧ openParen.Lexed A ∧ closeParen.Lexed A ∧
      openBrace.Lexed A ∧ closeBrace.Lexed A := by
  and_intros <;> exact .symbol (by decide)

end Token

variable {A : Arithmetic}

namespace Piece

theorem Recognized.exists_ofDecimal {x : Number} {lexeme : List Char}
    (h : Recognized A (.token (.number x) lexeme)) : ∃ d, x = A.ofDecimal d := by
  cases h with
  | symbol h => simp [symbols] at h
  | integer _ _ => exact ⟨_, rfl⟩
  | decimal _ _ _ _ => exact ⟨_, rfl⟩

theorem Recognized.notMem_string {text : String} {lexeme : List Char}
    (h : Recognized A (.token (.string text) lexeme)) : '"' ∉ text.toList := by
  cases h with
  | symbol h => simp [symbols] at h
  | string h => rwa [String.toList_ofList]

end Piece

/-- The literal of a token is written as a token for the same literal. -/
theorem Token.Lexed.literal (hA : A.ReadsBack) {t : Token} {value : Literal} (h : t.Lexed A)
    (ht : Grammar.literal? t.kind = some value) (hfinite : Number.AllFinite value.numbers) :
    value.token.Lexed A ∧ Grammar.literal? value.token.kind = some value := by
  obtain ⟨kind, lexeme, line⟩ := t
  dsimp only at ht
  unfold Grammar.literal? at ht
  split at ht <;> cases ht
  · exact ⟨.keyword .nil, rfl⟩
  · exact ⟨.keyword .true, rfl⟩
  · exact ⟨.keyword .false, rfl⟩
  -- a number that was read is that of a decimal, and its text reads back
  · rename_i x
    obtain ⟨d, rfl⟩ := Piece.Recognized.exists_ofDecimal h
    obtain ⟨e, htext, hvalue⟩ := hA d (hfinite _ (List.mem_singleton_self _))
    have hdecimal := Piece.recognized_decimal A e
    refine ⟨?_, rfl⟩
    rw [hvalue] at hdecimal
    show Piece.Recognized A (.token _ ((A.ofDecimal d).text "inf").toList)
    rwa [htext, String.toList_ofList]
  · rename_i text
    have hstring := Piece.Recognized.string (A := A) (Piece.Recognized.notMem_string h)
    rw [String.ofList_toList] at hstring
    refine ⟨?_, rfl⟩
    show Piece.Recognized A (.token (.string text) ("\"" ++ text ++ "\"").toList)
    simpa using hstring

namespace Grammar

/-! ## Expressions -/

theorem spelled_join (L : Level) (op : Token) (a b : Expr) :
    (L.join op a b).spelled = a.spelled ++ op :: b.spelled := by
  cases L <;> rfl

theorem numbers_join (L : Level) (op : Token) (a b : Expr) :
    (L.join op a b).numbers = a.numbers ++ b.numbers := by
  cases L <;> rfl

theorem Items.trees_ne_nil {count : Nat} {w : List Token} {es : List Expr}
    {faults : List SyntaxError} (h : Items count w es faults) : es ≠ [] := by
  cases h <;> exact List.cons_ne_nil _ _

theorem spelledItems_cons {e : Expr} {es : List Expr} (hes : es ≠ []) :
    Expr.spelledItems (e :: es) = e.spelled ++ Token.comma :: Expr.spelledItems es := by
  obtain ⟨e', es, rfl⟩ := List.exists_cons_of_ne_nil hes
  rfl

mutual

/-- What is written of the tree of an expression without faults is an expression of the same level with
that tree. -/
theorem Phrase.spelled (hA : A.ReadsBack) {L : Level} {w : List Token} {e : Expr} {faults : List SyntaxError}
    (h : Phrase L w e faults) (hfaults : faults = []) (hw : Token.AllLexed A w)
    (hfinite : Number.AllFinite e.numbers) :
    Phrase L e.spelled e [] ∧ Token.AllLexed A e.spelled := by
  match h with
  | .literal ht =>
    obtain ⟨hlexed, hliteral⟩ := (Token.allLexed_cons.1 hw).1.literal hA ht hfinite
    exact ⟨.literal hliteral, Token.allLexed_cons.2 ⟨hlexed, Token.allLexed_nil⟩⟩
  | .name ht => exact ⟨.name ht, hw⟩
  | .grouping _ he _ =>
    simp only [Token.allLexed_cons, Token.allLexed_append] at hw
    obtain ⟨hderived, hlexed⟩ := he.spelled hA hfaults hw.2.1 hfinite
    exact ⟨.grouping rfl hderived rfl, by simpa [Expr.spelled] using hlexed⟩
  | .call hf _ hargs hr =>
    obtain ⟨hfirst, hmore⟩ := List.append_eq_nil_iff.1 hfaults
    obtain ⟨hfinite, hfinites⟩ := Number.allFinite_append.1 hfinite
    simp only [Token.allLexed_cons, Token.allLexed_append] at hw
    obtain ⟨hderived, hlexed⟩ := hf.spelled hA hfirst hw.1 hfinite
    obtain ⟨hitems, hitemsLexed⟩ := hargs.spelled hA hmore hw.2.2.1 hfinites
    refine ⟨.call hderived rfl hitems hr, ?_⟩
    simpa [Expr.spelled, hlexed, hitemsLexed] using hw.2.2.2
  | .unary hop he =>
    obtain ⟨hop', hw⟩ := Token.allLexed_cons.1 hw
    obtain ⟨hderived, hlexed⟩ := he.spelled hA hfaults hw hfinite
    exact ⟨.unary hop hderived, Token.allLexed_cons.2 ⟨hop', hlexed⟩⟩
  | .binary ha hop hb =>
    obtain ⟨hfirst, hmore⟩ := List.append_eq_nil_iff.1 hfaults
    rw [numbers_join] at hfinite
    obtain ⟨hfinite, hfinites⟩ := Number.allFinite_append.1 hfinite
    simp only [Token.allLexed_cons, Token.allLexed_append] at hw
    obtain ⟨hleft, hleftLexed⟩ := ha.spelled hA hfirst hw.1 hfinite
    obtain ⟨hright, hrightLexed⟩ := hb.spelled hA hmore hw.2.2 hfinites
    rw [spelled_join]
    exact ⟨.binary hleft hop hright, by simp [hleftLexed, hw.2.1, hrightLexed]⟩
  | .assign hname _ he =>
    simp only [Token.allLexed_cons] at hw
    obtain ⟨hderived, hlexed⟩ := he.spelled hA hfaults hw.2.2 hfinite
    exact ⟨.assign hname rfl hderived, by simp [Expr.spelled, hw.1, hlexed]⟩
  -- an assignment to anything but a variable is a fault
  | .misassign _ _ _ _ => simp at hfaults
  | .tighter he =>
    obtain ⟨hderived, hlexed⟩ := he.spelled hA hfaults hw hfinite
    exact ⟨.tighter hderived, hlexed⟩

theorem Items.spelled (hA : A.ReadsBack) {count : Nat} {w : List Token} {es : List Expr}
    {faults : List SyntaxError} (h : Items count w es faults) (hfaults : faults = []) (hw : Token.AllLexed A w)
    (hfinite : Number.AllFinite (Expr.numbersEach es)) :
    Items count (Expr.spelledItems es) es [] ∧ Token.AllLexed A (Expr.spelledItems es) := by
  -- the tokens written differ from those read, but not in how many stand before an item
  match h with
  | .one he =>
    obtain ⟨hexcess, hfaults⟩ := List.append_eq_nil_iff.1 hfaults
    have hplace := (excess_eq_nil_iff he.ne_nil).1 hexcess
    obtain ⟨hderived, hlexed⟩ := he.spelled hA hfaults hw (Number.allFinite_append.1 hfinite).1
    have hone : Items count _ [_] (excess _ count _ ++ []) := .one hderived
    rw [(excess_eq_nil_iff hderived.ne_nil).2 hplace] at hone
    exact ⟨hone, hlexed⟩
  | .more he _ hes =>
    obtain ⟨hexcess, hfaults⟩ := List.append_eq_nil_iff.1 hfaults
    obtain ⟨hfirst, hmore⟩ := List.append_eq_nil_iff.1 hfaults
    have hplace := (excess_eq_nil_iff he.ne_nil).1 hexcess
    obtain ⟨hfinite, hfinites⟩ := Number.allFinite_append.1 hfinite
    simp only [Token.allLexed_cons, Token.allLexed_append] at hw
    obtain ⟨hderived, hlexed⟩ := he.spelled hA hfirst hw.1 hfinite
    obtain ⟨hitems, hitemsLexed⟩ := hes.spelled hA hmore hw.2.2 hfinites
    have hboth : Items count (_ ++ Token.comma :: _) _ (excess _ count _ ++ ([] ++ [])) :=
      .more hderived rfl hitems
    rw [(excess_eq_nil_iff hderived.ne_nil).2 hplace] at hboth
    rw [spelledItems_cons hes.trees_ne_nil]
    exact ⟨hboth, by simp [hlexed, hitemsLexed]⟩

theorem Arguments.spelled (hA : A.ReadsBack) {w : List Token} {es : List Expr} {faults : List SyntaxError}
    (h : Arguments w es faults) (hfaults : faults = []) (hw : Token.AllLexed A w)
    (hfinite : Number.AllFinite (Expr.numbersEach es)) :
    Arguments (Expr.spelledItems es) es [] ∧ Token.AllLexed A (Expr.spelledItems es) := by
  match h with
  | .none => exact ⟨.none, Token.allLexed_nil⟩
  | .some hitems =>
    obtain ⟨hderived, hlexed⟩ := hitems.spelled hA hfaults hw hfinite
    exact ⟨.some hderived, hlexed⟩

end

/-! ## Statements -/

theorem Optional.spelled (hA : A.ReadsBack) {w : List Token} {value : Option Expr}
    {faults : List SyntaxError} (h : Optional w value faults) (hfaults : faults = [])
    (hw : Token.AllLexed A w) (hfinite : Number.AllFinite (value.elim [] Expr.numbers)) :
    ∀ e ∈ value, Phrase .assignment e.spelled e [] ∧ Token.AllLexed A e.spelled := by
  cases h with
  | none => simp
  | some he =>
    rintro _ ⟨⟩
    exact he.spelled hA hfaults hw hfinite

/-- A variable declaration is written with its keyword. -/
theorem Variable.spelled (hA : A.ReadsBack) (f : Bool) {w : List Token} {s : Stmt}
    {faults : List SyntaxError} (h : Variable w s faults) (hfaults : faults = [])
    (hw : Token.AllLexed A w) (hfinite : Number.AllFinite s.numbers) :
    Declaration f false s.spelled s [] ∧ Token.AllLexed A s.spelled := by
  cases h with
  | bare hname _ =>
    have hname' := (Token.allLexed_cons.1 hw).1
    exact ⟨.varDeclaration rfl (.bare hname rfl), by simp [Stmt.spelled, hname']⟩
  | initialized hname _ he _ =>
    simp only [Token.allLexed_cons, Token.allLexed_append] at hw
    obtain ⟨hderived, hlexed⟩ := he.spelled hA hfaults hw.2.2.1 hfinite
    exact ⟨.varDeclaration rfl (.initialized hname rfl hderived rfl),
      by simp [Stmt.spelled, hw.1, hlexed]⟩

theorem Names.spelled {count : Nat} {w names : List Token} {faults : List SyntaxError}
    (h : Names count w names faults) (hfaults : faults = []) (hw : Token.AllLexed A w) :
    Names count (names.intersperse Token.comma) names [] ∧
      Token.AllLexed A (names.intersperse Token.comma) := by
  induction h with
  | @one count _ hname =>
    have hone : Names count _ _ _ := .one hname
    rw [hfaults] at hone
    exact ⟨hone, hw⟩
  | more hname _ hnames ih =>
    obtain ⟨hexcess, hmore⟩ := List.append_eq_nil_iff.1 hfaults
    simp only [Token.allLexed_cons] at hw
    obtain ⟨hderived, hlexed⟩ := ih hmore hw.2.2
    have hboth : Names _ (_ :: Token.comma :: _) _ (excess _ _ [_] ++ []) :=
      .more hname rfl hderived
    rw [hexcess] at hboth
    cases hnames with
    | one _ | more _ _ _ => exact ⟨hboth, by simpa [hw.1] using hlexed⟩

theorem Parameters.spelled {w names : List Token} {faults : List SyntaxError}
    (h : Parameters w names faults) (hfaults : faults = []) (hw : Token.AllLexed A w) :
    Parameters (names.intersperse Token.comma) names [] ∧
      Token.AllLexed A (names.intersperse Token.comma) := by
  cases h with
  | none => exact ⟨.none, Token.allLexed_nil⟩
  | some hnames =>
    obtain ⟨hderived, hlexed⟩ := hnames.spelled hfaults hw
    exact ⟨.some hderived, hlexed⟩

theorem Initializer.spelled (hA : A.ReadsBack) (f : Bool) {w : List Token} {initial : Option Stmt}
    {faults : List SyntaxError} (h : Initializer w initial faults) (hfaults : faults = [])
    (hw : Token.AllLexed A w) (hfinite : Number.AllFinite (initial.elim [] Stmt.numbers)) :
    ∀ s ∈ initial, Declaration f false s.spelled s [] ∧ Token.AllLexed A s.spelled := by
  cases h with
  | none => simp
  | declared _ hs =>
    rintro _ ⟨⟩
    exact hs.spelled hA f hfaults (Token.allLexed_cons.1 hw).2 hfinite
  | expression he _ =>
    rintro _ ⟨⟩
    obtain ⟨hderived, hlexed⟩ := he.spelled hA hfaults (Token.allLexed_append.1 hw).1 hfinite
    exact ⟨.statement (.expression hderived rfl), by simp [Stmt.spelled, hlexed]⟩

/-- What is written of the tree is a statement with that tree, which dangles at most if `dangling`. -/
def Respelled (A : Arithmetic) (f dangling : Bool) (s : Stmt) : Prop :=
  ∃ dangling', (dangling' = true → dangling = true) ∧ Statement f dangling' s.spelled s [] ∧
    Token.AllLexed A s.spelled

/-- A block dangles under no circumstances. -/
theorem respelled_block {f dangling : Bool} {ss : List Stmt}
    (h : Block f (Stmt.spelledEach ss) ss [] ∧ Token.AllLexed A (Stmt.spelledEach ss)) :
    Respelled A f dangling (.block ss) :=
  ⟨false, by simp, .block rfl h.1 rfl, by simpa [Stmt.spelled] using h.2⟩

theorem respelled_loop {f dangling : Bool} {c : Expr} {s : Stmt}
    (hc : Phrase .assignment c.spelled c [] ∧ Token.AllLexed A c.spelled)
    (hs : Respelled A f dangling s) : Respelled A f dangling (.loop c s) := by
  obtain ⟨dangling', hle, hderived, hlexed⟩ := hs
  exact ⟨dangling', hle, .whileLoop rfl rfl hc.1 rfl hderived, by simp [Stmt.spelled, hc.2, hlexed]⟩

/-- The block and the loop that a `for` loop became are written as such. -/
theorem respelled_loopTree {f dangling : Bool} {initial : Option Stmt}
    {condition increment : Option Expr} {body : Stmt}
    (hinitial : ∀ s ∈ initial, Declaration f false s.spelled s [] ∧ Token.AllLexed A s.spelled)
    (hcondition : ∀ e ∈ condition, Phrase .assignment e.spelled e [] ∧ Token.AllLexed A e.spelled)
    (hincrement : ∀ e ∈ increment, Phrase .assignment e.spelled e [] ∧ Token.AllLexed A e.spelled)
    (hbody : Respelled A f dangling body) :
    Respelled A f dangling (loopTree initial condition increment body) := by
  -- from the inside outwards: the turn, the loop around it, and the block with the first clause
  have hturn : Respelled A f dangling (turn increment body) := by
    cases increment with
    | none => exact hbody
    | some e =>
      obtain ⟨hderived, hlexed⟩ := hincrement e rfl
      obtain ⟨_, -, hbody, hbodyLexed⟩ := hbody
      apply respelled_block
      exact ⟨.cons (.statement hbody) (.cons (.statement (.expression hderived rfl)) .nil),
        by simp [Stmt.spelledEach, Stmt.spelled, hlexed, hbodyLexed]⟩
  have htest : Phrase .assignment (condition.getD (.literal (.bool true))).spelled
        (condition.getD (.literal (.bool true))) [] ∧
      Token.AllLexed A (condition.getD (.literal (.bool true))).spelled := by
    cases condition with
    | none =>
      have hliteral : Phrase .primary [(Literal.bool true).token] (.literal (.bool true)) [] :=
        .literal rfl
      exact ⟨hliteral.of_primary _, Token.allLexed_cons.2 ⟨.keyword .true, Token.allLexed_nil⟩⟩
    | some e => exact hcondition e rfl
  have hloop := respelled_loop htest hturn
  cases initial with
  | none => exact hloop
  | some s =>
    obtain ⟨hderived, hlexed⟩ := hinitial s rfl
    obtain ⟨_, -, hloop, hloopLexed⟩ := hloop
    apply respelled_block
    exact ⟨.cons hderived (.cons (.statement hloop) .nil),
      by simp [Stmt.spelledEach, hlexed, hloopLexed]⟩

theorem allFinite_loopTree {initial : Option Stmt} {condition increment : Option Expr} {body : Stmt}
    (h : Number.AllFinite (loopTree initial condition increment body).numbers) :
    Number.AllFinite (initial.elim [] Stmt.numbers) ∧
      Number.AllFinite (condition.elim [] Expr.numbers) ∧
      Number.AllFinite (increment.elim [] Expr.numbers) ∧ Number.AllFinite body.numbers := by
  cases initial <;> cases condition <;> cases increment <;>
    simp_all [loopTree, turn, Stmt.numbers, Stmt.numbersEach, Number.AllFinite, or_imp, forall_and]

mutual

/-- What is written of the tree of a statement without faults is a statement with that tree, which
dangles only if the statement does. -/
theorem Statement.spelled (hA : A.ReadsBack) {f dangling : Bool} {w : List Token} {s : Stmt}
    {faults : List SyntaxError} (h : Statement f dangling w s faults) (hfaults : faults = [])
    (hw : Token.AllLexed A w) (hfinite : Number.AllFinite s.numbers) : Respelled A f dangling s := by
  match h with
  | .expression he _ =>
    obtain ⟨hderived, hlexed⟩ := he.spelled hA hfaults (Token.allLexed_append.1 hw).1 hfinite
    exact ⟨false, id, .expression hderived rfl, by simp [Stmt.spelled, hlexed]⟩
  | .print _ he _ =>
    simp only [Token.allLexed_cons, Token.allLexed_append] at hw
    obtain ⟨hderived, hlexed⟩ := he.spelled hA hfaults hw.2.1 hfinite
    exact ⟨false, id, .print rfl hderived rfl, by simp [Stmt.spelled, hlexed]⟩
  | .block _ hss _ =>
    simp only [Token.allLexed_cons, Token.allLexed_append] at hw
    exact respelled_block (hss.spelled hA hfaults hw.2.1 hfinite)
  | .ifThen _ _ hc _ hs =>
    obtain ⟨hfirst, hmore⟩ := List.append_eq_nil_iff.1 hfaults
    obtain ⟨hfinite, hfinites⟩ := Number.allFinite_append.1 hfinite
    simp only [Token.allLexed_cons, Token.allLexed_append] at hw
    obtain ⟨hderived, hlexed⟩ := hc.spelled hA hfirst hw.2.2.1 hfinite
    obtain ⟨_, -, hbody, hbodyLexed⟩ := hs.spelled hA hmore hw.2.2.2.2 hfinites
    exact ⟨true, id, .ifThen rfl rfl hderived rfl hbody,
      by simp [Stmt.spelled, hlexed, hbodyLexed]⟩
  | .ifElse _ _ hc _ hs _ ht =>
    simp only [List.append_eq_nil_iff] at hfaults
    obtain ⟨hfirst, hmore, hothers⟩ := hfaults
    obtain ⟨hfinite, hfinites⟩ := Number.allFinite_append.1 hfinite
    obtain ⟨hfinite', hfinite''⟩ := Number.allFinite_append.1 hfinites
    simp only [Token.allLexed_cons, Token.allLexed_append] at hw
    obtain ⟨hderived, hlexed⟩ := hc.spelled hA hfirst hw.2.2.1 hfinite
    obtain ⟨dangling', hle, hbody, hbodyLexed⟩ := hs.spelled hA hmore hw.2.2.2.2.1 hfinite'
    obtain ⟨dangling'', hle', hother, hotherLexed⟩ := ht.spelled hA hothers hw.2.2.2.2.2.2 hfinite''
    -- the first branch does not dangle when it is written, because it did not before
    obtain rfl : dangling' = false := by simpa using hle
    exact ⟨dangling'', hle', .ifElse rfl rfl hderived rfl hbody rfl hother,
      by simp [Stmt.spelled, hlexed, hbodyLexed, hotherLexed]⟩
  | .whileLoop _ _ hc _ hs =>
    obtain ⟨hfirst, hmore⟩ := List.append_eq_nil_iff.1 hfaults
    obtain ⟨hfinite, hfinites⟩ := Number.allFinite_append.1 hfinite
    simp only [Token.allLexed_cons, Token.allLexed_append] at hw
    exact respelled_loop (hc.spelled hA hfirst hw.2.2.1 hfinite)
      (hs.spelled hA hmore hw.2.2.2.2 hfinites)
  | .forLoop _ _ hi hc _ hn _ hs =>
    simp only [List.append_eq_nil_iff] at hfaults
    obtain ⟨hfirst, hmore, hothers, hlast⟩ := hfaults
    obtain ⟨hfinite₁, hfinite₂, hfinite₃, hfinite₄⟩ := allFinite_loopTree hfinite
    simp only [Token.allLexed_cons, Token.allLexed_append] at hw
    obtain ⟨-, -, hw₁, hw₂, -, hw₃, -, hw₄⟩ := hw
    exact respelled_loopTree (hi.spelled hA f hfirst hw₁ hfinite₁) (hc.spelled hA hmore hw₂ hfinite₂)
      (hn.spelled hA hothers hw₃ hfinite₃) (hs.spelled hA hlast hw₄ hfinite₄)
  | @Statement.result _ _ _ _ value _ hkeyword hvalue _ =>
    obtain ⟨hplace, hmore⟩ := List.append_eq_nil_iff.1 hfaults
    simp only [Token.allLexed_cons, Token.allLexed_append] at hw
    have heach := hvalue.spelled hA hmore hw.2.1 hfinite
    cases value with
    | none =>
      have hresult : Statement f false (_ :: ([] ++ [Token.semicolon])) _ (misplaced f _ ++ []) :=
        .result hkeyword .none rfl
      rw [hplace] at hresult
      exact ⟨false, id, hresult, by simp [Stmt.spelled, hw.1]⟩
    | some e =>
      obtain ⟨hderived, hlexed⟩ := heach e rfl
      have hresult : Statement f false (_ :: (_ ++ [Token.semicolon])) _ (misplaced f _ ++ []) :=
        .result hkeyword (.some hderived) rfl
      rw [hplace] at hresult
      exact ⟨false, id, hresult, by simp [Stmt.spelled, hw.1, hlexed]⟩

theorem Declaration.spelled (hA : A.ReadsBack) {f dangling : Bool} {w : List Token} {s : Stmt}
    {faults : List SyntaxError} (h : Declaration f dangling w s faults) (hfaults : faults = [])
    (hw : Token.AllLexed A w) (hfinite : Number.AllFinite s.numbers) :
    ∃ dangling', Declaration f dangling' s.spelled s [] ∧ Token.AllLexed A s.spelled := by
  match h with
  | .varDeclaration _ hs =>
    exact ⟨false, hs.spelled hA f hfaults (Token.allLexed_cons.1 hw).2 hfinite⟩
  | .funDeclaration _ hname _ hnames _ _ hbody _ =>
    obtain ⟨hfirst, hmore⟩ := List.append_eq_nil_iff.1 hfaults
    simp only [Token.allLexed_cons, Token.allLexed_append] at hw
    obtain ⟨-, hname', -, hw, -, -, hw', -⟩ := hw
    obtain ⟨hnamesDerived, hnamesLexed⟩ := hnames.spelled hfirst hw
    obtain ⟨hderived, hlexed⟩ := hbody.spelled hA hmore hw' hfinite
    exact ⟨false, .funDeclaration rfl hname rfl hnamesDerived rfl rfl hderived rfl,
      by simp [Stmt.spelled, hname', hnamesLexed, hlexed]⟩
  | .statement hs =>
    obtain ⟨dangling', -, hderived, hlexed⟩ := hs.spelled hA hfaults hw hfinite
    exact ⟨dangling', .statement hderived, hlexed⟩

theorem Block.spelled (hA : A.ReadsBack) {f : Bool} {w : List Token} {ss : List Stmt}
    {faults : List SyntaxError} (h : Block f w ss faults) (hfaults : faults = [])
    (hw : Token.AllLexed A w) (hfinite : Number.AllFinite (Stmt.numbersEach ss)) :
    Block f (Stmt.spelledEach ss) ss [] ∧ Token.AllLexed A (Stmt.spelledEach ss) := by
  match h with
  | .nil => exact ⟨.nil, Token.allLexed_nil⟩
  | .cons hs hss =>
    obtain ⟨hfirst, hmore⟩ := List.append_eq_nil_iff.1 hfaults
    obtain ⟨hfinite, hfinites⟩ := Number.allFinite_append.1 hfinite
    obtain ⟨hw, hw'⟩ := Token.allLexed_append.1 hw
    obtain ⟨_, hderived, hlexed⟩ := hs.spelled hA hfirst hw hfinite
    obtain ⟨hderiveds, hlexeds⟩ := hss.spelled hA hmore hw' hfinites
    exact ⟨.cons hderived hderiveds, Token.allLexed_append.2 ⟨hlexed, hlexeds⟩⟩

end

end Grammar

/-! ## Programs -/

/-- The trees may differ in the lines of their tokens, and in nothing else. -/
def Likeness.upToLines : Likeness := ⟨Token.SameText, Eq, fun _ => True⟩

/-- What is written of a program that was read is read as the same program, on other lines, if its
literals are read back. -/
theorem Program.ofSource_render_of_readsBack (hA : A.ReadsBack) {source : String} {p : Program}
    (h : Program.ofSource A source = .ok p) (hfinite : Number.AllFinite p.numbers) :
    ∃ q, Program.ofSource A p.render = .ok q ∧ List.Forall₂ (Stmt.Like .upToLines) p q := by
  obtain ⟨-, hp⟩ := Program.ofSource_eq_ok_iff.1 h
  obtain ⟨hspelled, hlexed⟩ :=
    Grammar.Block.spelled hA hp rfl (fun _ => Scan.lexed_of_mem_content) hfinite
  obtain ⟨herrors, hcontent⟩ := Scan.content_spaced hlexed
  have hlawful : Likeness.upToLines.Lawful A A := Likeness.lawful_of_lines A fun _ _ h => h
  obtain ⟨q, hq, hlike⟩ := Grammar.IsProgram.alike hlawful hspelled hcontent
  exact ⟨q, Program.ofSource_eq_ok_iff.2 ⟨herrors, hq⟩, hlike⟩

/-- The text written of a program with finite literals has no error in it, and reading it gives the
program, on other lines. -/
theorem Program.ofSource_render {source : String} {p : Program}
    (h : Program.ofSource .binary64 source = .ok p) (hfinite : Number.AllFinite p.numbers) :
    ∃ q, Program.ofSource .binary64 p.render = .ok q ∧
      List.Forall₂ (Stmt.Like .upToLines) p q :=
  Program.ofSource_render_of_readsBack Arithmetic.binary64_readsBack h hfinite

/-- A `for` loop, with a number that is written differently and a string that looks like a comment. -/
theorem Program.ofSource_render_for :
    ∃ p, Program.ofSource .binary64 "for (; 1.50; a = \"//\") if (b) print c;" = .ok p ∧
      Number.AllFinite p.numbers ∧
      ∃ q, Program.ofSource .binary64 p.render = .ok q ∧
        List.Forall₂ (Stmt.Like .upToLines) p q := by
  obtain ⟨x, hx⟩ : ∃ x, x = Number.ofDecimal ⟨150, 2⟩ := ⟨_, rfl⟩
  have hscan : Scan.ofSource .binary64 "for (; 1.50; a = \"//\") if (b) print c;" =
      ⟨[⟨.keyword .for, "for", 1⟩, ⟨.leftParen, "(", 1⟩, ⟨.semicolon, ";", 1⟩, ⟨.number x, "1.50", 1⟩,
        ⟨.semicolon, ";", 1⟩, ⟨.identifier, "a", 1⟩, ⟨.equal, "=", 1⟩, ⟨.string "//", "\"//\"", 1⟩,
        ⟨.rightParen, ")", 1⟩, ⟨.keyword .if, "if", 1⟩, ⟨.leftParen, "(", 1⟩, ⟨.identifier, "b", 1⟩,
        ⟨.rightParen, ")", 1⟩, ⟨.keyword .print, "print", 1⟩, ⟨.identifier, "c", 1⟩,
        ⟨.semicolon, ";", 1⟩, Token.ending 1], []⟩ := by
    rw [hx]
    decide +kernel
  have hfinite : Number.AllFinite [x] := by
    rw [hx]
    have hnumber : (Number.ofDecimal ⟨150, 2⟩).isFinite := by decide +kernel
    exact List.forall_mem_singleton.2 hnumber
  let p : Program :=
    [.loop (.literal (.number x))
      (.block [.ifThen (.variable ⟨.identifier, "b", 1⟩) (.print (.variable ⟨.identifier, "c", 1⟩)),
        .expression (.assign ⟨.identifier, "a", 1⟩ (.literal (.string "//")))])]
  have hread : Program.ofSource .binary64 "for (; 1.50; a = \"//\") if (b) print c;" = .ok p := by
    rw [Program.ofSource, hscan]
    cbv
  exact ⟨p, hread, hfinite, Program.ofSource_render hread hfinite⟩

end LoxScript
