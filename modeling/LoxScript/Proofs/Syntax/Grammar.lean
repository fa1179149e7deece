import LoxScript.Syntax.Stmt
import LoxScript.Syntax.Error

/-!
# The grammar

Which lists of tokens are programs, and of which trees. The rules say nothing about how a text is read:
there is no bound, no token ahead, and the levels with operators recurse to the left.

Four things are wrong with a text without making it unreadable: a target of an assignment that is no
variable, an argument or a parameter too many, and a `return` outside a function. The rules allow them
and list them as the faults of the text, in the order in which they are noticed. The programs of the
language are the texts without faults.

An `else` belongs to the nearest `if`. Statements are therefore told apart by whether they are
*dangling*, that is, end in an `if` without `else`: only the last branch of an `if` with `else` may be.

## Main definitions

* `Grammar.Phrase`, `Grammar.Arguments`: expressions by level, and lists of arguments.
* `Grammar.Statement`, `Grammar.Declaration`, `Grammar.Block`: statements, with and without
  declarations, and their lists.
* `Grammar.IsProgram`: the programs of the language.
-/

namespace LoxScript.Grammar

/-- The levels of expressions, from the loosest to the tightest. -/
inductive Level where
  | assignment | disjunction | conjunction | equality | comparison | term | factor | unary | call
  | primary
deriving DecidableEq, Repr

namespace Level

/-- The next tighter level. No level is tighter than that of what is complete in itself. -/
def tighter : Level → Level
  | .assignment => .disjunction
  | .disjunction => .conjunction
  | .conjunction => .equality
  | .equality => .comparison
  | .comparison => .term
  | .term => .factor
  | .factor => .unary
  | .unary => .call
  | .call | .primary => .primary

/-- The operators between operands, at the levels that have any. -/
def operators : Level → List Token.Kind
  | .disjunction => [.keyword .or]
  | .conjunction => [.keyword .and]
  | .equality => [.equalEqual, .bangEqual]
  | .comparison => [.greater, .greaterEqual, .less, .lessEqual]
  | .term => [.plus, .minus]
  | .factor => [.star, .slash]
  | _ => []

/-- What passes from a level to the next looser one holds at all levels if it holds of what is complete in
itself. -/
theorem of_tighter {P : Level → Prop} (htighter : ∀ L, P (tighter L) → P L) (hprimary : P .primary)
    (L : Level) : P L := by
  have hunary : P .unary := htighter .unary (htighter .call hprimary)
  have hterm : P .term := htighter .term (htighter .factor hunary)
  have hequality : P .equality := htighter .equality (htighter .comparison hterm)
  have hdisjunction : P .disjunction := htighter .disjunction (htighter .conjunction hequality)
  cases L with
  | assignment => exact htighter .assignment hdisjunction
  | disjunction => exact hdisjunction
  | conjunction => exact htighter .conjunction hequality
  | equality => exact hequality
  | comparison => exact htighter .comparison hterm
  | term => exact hterm
  | factor => exact htighter .factor hunary
  | unary => exact hunary
  | call => exact htighter .call hprimary
  | primary => exact hprimary

/-- The tree of an operator between operands. -/
def join : Level → Token → Expr → Expr → Expr
  | .disjunction | .conjunction => .logical
  | _ => .binary

end Level

/-- The literal that a token is. -/
def literal? : Token.Kind → Option Literal
  | .keyword .nil => some .nil
  | .keyword .true => some (.bool true)
  | .keyword .false => some (.bool false)
  | .number value => some (.number value)
  | .string text => some (.string text)
  | _ => none

/-- The fault of the item `w` of a list with commas that has `count` items before it: the item is
blamed at its first token if there is no place for it. -/
def excess (problem : SyntaxError.Problem) (count : Nat) (w : List Token) : List SyntaxError :=
  if maxArity ≤ count then w.head?.toList.map fun t => ⟨problem, t⟩ else []

mutual

/-- `Phrase L w e faults`: the text `w` is an expression of level `L` with the tree `e`. -/
inductive Phrase : Level → List Token → Expr → List SyntaxError → Prop where
  | literal {t : Token} {value : Literal} (ht : literal? t.kind = some value) :
      Phrase .primary [t] (.literal value) []
  | name {t : Token} (ht : t.kind = .identifier) : Phrase .primary [t] (.variable t) []
  | grouping {l r : Token} {w : List Token} {e : Expr} {faults : List SyntaxError}
      (hl : l.kind = .leftParen) (he : Phrase .assignment w e faults) (hr : r.kind = .rightParen) :
      Phrase .primary (l :: (w ++ [r])) (.grouping e) faults
  | call {l r : Token} {w v : List Token} {f : Expr} {args : List Expr}
      {faults more : List SyntaxError}
      (hf : Phrase .call w f faults) (hl : l.kind = .leftParen) (hargs : Arguments v args more)
      (hr : r.kind = .rightParen) :
      Phrase .call (w ++ l :: (v ++ [r])) (.call f r args) (faults ++ more)
  | unary {op : Token} {w : List Token} {e : Expr} {faults : List SyntaxError}
      (hop : op.kind ∈ [.bang, .minus]) (he : Phrase .unary w e faults) :
      Phrase .unary (op :: w) (.unary op e) faults
  -- the left operand may have operators of the same level, the right one only tighter ones
  | binary {L : Level} {op : Token} {w v : List Token} {a b : Expr}
      {faults more : List SyntaxError}
      (ha : Phrase L w a faults) (hop : op.kind ∈ L.operators) (hb : Phrase L.tighter v b more) :
      Phrase L (w ++ op :: v) (L.join op a b) (faults ++ more)
  -- the target is a token and no phrase: a variable in parentheses is none
  | assign {name op : Token} {w : List Token} {e : Expr} {faults : List SyntaxError}
      (hname : name.kind = .identifier) (hop : op.kind = .equal)
      (he : Phrase .assignment w e faults) :
      Phrase .assignment (name :: op :: w) (.assign name e) faults
  /-- The value of an assignment to anything but a variable is dropped from the tree. -/
  | misassign {op : Token} {w v : List Token} {target e : Expr} {faults more : List SyntaxError}
      (ht : Phrase .disjunction w target faults) (hv : ∀ name, target ≠ .variable name)
      (hop : op.kind = .equal) (he : Phrase .assignment v e more) :
      Phrase .assignment (w ++ op :: v) target
        (faults ++ (more ++ [⟨.invalidAssignmentTarget, op⟩]))
  | tighter {L : Level} {w : List Token} {e : Expr} {faults : List SyntaxError}
      (he : Phrase L.tighter w e faults) : Phrase L w e faults

/-- `Items count w es faults`: the text `w` is a list of expressions with commas between them, behind
`count` others. -/
inductive Items : Nat → List Token → List Expr → List SyntaxError → Prop where
  | one {count : Nat} {w : List Token} {e : Expr} {faults : List SyntaxError}
      (he : Phrase .assignment w e faults) :
      Items count w [e] (excess .tooManyArguments count w ++ faults)
  | more {count : Nat} {comma : Token} {w v : List Token} {e : Expr} {es : List Expr}
      {faults more : List SyntaxError}
      (he : Phrase .assignment w e faults) (hcomma : comma.kind = .comma)
      (hes : Items (count + 1) v es more) :
      Items count (w ++ comma :: v) (e :: es)
        (excess .tooManyArguments count w ++ (faults ++ more))

/-- `Arguments w es faults`: the text `w` is what stands between the parentheses of a call. -/
inductive Arguments : List Token → List Expr → List SyntaxError → Prop where
  | none : Arguments [] [] []
  | some {w : List Token} {es : List Expr} {faults : List SyntaxError} (h : Items 0 w es faults) :
      Arguments w es faults

end

/-- An expression that may be missing. -/
inductive Optional : List Token → Option Expr → List SyntaxError → Prop where
  | none : Optional [] none []
  | some {w : List Token} {e : Expr} {faults : List SyntaxError}
      (he : Phrase .assignment w e faults) : Optional w (some e) faults

/-- What follows the keyword of a variable declaration. -/
inductive Variable : List Token → Stmt → List SyntaxError → Prop where
  | bare {name semi : Token} (hname : name.kind = .identifier) (hsemi : semi.kind = .semicolon) :
      Variable [name, semi] (.var name none) []
  | initialized {name op semi : Token} {w : List Token} {e : Expr} {faults : List SyntaxError}
      (hname : name.kind = .identifier) (hop : op.kind = .equal)
      (he : Phrase .assignment w e faults) (hsemi : semi.kind = .semicolon) :
      Variable (name :: op :: (w ++ [semi])) (.var name (some e)) faults

/-- `Names count w names faults`: the text `w` is a list of names with commas between them, behind
`count` others. -/
inductive Names : Nat → List Token → List Token → List SyntaxError → Prop where
  | one {count : Nat} {name : Token} (hname : name.kind = .identifier) :
      Names count [name] [name] (excess .tooManyParameters count [name])
  | more {count : Nat} {name comma : Token} {w names : List Token} {faults : List SyntaxError}
      (hname : name.kind = .identifier) (hcomma : comma.kind = .comma)
      (hnames : Names (count + 1) w names faults) :
      Names count (name :: comma :: w) (name :: names)
        (excess .tooManyParameters count [name] ++ faults)

/-- What stands between the parentheses of a function declaration. -/
inductive Parameters : List Token → List Token → List SyntaxError → Prop where
  | none : Parameters [] [] []
  | some {w names : List Token} {faults : List SyntaxError} (h : Names 0 w names faults) :
      Parameters w names faults

/-- The first clause of a `for` loop, with its semicolon. -/
inductive Initializer : List Token → Option Stmt → List SyntaxError → Prop where
  | none {semi : Token} (hsemi : semi.kind = .semicolon) : Initializer [semi] none []
  | declared {keyword : Token} {w : List Token} {s : Stmt} {faults : List SyntaxError}
      (hkeyword : keyword.kind = .keyword .var) (hs : Variable w s faults) :
      Initializer (keyword :: w) (some s) faults
  | expression {semi : Token} {w : List Token} {e : Expr} {faults : List SyntaxError}
      (he : Phrase .assignment w e faults) (hsemi : semi.kind = .semicolon) :
      Initializer (w ++ [semi]) (some (.expression e)) faults

/-- The body of a `for` loop with its increment behind it, in a block if there is an increment. -/
def turn (increment : Option Expr) (body : Stmt) : Stmt :=
  increment.elim body fun e => .block [body, .expression e]

/-- The tree of a `for` loop: the initializer and a `while` loop in a block, or the `while` loop alone
if there is no initializer. -/
def loopTree (initial : Option Stmt) (condition increment : Option Expr) (body : Stmt) : Stmt :=
  let loop := .loop (condition.getD (.literal (.bool true))) (turn increment body)
  initial.elim loop fun s => .block [s, loop]

/-- The fault of a `return`. -/
def misplaced (inFunction : Bool) (keyword : Token) : List SyntaxError :=
  if inFunction then [] else [⟨.returnOutsideFunction, keyword⟩]

mutual

/-- `Statement f dangling w s faults`: the text `w`, which stands in a function body if `f`, is a
statement with the tree `s`. -/
inductive Statement : Bool → Bool → List Token → Stmt → List SyntaxError → Prop where
  | expression {f : Bool} {semi : Token} {w : List Token} {e : Expr} {faults : List SyntaxError}
      (he : Phrase .assignment w e faults) (hsemi : semi.kind = .semicolon) :
      Statement f false (w ++ [semi]) (.expression e) faults
  | print {f : Bool} {keyword semi : Token} {w : List Token} {e : Expr}
      {faults : List SyntaxError}
      (hkeyword : keyword.kind = .keyword .print) (he : Phrase .assignment w e faults)
      (hsemi : semi.kind = .semicolon) :
      Statement f false (keyword :: (w ++ [semi])) (.print e) faults
  | block {f : Bool} {l r : Token} {w : List Token} {ss : List Stmt} {faults : List SyntaxError}
      (hl : l.kind = .leftBrace) (hss : Block f w ss faults) (hr : r.kind = .rightBrace) :
      Statement f false (l :: (w ++ [r])) (.block ss) faults
  -- an `if` without `else` dangles, whatever its branch does
  | ifThen {f dangling : Bool} {keyword l r : Token} {w v : List Token} {c : Expr} {s : Stmt}
      {faults more : List SyntaxError}
      (hkeyword : keyword.kind = .keyword .if) (hl : l.kind = .leftParen)
      (hc : Phrase .assignment w c faults) (hr : r.kind = .rightParen)
      (hs : Statement f dangling v s more) :
      Statement f true (keyword :: l :: (w ++ r :: v)) (.ifThen c s) (faults ++ more)
  -- the first branch must not dangle, or the `else` would be nearer to an `if` in it
  | ifElse {f dangling : Bool} {keyword l r otherwise : Token} {w v u : List Token} {c : Expr}
      {s t : Stmt} {faults more others : List SyntaxError}
      (hkeyword : keyword.kind = .keyword .if) (hl : l.kind = .leftParen)
      (hc : Phrase .assignment w c faults) (hr : r.kind = .rightParen)
      (hs : Statement f false v s more) (hotherwise : otherwise.kind = .keyword .else)
      (ht : Statement f dangling u t others) :
      Statement f dangling (keyword :: l :: (w ++ r :: (v ++ otherwise :: u))) (.ifElse c s t)
        (faults ++ (more ++ others))
  | whileLoop {f dangling : Bool} {keyword l r : Token} {w v : List Token} {c : Expr} {s : Stmt}
      {faults more : List SyntaxError}
      (hkeyword : keyword.kind = .keyword .while) (hl : l.kind = .leftParen)
      (hc : Phrase .assignment w c faults) (hr : r.kind = .rightParen)
      (hs : Statement f dangling v s more) :
      Statement f dangling (keyword :: l :: (w ++ r :: v)) (.loop c s) (faults ++ more)
  | forLoop {f dangling : Bool} {keyword l semi r : Token} {w v u x : List Token}
      {initial : Option Stmt} {condition increment : Option Expr} {s : Stmt}
      {faults more others last : List SyntaxError}
      (hkeyword : keyword.kind = .keyword .for) (hl : l.kind = .leftParen)
      (hi : Initializer w initial faults) (hc : Optional v condition more)
      (hsemi : semi.kind = .semicolon) (hn : Optional u increment others)
      (hr : r.kind = .rightParen) (hs : Statement f dangling x s last) :
      Statement f dangling (keyword :: l :: (w ++ (v ++ semi :: (u ++ r :: x))))
        (loopTree initial condition increment s) (faults ++ (more ++ (others ++ last)))
  | result {f : Bool} {keyword semi : Token} {w : List Token} {value : Option Expr}
      {faults : List SyntaxError}
      (hkeyword : keyword.kind = .keyword .return) (hvalue : Optional w value faults)
      (hsemi : semi.kind = .semicolon) :
      Statement f false (keyword :: (w ++ [semi])) (.result keyword value)
        (misplaced f keyword ++ faults)

/-- `Declaration f dangling w s faults`: the text `w`, which stands in a function body if `f`, is a
statement or a declaration with the tree `s`. -/
inductive Declaration : Bool → Bool → List Token → Stmt → List SyntaxError → Prop where
  | varDeclaration {f : Bool} {keyword : Token} {w : List Token} {s : Stmt} {faults : List SyntaxError}
      (hkeyword : keyword.kind = .keyword .var) (hs : Variable w s faults) :
      Declaration f false (keyword :: w) s faults
  -- a `return` is in place in the body, wherever the declaration stands
  | funDeclaration {f : Bool} {keyword name l r brace close : Token} {w v names : List Token}
      {body : List Stmt} {faults more : List SyntaxError}
      (hkeyword : keyword.kind = .keyword .fun) (hname : name.kind = .identifier)
      (hl : l.kind = .leftParen) (hnames : Parameters w names faults) (hr : r.kind = .rightParen)
      (hbrace : brace.kind = .leftBrace) (hbody : Block true v body more)
      (hclose : close.kind = .rightBrace) :
      Declaration f false (keyword :: name :: l :: (w ++ r :: brace :: (v ++ [close])))
        (.function name names body) (faults ++ more)
  | statement {f dangling : Bool} {w : List Token} {s : Stmt} {faults : List SyntaxError}
      (hs : Statement f dangling w s faults) : Declaration f dangling w s faults

/-- `Block f w ss faults`: the text `w`, which stands in a function body if `f`, consists of
statements and declarations with the trees `ss`. -/
inductive Block : Bool → List Token → List Stmt → List SyntaxError → Prop where
  | nil {f : Bool} : Block f [] [] []
  | cons {f dangling : Bool} {w v : List Token} {s : Stmt} {ss : List Stmt}
      {faults more : List SyntaxError}
      (hs : Declaration f dangling w s faults) (hss : Block f v ss more) :
      Block f (w ++ v) (s :: ss) (faults ++ more)

end

/-- The text `w` is a program of the language with the tree `p`: the rules give it the tree and find
no fault with it. -/
def IsProgram (w : List Token) (p : List Stmt) : Prop := Block false w p []

/-! ## First tokens -/

/-- The kinds of token that what is complete in itself begins with. -/
def StartsPrimary (kind : Token.Kind) : Prop :=
  (∃ value, literal? kind = some value) ∨ kind = .identifier ∨ kind = .leftParen

/-- The kinds of token that an expression begins with. -/
def StartsPhrase (kind : Token.Kind) : Prop :=
  StartsPrimary kind ∨ kind = .bang ∨ kind = .minus

/-- An expression is not empty and begins with a literal, a name, a parenthesis or an operator in front
of its operand, the latter only above the level of calls. -/
theorem Phrase.starts {L : Level} {w : List Token} {e : Expr} {faults : List SyntaxError}
    (h : Phrase L w e faults) :
    ∃ t v, w = t :: v ∧ StartsPhrase t.kind ∧ (L = .call ∨ L = .primary → StartsPrimary t.kind) := by
  -- where an operator stands between two parts, the first token is that of the first part
  match h with
  | .literal ht => exact ⟨_, [], rfl, .inl (.inl ⟨_, ht⟩), fun _ => .inl ⟨_, ht⟩⟩
  | .name ht => exact ⟨_, [], rfl, .inl (.inr (.inl ht)), fun _ => .inr (.inl ht)⟩
  | .grouping hl _ _ => exact ⟨_, _, rfl, .inl (.inr (.inr hl)), fun _ => .inr (.inr hl)⟩
  | .call hf _ _ _ =>
    obtain ⟨t, v, rfl, ht, hp⟩ := hf.starts
    exact ⟨t, _, rfl, ht, fun _ => hp (.inl rfl)⟩
  | .unary hop _ =>
    refine ⟨_, _, rfl, .inr (by simpa using hop), fun h => ?_⟩
    rcases h with h | h <;> cases h
  | .binary ha hop _ =>
    obtain ⟨t, v, rfl, ht, hp⟩ := ha.starts
    exact ⟨t, _, rfl, ht, hp⟩
  | .assign hname _ _ =>
    refine ⟨_, _, rfl, .inl (.inr (.inl hname)), fun h => ?_⟩
    rcases h with h | h <;> cases h
  | .misassign ht _ _ _ =>
    obtain ⟨t, v, rfl, ht, hp⟩ := ht.starts
    refine ⟨t, _, rfl, ht, fun h => ?_⟩
    rcases h with h | h <;> cases h
  | .tighter he =>
    obtain ⟨t, v, rfl, ht, hp⟩ := he.starts
    refine ⟨t, v, rfl, ht, fun h => hp ?_⟩
    rcases h with rfl | rfl <;> exact .inr rfl

theorem Phrase.ne_nil {L : Level} {w : List Token} {e : Expr} {faults : List SyntaxError}
    (h : Phrase L w e faults) : w ≠ [] := by
  obtain ⟨t, v, rfl, -⟩ := h.starts
  simp

/-- Only a name alone is an expression with the tree of a variable. -/
theorem Phrase.eq_of_variable {L : Level} {w : List Token} {e : Expr} {name : Token}
    {faults : List SyntaxError} (h : Phrase L w e faults) (he : e = .variable name) :
    w = [name] ∧ name.kind = .identifier ∧ faults = [] := by
  match h with
  | .name ht =>
    cases he
    exact ⟨rfl, ht, rfl⟩
  -- a target that is dropped is no variable, so neither is what is left of the assignment
  | .misassign _ hv _ _ => exact absurd he (hv name)
  | .binary (L := L) _ _ _ => cases L <;> cases he
  | .tighter h' => exact h'.eq_of_variable he
  | .literal _ | .grouping _ _ _ | .call _ _ _ _ | .unary _ _ | .assign _ _ _ => cases he

/-- A name alone is an expression with the tree of a variable and no other. -/
theorem Phrase.eq_variable {L : Level} {w : List Token} {e : Expr} {name : Token}
    {faults : List SyntaxError} (h : Phrase L w e faults) (hw : w = [name])
    (hname : name.kind = .identifier) : e = .variable name := by
  match h with
  | .literal ht =>
    obtain rfl : _ = name := by simpa using hw
    simp [hname, literal?] at ht
  | .name _ =>
    obtain rfl : _ = name := by simpa using hw
    rfl
  | .unary hop _ =>
    obtain ⟨rfl, -⟩ := List.cons.inj hw
    simp [hname] at hop
  | .tighter h' => exact h'.eq_variable hw hname
  -- every other expression has more than one token
  | .call hf _ _ _ => exact absurd hw (by simp [List.append_eq_singleton_iff, hf.ne_nil])
  | .binary ha _ _ => exact absurd hw (by simp [List.append_eq_singleton_iff, ha.ne_nil])
  | .misassign ht _ _ _ => exact absurd hw (by simp [List.append_eq_singleton_iff, ht.ne_nil])
  | .grouping _ _ _ | .assign _ _ _ => exact absurd hw (by simp)

theorem Items.starts {count : Nat} {w : List Token} {es : List Expr} {faults : List SyntaxError}
    (h : Items count w es faults) : ∃ t v, w = t :: v ∧ StartsPhrase t.kind := by
  cases h with
  | one he =>
    obtain ⟨t, v, rfl, ht, -⟩ := he.starts
    exact ⟨t, v, rfl, ht⟩
  | more he _ _ =>
    obtain ⟨t, v, rfl, ht, -⟩ := he.starts
    exact ⟨t, _, rfl, ht⟩

/-- There is a place for an item exactly if fewer than `maxArity` come before it. -/
theorem excess_eq_nil_iff {problem : SyntaxError.Problem} {count : Nat} {w : List Token}
    (hw : w ≠ []) : excess problem count w = [] ↔ count < maxArity := by
  obtain ⟨t, v, rfl⟩ := List.exists_cons_of_ne_nil hw
  unfold excess
  split <;> simp <;> omega

/-- A list of arguments without faults is short enough. -/
theorem Items.length_le {count : Nat} {w : List Token} {es : List Expr} {faults : List SyntaxError}
    (h : Items count w es faults) (hfaults : faults = []) : count + es.length ≤ maxArity := by
  cases h with
  | one he =>
    have hplace := (excess_eq_nil_iff he.ne_nil).1 (List.append_eq_nil_iff.1 hfaults).1
    simp
    omega
  | more _ _ hes =>
    have hmore := (List.append_eq_nil_iff.1 (List.append_eq_nil_iff.1 hfaults).2).2
    have hlength := hes.length_le hmore
    simp
    omega

/-- A list of parameters without faults is short enough. -/
theorem Names.length_le {count : Nat} {w names : List Token} {faults : List SyntaxError}
    (h : Names count w names faults) (hfaults : faults = []) :
    count + names.length ≤ maxArity := by
  induction h with
  | one _ =>
    have hplace := (excess_eq_nil_iff (List.cons_ne_nil _ _)).1 hfaults
    simp
    omega
  | more _ _ _ ih =>
    have hlength := ih (List.append_eq_nil_iff.1 hfaults).2
    simp
    omega

/-- The kinds of token that a statement begins with. -/
def StartsStatement (kind : Token.Kind) : Prop :=
  StartsPhrase kind ∨ kind = .leftBrace ∨ kind = .keyword .print ∨ kind = .keyword .if ∨
    kind = .keyword .while ∨ kind = .keyword .for ∨ kind = .keyword .return

/-- The kinds of token that a declaration or a statement begins with. -/
def StartsDeclaration (kind : Token.Kind) : Prop :=
  StartsStatement kind ∨ kind = .keyword .var ∨ kind = .keyword .fun

/-- A statement is not empty and begins with an expression, a brace or its keyword. -/
theorem Statement.starts {f dangling : Bool} {w : List Token} {s : Stmt}
    {faults : List SyntaxError} (h : Statement f dangling w s faults) :
    ∃ t v, w = t :: v ∧ StartsStatement t.kind := by
  cases h with
  | expression he hsemi =>
    obtain ⟨t, v, rfl, ht, -⟩ := he.starts
    exact ⟨t, _, rfl, .inl ht⟩
  | print h | block h | ifThen h | ifElse h | whileLoop h | forLoop h | result h =>
    exact ⟨_, _, rfl, by simp [StartsStatement, h]⟩

/-- A declaration is not empty and begins with its keyword or like a statement. -/
theorem Declaration.starts {f dangling : Bool} {w : List Token} {s : Stmt}
    {faults : List SyntaxError} (h : Declaration f dangling w s faults) :
    ∃ t v, w = t :: v ∧ StartsDeclaration t.kind := by
  cases h with
  | varDeclaration h | funDeclaration h => exact ⟨_, _, rfl, by simp [StartsDeclaration, h]⟩
  | statement hs =>
    obtain ⟨t, v, rfl, ht⟩ := hs.starts
    exact ⟨t, v, rfl, .inl ht⟩

theorem Declaration.ne_nil {f dangling : Bool} {w : List Token} {s : Stmt}
    {faults : List SyntaxError} (h : Declaration f dangling w s faults) : w ≠ [] := by
  obtain ⟨t, v, rfl, -⟩ := h.starts
  simp

end LoxScript.Grammar
