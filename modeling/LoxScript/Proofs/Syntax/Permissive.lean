import LoxScript.Proofs.Syntax.FirstError

/-!
# The permissive grammar

The rules of the grammar without trees and without limits: any disjunction may be assigned to, a call may
have any number of arguments and a function any number of parameters, and a `return` may stand anywhere.
Nor do they say which `if` an `else` belongs to, so a text may have several derivations.

A derivation comes with the constructs in it that something may be wrong with, and each of these tells its
violations by itself, wherever it stands. The errors that are reported for a text of the permissive grammar
are the violations of its constructs, each one once, whichever derivation they are taken from.

## Main definitions

* `Permissive.Construct`, with its `violations`.
* `Permissive.Phrase`, `Permissive.Statement`, `Permissive.Declaration`, `Permissive.Block`: the rules.
* `Permissive.IsProgram`: the texts of the permissive grammar, with their constructs.

## Main statements

* `Permissive.exists_isProgram_iff`: the texts of the permissive grammar are the readable ones.
* `Program.ofTokens_violations`: the errors of a list of tokens are the violations of its constructs.
-/

namespace LoxScript

namespace Permissive

open Grammar (Level literal?)

/-! ## Constructs -/

/-- A part of a text that something may be wrong with. -/
inductive Construct where
  /-- An assignment, with the text of its target and its operator. -/
  | assignment (target : List Token) (equals : Token)
  /-- A call, with the texts of its arguments. -/
  | call (arguments : List (List Token))
  /-- The declaration of a function, with its parameters. -/
  | function (parameters : List Token)
  /-- A `return`, with its keyword, and whether it stands in a function body. -/
  | result (keyword : Token) (inFunction : Bool)

/-- Whether a text is a bare variable, without parentheses. -/
def isBareVariable : List Token → Bool
  | [t] => t.kind = .identifier
  | _ => false

theorem isBareVariable_iff {w : List Token} :
    isBareVariable w = true ↔ ∃ t, w = [t] ∧ t.kind = .identifier := by
  rcases w with - | ⟨t, - | ⟨u, w⟩⟩ <;> simp [isBareVariable]

/-- The error that blames the first token of a text. -/
def atFirst (problem : SyntaxError.Problem) (w : List Token) : List SyntaxError :=
  w.head?.toList.map fun t => ⟨problem, t⟩

/-- What is wrong with a construct. -/
def Construct.violations : Construct → List SyntaxError
  | .assignment target equals =>
    if isBareVariable target then [] else [⟨.invalidAssignmentTarget, equals⟩]
  | .call arguments => (arguments.drop maxArity).flatMap (atFirst .tooManyArguments)
  | .function parameters => (parameters.drop maxArity).map fun t => ⟨.tooManyParameters, t⟩
  | .result keyword inFunction => if inFunction then [] else [⟨.returnOutsideFunction, keyword⟩]

/-- What is wrong with all of the constructs. -/
def violations (cs : List Construct) : List SyntaxError := cs.flatMap Construct.violations

@[simp]
theorem violations_cons (c : Construct) (cs : List Construct) :
    violations (c :: cs) = c.violations ++ violations cs := rfl

@[simp]
theorem violations_append (cs ds : List Construct) :
    violations (cs ++ ds) = violations cs ++ violations ds := List.flatMap_append

/-! ## The rules -/

mutual

/-- `Phrase L w cs`: the text `w` is an expression of level `L` with the constructs `cs`. -/
inductive Phrase : Level → List Token → List Construct → Prop where
  | literal {t : Token} {value : Literal} (ht : literal? t.kind = some value) : Phrase .primary [t] []
  | name {t : Token} (ht : t.kind = .identifier) : Phrase .primary [t] []
  | grouping {l r : Token} {w : List Token} {cs : List Construct} (hl : l.kind = .leftParen)
      (he : Phrase .assignment w cs) (hr : r.kind = .rightParen) : Phrase .primary (l :: (w ++ [r])) cs
  | call {l r : Token} {w v : List Token} {args : List (List Token)} {cs ds : List Construct}
      (hf : Phrase .call w cs) (hl : l.kind = .leftParen) (hargs : Arguments v args ds)
      (hr : r.kind = .rightParen) : Phrase .call (w ++ l :: (v ++ [r])) (cs ++ .call args :: ds)
  | unary {op : Token} {w : List Token} {cs : List Construct} (hop : op.kind ∈ [.bang, .minus])
      (he : Phrase .unary w cs) : Phrase .unary (op :: w) cs
  | binary {L : Level} {op : Token} {w v : List Token} {cs ds : List Construct} (ha : Phrase L w cs)
      (hop : op.kind ∈ L.operators) (hb : Phrase L.tighter v ds) : Phrase L (w ++ op :: v) (cs ++ ds)
  -- one rule for all targets, with a variable among them
  | assignment {op : Token} {w v : List Token} {cs ds : List Construct}
      (ht : Phrase .disjunction w cs) (hop : op.kind = .equal) (he : Phrase .assignment v ds) :
      Phrase .assignment (w ++ op :: v) (cs ++ .assignment w op :: ds)
  | tighter {L : Level} {w : List Token} {cs : List Construct} (he : Phrase L.tighter w cs) :
      Phrase L w cs

/-- `Items w args cs`: the text `w` consists of the expressions `args` with commas between them. -/
inductive Items : List Token → List (List Token) → List Construct → Prop where
  | one {w : List Token} {cs : List Construct} (he : Phrase .assignment w cs) : Items w [w] cs
  | more {comma : Token} {w v : List Token} {args : List (List Token)} {cs ds : List Construct}
      (he : Phrase .assignment w cs) (hcomma : comma.kind = .comma) (hes : Items v args ds) :
      Items (w ++ comma :: v) (w :: args) (cs ++ ds)

/-- `Arguments w args cs`: the text `w` is what stands between the parentheses of a call. -/
inductive Arguments : List Token → List (List Token) → List Construct → Prop where
  | none : Arguments [] [] []
  | some {w : List Token} {args : List (List Token)} {cs : List Construct} (h : Items w args cs) :
      Arguments w args cs

end

/-- An expression that may be missing. -/
inductive Optional : List Token → List Construct → Prop where
  | none : Optional [] []
  | some {w : List Token} {cs : List Construct} (he : Phrase .assignment w cs) : Optional w cs

/-- What follows the keyword of a variable declaration. -/
inductive Variable : List Token → List Construct → Prop where
  | bare {name semi : Token} (hname : name.kind = .identifier) (hsemi : semi.kind = .semicolon) :
      Variable [name, semi] []
  | initialized {name op semi : Token} {w : List Token} {cs : List Construct}
      (hname : name.kind = .identifier) (hop : op.kind = .equal) (he : Phrase .assignment w cs)
      (hsemi : semi.kind = .semicolon) : Variable (name :: op :: (w ++ [semi])) cs

/-- `Names w names`: the text `w` consists of `names` with commas between them. -/
inductive Names : List Token → List Token → Prop where
  | one {name : Token} (hname : name.kind = .identifier) : Names [name] [name]
  | more {name comma : Token} {w names : List Token} (hname : name.kind = .identifier)
      (hcomma : comma.kind = .comma) (hnames : Names w names) :
      Names (name :: comma :: w) (name :: names)

/-- What stands between the parentheses of a function declaration. -/
inductive Parameters : List Token → List Token → Prop where
  | none : Parameters [] []
  | some {w names : List Token} (h : Names w names) : Parameters w names

/-- The first clause of a `for` loop, with its semicolon. -/
inductive Initializer : List Token → List Construct → Prop where
  | none {semi : Token} (hsemi : semi.kind = .semicolon) : Initializer [semi] []
  | declared {keyword : Token} {w : List Token} {cs : List Construct}
      (hkeyword : keyword.kind = .keyword .var) (hs : Variable w cs) : Initializer (keyword :: w) cs
  | expression {semi : Token} {w : List Token} {cs : List Construct} (he : Phrase .assignment w cs)
      (hsemi : semi.kind = .semicolon) : Initializer (w ++ [semi]) cs

mutual

/-- `Statement f w cs`: the text `w`, which stands in a function body if `f`, is a statement with the
constructs `cs`. -/
inductive Statement : Bool → List Token → List Construct → Prop where
  | expression {f : Bool} {semi : Token} {w : List Token} {cs : List Construct}
      (he : Phrase .assignment w cs) (hsemi : semi.kind = .semicolon) : Statement f (w ++ [semi]) cs
  | print {f : Bool} {keyword semi : Token} {w : List Token} {cs : List Construct}
      (hkeyword : keyword.kind = .keyword .print) (he : Phrase .assignment w cs)
      (hsemi : semi.kind = .semicolon) : Statement f (keyword :: (w ++ [semi])) cs
  | block {f : Bool} {l r : Token} {w : List Token} {cs : List Construct} (hl : l.kind = .leftBrace)
      (hss : Block f w cs) (hr : r.kind = .rightBrace) : Statement f (l :: (w ++ [r])) cs
  | ifThen {f : Bool} {keyword l r : Token} {w v : List Token} {cs ds : List Construct}
      (hkeyword : keyword.kind = .keyword .if) (hl : l.kind = .leftParen)
      (hc : Phrase .assignment w cs) (hr : r.kind = .rightParen) (hs : Statement f v ds) :
      Statement f (keyword :: l :: (w ++ r :: v)) (cs ++ ds)
  -- the first branch may end in an `if` that the `else` could belong to as well
  | ifElse {f : Bool} {keyword l r otherwise : Token} {w v u : List Token} {cs ds es : List Construct}
      (hkeyword : keyword.kind = .keyword .if) (hl : l.kind = .leftParen)
      (hc : Phrase .assignment w cs) (hr : r.kind = .rightParen) (hs : Statement f v ds)
      (hotherwise : otherwise.kind = .keyword .else) (ht : Statement f u es) :
      Statement f (keyword :: l :: (w ++ r :: (v ++ otherwise :: u))) (cs ++ (ds ++ es))
  | whileLoop {f : Bool} {keyword l r : Token} {w v : List Token} {cs ds : List Construct}
      (hkeyword : keyword.kind = .keyword .while) (hl : l.kind = .leftParen)
      (hc : Phrase .assignment w cs) (hr : r.kind = .rightParen) (hs : Statement f v ds) :
      Statement f (keyword :: l :: (w ++ r :: v)) (cs ++ ds)
  | forLoop {f : Bool} {keyword l semi r : Token} {w v u x : List Token}
      {cs ds es bs : List Construct} (hkeyword : keyword.kind = .keyword .for)
      (hl : l.kind = .leftParen) (hi : Initializer w cs) (hc : Optional v ds)
      (hsemi : semi.kind = .semicolon) (hn : Optional u es) (hr : r.kind = .rightParen)
      (hs : Statement f x bs) :
      Statement f (keyword :: l :: (w ++ (v ++ semi :: (u ++ r :: x)))) (cs ++ (ds ++ (es ++ bs)))
  | result {f : Bool} {keyword semi : Token} {w : List Token} {cs : List Construct}
      (hkeyword : keyword.kind = .keyword .return) (hvalue : Optional w cs)
      (hsemi : semi.kind = .semicolon) : Statement f (keyword :: (w ++ [semi])) (.result keyword f :: cs)

/-- `Declaration f w cs`: the text `w`, which stands in a function body if `f`, is a statement or a
declaration with the constructs `cs`. -/
inductive Declaration : Bool → List Token → List Construct → Prop where
  | varDeclaration {f : Bool} {keyword : Token} {w : List Token} {cs : List Construct}
      (hkeyword : keyword.kind = .keyword .var) (hs : Variable w cs) : Declaration f (keyword :: w) cs
  | funDeclaration {f : Bool} {keyword name l r brace close : Token} {w v names : List Token}
      {cs : List Construct} (hkeyword : keyword.kind = .keyword .fun) (hname : name.kind = .identifier)
      (hl : l.kind = .leftParen) (hnames : Parameters w names) (hr : r.kind = .rightParen)
      (hbrace : brace.kind = .leftBrace) (hbody : Block true v cs)
      (hclose : close.kind = .rightBrace) :
      Declaration f (keyword :: name :: l :: (w ++ r :: brace :: (v ++ [close]))) (.function names :: cs)
  | statement {f : Bool} {w : List Token} {cs : List Construct} (hs : Statement f w cs) :
      Declaration f w cs

/-- `Block f w cs`: the text `w`, which stands in a function body if `f`, consists of statements and
declarations with the constructs `cs`. -/
inductive Block : Bool → List Token → List Construct → Prop where
  | nil {f : Bool} : Block f [] []
  | cons {f : Bool} {w v : List Token} {cs ds : List Construct} (hs : Declaration f w cs)
      (hss : Block f v ds) : Block f (w ++ v) (cs ++ ds)

end

/-- The text `w` is a program of the permissive grammar with the constructs `cs`. -/
def IsProgram (w : List Token) (cs : List Construct) : Prop := Block false w cs

theorem Phrase.of_primary {w : List Token} {cs : List Construct} (h : Phrase .primary w cs)
    (L : Level) : Phrase L w cs :=
  @Level.of_tighter (Phrase · w cs) (fun _ he => .tighter he) h L

end Permissive

/-! ## What is read is permitted -/

namespace Grammar

variable {w : List Token} {faults : List SyntaxError}

mutual

theorem Phrase.permissive {L : Level} {w : List Token} {e : Expr} {faults : List SyntaxError}
    (h : Phrase L w e faults) : ∃ cs, Permissive.Phrase L w cs := by
  match h with
  | .literal ht => exact ⟨_, .literal ht⟩
  | .name ht => exact ⟨_, .name ht⟩
  | .grouping hl he hr =>
    obtain ⟨_, he'⟩ := he.permissive
    exact ⟨_, .grouping hl he' hr⟩
  | .call hf hl hargs hr =>
    obtain ⟨_, hf'⟩ := hf.permissive
    obtain ⟨_, _, hargs'⟩ := hargs.permissive
    exact ⟨_, .call hf' hl hargs' hr⟩
  | .unary hop he =>
    obtain ⟨_, he'⟩ := he.permissive
    exact ⟨_, .unary hop he'⟩
  | .binary ha hop hb =>
    obtain ⟨_, ha'⟩ := ha.permissive
    obtain ⟨_, hb'⟩ := hb.permissive
    exact ⟨_, .binary ha' hop hb'⟩
  -- permissively every target is an operand, a name as well
  | .assign hname hop he =>
    obtain ⟨_, he'⟩ := he.permissive
    exact ⟨_, .assignment ((Permissive.Phrase.name hname).of_primary .disjunction) hop he'⟩
  | .misassign ht _ hop he =>
    obtain ⟨_, ht'⟩ := ht.permissive
    obtain ⟨_, he'⟩ := he.permissive
    exact ⟨_, .assignment ht' hop he'⟩
  | .tighter he =>
    obtain ⟨_, he'⟩ := he.permissive
    exact ⟨_, .tighter he'⟩

theorem Items.permissive {count : Nat} {w : List Token} {es : List Expr} {faults : List SyntaxError}
    (h : Items count w es faults) : ∃ args cs, Permissive.Items w args cs := by
  match h with
  | .one he =>
    obtain ⟨_, he'⟩ := he.permissive
    exact ⟨_, _, .one he'⟩
  | .more he hcomma hes =>
    obtain ⟨_, he'⟩ := he.permissive
    obtain ⟨_, _, hes'⟩ := hes.permissive
    exact ⟨_, _, .more he' hcomma hes'⟩

theorem Arguments.permissive {w : List Token} {es : List Expr} {faults : List SyntaxError}
    (h : Arguments w es faults) : ∃ args cs, Permissive.Arguments w args cs := by
  match h with
  | .none => exact ⟨_, _, .none⟩
  | .some h =>
    obtain ⟨_, _, h'⟩ := h.permissive
    exact ⟨_, _, .some h'⟩

end

theorem Optional.permissive {value : Option Expr} (h : Optional w value faults) :
    ∃ cs, Permissive.Optional w cs := by
  cases h with
  | none => exact ⟨_, .none⟩
  | some he =>
    obtain ⟨_, he'⟩ := he.permissive
    exact ⟨_, .some he'⟩

theorem Variable.permissive {s : Stmt} (h : Variable w s faults) : ∃ cs, Permissive.Variable w cs := by
  cases h with
  | bare hname hsemi => exact ⟨_, .bare hname hsemi⟩
  | initialized hname hop he hsemi =>
    obtain ⟨_, he'⟩ := he.permissive
    exact ⟨_, .initialized hname hop he' hsemi⟩

theorem Names.permissive {count : Nat} {names : List Token} (h : Names count w names faults) :
    Permissive.Names w names := by
  induction h with
  | one hname => exact .one hname
  | more hname hcomma _ ih => exact .more hname hcomma ih

theorem Parameters.permissive {names : List Token} (h : Parameters w names faults) :
    Permissive.Parameters w names := by
  cases h with
  | none => exact .none
  | some h => exact .some h.permissive

theorem Initializer.permissive {initial : Option Stmt} (h : Initializer w initial faults) :
    ∃ cs, Permissive.Initializer w cs := by
  cases h with
  | none hsemi => exact ⟨_, .none hsemi⟩
  | declared hkeyword hs =>
    obtain ⟨_, hs'⟩ := hs.permissive
    exact ⟨_, .declared hkeyword hs'⟩
  | expression he hsemi =>
    obtain ⟨_, he'⟩ := he.permissive
    exact ⟨_, .expression he' hsemi⟩

mutual

theorem Statement.permissive {f dangling : Bool} {w : List Token} {s : Stmt} {faults : List SyntaxError}
    (h : Statement f dangling w s faults) : ∃ cs, Permissive.Statement f w cs := by
  -- the permissive rules are the same but for the conditions, which are constructs there
  match h with
  | .expression he hsemi =>
    obtain ⟨_, he'⟩ := he.permissive
    exact ⟨_, .expression he' hsemi⟩
  | .print hkeyword he hsemi =>
    obtain ⟨_, he'⟩ := he.permissive
    exact ⟨_, .print hkeyword he' hsemi⟩
  | .block hl hss hr =>
    obtain ⟨_, hss'⟩ := hss.permissive
    exact ⟨_, .block hl hss' hr⟩
  | .ifThen hkeyword hl hc hr hs =>
    obtain ⟨_, hc'⟩ := hc.permissive
    obtain ⟨_, hs'⟩ := hs.permissive
    exact ⟨_, .ifThen hkeyword hl hc' hr hs'⟩
  | .ifElse hkeyword hl hc hr hs hotherwise ht =>
    obtain ⟨_, hc'⟩ := hc.permissive
    obtain ⟨_, hs'⟩ := hs.permissive
    obtain ⟨_, ht'⟩ := ht.permissive
    exact ⟨_, .ifElse hkeyword hl hc' hr hs' hotherwise ht'⟩
  | .whileLoop hkeyword hl hc hr hs =>
    obtain ⟨_, hc'⟩ := hc.permissive
    obtain ⟨_, hs'⟩ := hs.permissive
    exact ⟨_, .whileLoop hkeyword hl hc' hr hs'⟩
  | .forLoop hkeyword hl hi hc hsemi hn hr hs =>
    obtain ⟨_, hi'⟩ := hi.permissive
    obtain ⟨_, hc'⟩ := hc.permissive
    obtain ⟨_, hn'⟩ := hn.permissive
    obtain ⟨_, hs'⟩ := hs.permissive
    exact ⟨_, .forLoop hkeyword hl hi' hc' hsemi hn' hr hs'⟩
  | .result hkeyword hvalue hsemi =>
    obtain ⟨_, hvalue'⟩ := hvalue.permissive
    exact ⟨_, .result hkeyword hvalue' hsemi⟩

theorem Declaration.permissive {f dangling : Bool} {w : List Token} {s : Stmt}
    {faults : List SyntaxError} (h : Declaration f dangling w s faults) :
    ∃ cs, Permissive.Declaration f w cs := by
  match h with
  | .varDeclaration hkeyword hs =>
    obtain ⟨_, hs'⟩ := hs.permissive
    exact ⟨_, .varDeclaration hkeyword hs'⟩
  | .funDeclaration hkeyword hname hl hnames hr hbrace hbody hclose =>
    obtain ⟨_, hbody'⟩ := hbody.permissive
    exact ⟨_, .funDeclaration hkeyword hname hl hnames.permissive hr hbrace hbody' hclose⟩
  | .statement hs =>
    obtain ⟨_, hs'⟩ := hs.permissive
    exact ⟨_, .statement hs'⟩

theorem Block.permissive {f : Bool} {w : List Token} {ss : List Stmt} {faults : List SyntaxError}
    (h : Block f w ss faults) : ∃ cs, Permissive.Block f w cs := by
  match h with
  | .nil => exact ⟨_, .nil⟩
  | .cons hs hss =>
    obtain ⟨_, hs'⟩ := hs.permissive
    obtain ⟨_, hss'⟩ := hss.permissive
    exact ⟨_, .cons hs' hss'⟩

end

/-- An `else` behind a dangling statement belongs to the `if` at its end that has none. -/
theorem Statement.otherwise {f outer dangling : Bool} {w u : List Token} {s t : Stmt}
    {faults others : List SyntaxError} {otherwise : Token} (hs : Statement f outer w s faults)
    (houter : outer = true) (hotherwise : otherwise.kind = .keyword .else)
    (ht : Statement f dangling u t others) :
    ∃ inner r, Statement f inner (w ++ otherwise :: u) r (faults ++ others) := by
  match hs with
  | @Statement.ifThen _ inner _ _ _ _ _ _ _ _ _ hkeyword hl hc hr hs =>
    -- the nearest `if` is the one in the branch, if it has no `else` yet
    by_cases hinner : inner = true
    · obtain ⟨_, _, hs'⟩ := hs.otherwise hinner hotherwise ht
      exact ⟨_, _, by simpa using Statement.ifThen hkeyword hl hc hr hs'⟩
    · obtain rfl : inner = false := by simpa using hinner
      exact ⟨_, _, by simpa using Statement.ifElse hkeyword hl hc hr hs hotherwise ht⟩
  | .ifElse hkeyword hl hc hr hs hotherwise' ht' =>
    obtain ⟨_, _, hend⟩ := ht'.otherwise houter hotherwise ht
    exact ⟨_, _, by simpa using Statement.ifElse hkeyword hl hc hr hs hotherwise' hend⟩
  | .whileLoop hkeyword hl hc hr hs =>
    obtain ⟨_, _, hs'⟩ := hs.otherwise houter hotherwise ht
    exact ⟨_, _, by simpa using Statement.whileLoop hkeyword hl hc hr hs'⟩
  | .forLoop hkeyword hl hi hc hsemi hn hr hs =>
    obtain ⟨_, _, hs'⟩ := hs.otherwise houter hotherwise ht
    exact ⟨_, _, by simpa using Statement.forLoop hkeyword hl hi hc hsemi hn hr hs'⟩
  | .expression _ _ | .print _ _ _ | .block _ _ _ | .result _ _ _ => cases houter

end Grammar

/-! ## What is permitted is read -/

namespace Permissive

open Grammar (Level)

variable {w : List Token} {cs : List Construct}

/-- The items of a list that have no place begin with the first one, or are those of the others. -/
theorem excess_append {α : Type} (count : Nat) (a : α) (as : List α)
    (blame : α → List SyntaxError) :
    (if maxArity ≤ count then blame a else []) ++ (as.drop (maxArity - (count + 1))).flatMap blame =
      ((a :: as).drop (maxArity - count)).flatMap blame := by
  split
  · rename_i hcount
    rw [Nat.sub_eq_zero_of_le hcount, Nat.sub_eq_zero_of_le (Nat.le_succ_of_le hcount)]
    rfl
  · have hplaces : maxArity - count = maxArity - (count + 1) + 1 := by omega
    rw [hplaces]
    rfl

mutual

/-- Every expression of the permissive grammar is read, and its faults are the violations in it. -/
theorem Phrase.read {L : Level} {w : List Token} {cs : List Construct} (h : Phrase L w cs) :
    ∃ e faults, Grammar.Phrase L w e faults ∧ faults.Perm (violations cs) := by
  match h with
  | .literal ht => exact ⟨_, [], .literal ht, .nil⟩
  | .name ht => exact ⟨_, [], .name ht, .nil⟩
  | .grouping hl he hr =>
    obtain ⟨_, _, he', hfaults⟩ := he.read
    exact ⟨_, _, .grouping hl he' hr, hfaults⟩
  | .call hf hl hargs hr =>
    obtain ⟨_, _, hf', hfaults⟩ := hf.read
    obtain ⟨_, _, hargs', hmore⟩ := hargs.read
    rw [violations_append, violations_cons]
    exact ⟨_, _, .call hf' hl hargs' hr, hfaults.append hmore⟩
  | .unary hop he =>
    obtain ⟨_, _, he', hfaults⟩ := he.read
    exact ⟨_, _, .unary hop he', hfaults⟩
  | .binary ha hop hb =>
    obtain ⟨_, _, ha', hfaults⟩ := ha.read
    obtain ⟨_, _, hb', hmore⟩ := hb.read
    rw [violations_append]
    exact ⟨_, _, .binary ha' hop hb', hfaults.append hmore⟩
  | @Phrase.assignment op w v cs ds ht hop he =>
    obtain ⟨target, faults, ht', hfaults⟩ := ht.read
    obtain ⟨e, more, he', hmore⟩ := he.read
    rw [violations_append, violations_cons]
    -- the rules with trees tell the targets apart by the tree, the constructs by the text
    by_cases htarget : isBareVariable w
    · obtain ⟨name, rfl, hname⟩ := isBareVariable_iff.1 htarget
      obtain rfl := ht'.eq_variable rfl hname
      obtain ⟨-, -, rfl⟩ := ht'.eq_of_variable rfl
      refine ⟨_, _, .assign hname hop he', ?_⟩
      rw [← hfaults.nil_eq, Construct.violations, if_pos htarget]
      exact hmore
    · have hdropped : ∀ name, target ≠ .variable name := by
        rintro name rfl
        obtain ⟨hw, hname, -⟩ := ht'.eq_of_variable rfl
        exact htarget (isBareVariable_iff.2 ⟨name, hw, hname⟩)
      refine ⟨_, _, .misassign ht' hdropped hop he', hfaults.append ?_⟩
      rw [Construct.violations, if_neg htarget]
      -- what is wrong with the value is reported before the target is
      exact List.perm_append_comm.trans (hmore.append_left _)
  | .tighter he =>
    obtain ⟨_, _, he', hfaults⟩ := he.read
    exact ⟨_, _, .tighter he', hfaults⟩

/-- Behind `count` other items, those items are too many that come after the places left. -/
theorem Items.read {w : List Token} {args : List (List Token)} {cs : List Construct}
    (h : Items w args cs) (count : Nat) :
    ∃ es faults, Grammar.Items count w es faults ∧
      faults.Perm ((args.drop (maxArity - count)).flatMap (atFirst .tooManyArguments) ++
        violations cs) := by
  match h with
  | .one he =>
    obtain ⟨_, _, he', hfaults⟩ := he.read
    rw [← excess_append, List.drop_nil, List.flatMap_nil, List.append_nil]
    exact ⟨_, _, .one he', hfaults.append_left _⟩
  | .more he hcomma hes =>
    obtain ⟨_, faults, he', hfaults⟩ := he.read
    obtain ⟨_, more, hes', hmore⟩ := hes.read (count + 1)
    rw [← excess_append, violations_append, List.append_assoc]
    refine ⟨_, _, .more he' hcomma hes', List.Perm.append_left _ ?_⟩
    -- what is wrong in an item is reported before the items behind it are counted
    exact (hfaults.append hmore).trans (List.perm_append_comm_assoc _ _ _)

theorem Arguments.read {w : List Token} {args : List (List Token)} {cs : List Construct}
    (h : Arguments w args cs) :
    ∃ es faults, Grammar.Arguments w es faults ∧
      faults.Perm ((Construct.call args).violations ++ violations cs) := by
  match h with
  | .none => exact ⟨_, [], .none, .nil⟩
  | .some h =>
    obtain ⟨_, _, h', hfaults⟩ := h.read 0
    exact ⟨_, _, .some h', hfaults⟩

end

theorem Optional.read (h : Optional w cs) :
    ∃ value faults, Grammar.Optional w value faults ∧ faults.Perm (violations cs) := by
  cases h with
  | none => exact ⟨_, [], .none, .nil⟩
  | some he =>
    obtain ⟨_, _, he', hfaults⟩ := he.read
    exact ⟨_, _, .some he', hfaults⟩

theorem Variable.read (h : Variable w cs) :
    ∃ s faults, Grammar.Variable w s faults ∧ faults.Perm (violations cs) := by
  cases h with
  | bare hname hsemi => exact ⟨_, [], .bare hname hsemi, .nil⟩
  | initialized hname hop he hsemi =>
    obtain ⟨_, _, he', hfaults⟩ := he.read
    exact ⟨_, _, .initialized hname hop he' hsemi, hfaults⟩

theorem Names.read {names : List Token} (h : Names w names) (count : Nat) :
    Grammar.Names count w names
      ((names.drop (maxArity - count)).map fun t => ⟨.tooManyParameters, t⟩) := by
  induction h generalizing count with
  | one hname =>
    rw [List.map_eq_flatMap, ← excess_append, List.drop_nil, List.flatMap_nil, List.append_nil]
    exact .one hname
  | more hname hcomma _ ih =>
    rw [List.map_eq_flatMap, ← excess_append, ← List.map_eq_flatMap]
    exact .more hname hcomma (ih (count + 1))

theorem Parameters.read {names : List Token} (h : Parameters w names) :
    Grammar.Parameters w names (Construct.function names).violations := by
  cases h with
  | none => exact .none
  | some h => exact .some (h.read 0)

theorem Initializer.read (h : Initializer w cs) :
    ∃ initial faults, Grammar.Initializer w initial faults ∧ faults.Perm (violations cs) := by
  cases h with
  | none hsemi => exact ⟨_, [], .none hsemi, .nil⟩
  | declared hkeyword hs =>
    obtain ⟨_, _, hs', hfaults⟩ := hs.read
    exact ⟨_, _, .declared hkeyword hs', hfaults⟩
  | expression he hsemi =>
    obtain ⟨_, _, he', hfaults⟩ := he.read
    exact ⟨_, _, .expression he' hsemi, hfaults⟩

mutual

/-- Every statement of the permissive grammar is read, and its faults are the violations in it. -/
theorem Statement.read {f : Bool} {w : List Token} {cs : List Construct} (h : Statement f w cs) :
    ∃ dangling s faults, Grammar.Statement f dangling w s faults ∧ faults.Perm (violations cs) := by
  match h with
  | .expression he hsemi =>
    obtain ⟨_, _, he', hfaults⟩ := he.read
    exact ⟨_, _, _, .expression he' hsemi, hfaults⟩
  | .print hkeyword he hsemi =>
    obtain ⟨_, _, he', hfaults⟩ := he.read
    exact ⟨_, _, _, .print hkeyword he' hsemi, hfaults⟩
  | .block hl hss hr =>
    obtain ⟨_, _, hss', hfaults⟩ := hss.read
    exact ⟨_, _, _, .block hl hss' hr, hfaults⟩
  | .ifThen hkeyword hl hc hr hs =>
    obtain ⟨_, _, hc', hfaults⟩ := hc.read
    obtain ⟨_, _, _, hs', hmore⟩ := hs.read
    rw [violations_append]
    exact ⟨_, _, _, .ifThen hkeyword hl hc' hr hs', hfaults.append hmore⟩
  | .ifElse hkeyword hl hc hr hs hotherwise ht =>
    obtain ⟨_, faults, hc', hfaults⟩ := hc.read
    obtain ⟨dangling, _, more, hs', hmore⟩ := hs.read
    obtain ⟨_, _, others, ht', hothers⟩ := ht.read
    have hperm := hfaults.append (hmore.append hothers)
    rw [violations_append, violations_append]
    -- where the first branch dangles, the `else` moves into it with its violations
    cases dangling with
    | false => exact ⟨_, _, _, .ifElse hkeyword hl hc' hr hs' hotherwise ht', hperm⟩
    | true =>
      obtain ⟨_, _, hs''⟩ := hs'.otherwise rfl hotherwise ht'
      exact ⟨_, _, _, .ifThen hkeyword hl hc' hr hs'', hperm⟩
  | .whileLoop hkeyword hl hc hr hs =>
    obtain ⟨_, _, hc', hfaults⟩ := hc.read
    obtain ⟨_, _, _, hs', hmore⟩ := hs.read
    rw [violations_append]
    exact ⟨_, _, _, .whileLoop hkeyword hl hc' hr hs', hfaults.append hmore⟩
  | .forLoop hkeyword hl hi hc hsemi hn hr hs =>
    obtain ⟨_, _, hi', hfaults⟩ := hi.read
    obtain ⟨_, _, hc', hmore⟩ := hc.read
    obtain ⟨_, _, hn', hothers⟩ := hn.read
    obtain ⟨_, _, _, hs', hlast⟩ := hs.read
    rw [violations_append, violations_append, violations_append]
    exact ⟨_, _, _, .forLoop hkeyword hl hi' hc' hsemi hn' hr hs',
      hfaults.append (hmore.append (hothers.append hlast))⟩
  | .result hkeyword hvalue hsemi =>
    obtain ⟨_, _, hvalue', hfaults⟩ := hvalue.read
    exact ⟨_, _, _, .result hkeyword hvalue' hsemi, hfaults.append_left _⟩

theorem Declaration.read {f : Bool} {w : List Token} {cs : List Construct} (h : Declaration f w cs) :
    ∃ dangling s faults, Grammar.Declaration f dangling w s faults ∧ faults.Perm (violations cs) := by
  match h with
  | .varDeclaration hkeyword hs =>
    obtain ⟨_, _, hs', hfaults⟩ := hs.read
    exact ⟨_, _, _, .varDeclaration hkeyword hs', hfaults⟩
  | .funDeclaration hkeyword hname hl hnames hr hbrace hbody hclose =>
    obtain ⟨_, _, hbody', hmore⟩ := hbody.read
    exact ⟨_, _, _, .funDeclaration hkeyword hname hl hnames.read hr hbrace hbody' hclose,
      hmore.append_left _⟩
  | .statement hs =>
    obtain ⟨_, _, _, hs', hfaults⟩ := hs.read
    exact ⟨_, _, _, .statement hs', hfaults⟩

theorem Block.read {f : Bool} {w : List Token} {cs : List Construct} (h : Block f w cs) :
    ∃ ss faults, Grammar.Block f w ss faults ∧ faults.Perm (violations cs) := by
  match h with
  | .nil => exact ⟨_, [], .nil, .nil⟩
  | .cons hs hss =>
    obtain ⟨_, _, _, hs', hfaults⟩ := hs.read
    obtain ⟨_, _, hss', hmore⟩ := hss.read
    rw [violations_append]
    exact ⟨_, _, .cons hs' hss', hfaults.append hmore⟩

end

/-- The texts of the permissive grammar are those that the grammar allows, whatever faults it finds. -/
theorem exists_isProgram_iff : (∃ cs, IsProgram w cs) ↔ Grammar.Readable w := by
  constructor
  · rintro ⟨_, h⟩
    obtain ⟨p, faults, hp, -⟩ := h.read
    exact ⟨p, faults, hp⟩
  · rintro ⟨_, _, hp⟩
    exact hp.permissive

end Permissive

open Permissive

namespace Program

/-- The errors of a list of tokens of the permissive grammar are the violations of its constructs, each one
once, and it is accepted exactly if there is none. -/
theorem ofTokens_violations {ts : List Token} {cs : List Construct}
    (h : IsProgram (Token.content ts) cs) :
    (∀ errors, ofTokens ts = .error errors → errors.Perm (violations cs)) ∧
      ((∃ p, ofTokens ts = .ok p) ↔ violations cs = []) := by
  obtain ⟨p, faults, hp, hfaults⟩ := h.read
  have hread : (Parser.read (Token.endingOf ts) (Token.content ts)).errors = faults := by
    rw [Parser.read, hp.readWithin (Nat.le_refl _)]
  refine ⟨fun errors herrors => ?_, ?_⟩
  · rw [← (ofTokens_eq_error_iff.1 herrors).1, hread]
    exact hfaults
  constructor
  · rintro ⟨q, hq⟩
    obtain ⟨-, rfl⟩ := hp.unique (ofTokens_eq_ok_iff.1 hq)
    exact hfaults.nil_eq.symm
  · intro hnone
    rw [hnone] at hfaults
    obtain rfl := hfaults.eq_nil
    exact ⟨p, ofTokens_eq_ok_iff.2 hp⟩

/-- A `return` outside of a function, with an assignment to what is no variable for its value. -/
theorem ofTokens_violations_return :
    let keyword : Token := ⟨.keyword .return, "return", 1⟩
    let value : Token := ⟨.keyword .nil, "nil", 1⟩
    let equals : Token := ⟨.equal, "=", 1⟩
    let semi : Token := ⟨.semicolon, ";", 1⟩
    let ts : List Token := [keyword, value, equals, value, semi]
    IsProgram ts [.result keyword false, .assignment [value] equals] ∧
      (∀ errors, ofTokens ts = .error errors →
        errors.Perm [⟨.returnOutsideFunction, keyword⟩, ⟨.invalidAssignmentTarget, equals⟩]) ∧
      ∀ p, ofTokens ts ≠ .ok p := by
  intro keyword value equals semi ts
  have hvalue (L : Grammar.Level) : Permissive.Phrase L [value] [] :=
    (Permissive.Phrase.literal rfl).of_primary L
  have hassignment : Permissive.Phrase .assignment [value, equals, value] [.assignment [value] equals] :=
    .assignment (hvalue .disjunction) rfl (hvalue .assignment)
  have hresult : Permissive.Statement false ts [.result keyword false, .assignment [value] equals] :=
    .result rfl (.some hassignment) rfl
  have hprogram : IsProgram ts [.result keyword false, .assignment [value] equals] :=
    .cons (.statement hresult) .nil
  obtain ⟨herrors, haccepted⟩ := @ofTokens_violations ts _ hprogram
  refine ⟨hprogram, herrors, fun p hp => ?_⟩
  exact absurd (haccepted.1 ⟨p, hp⟩) (by decide)

end Program

end LoxScript
