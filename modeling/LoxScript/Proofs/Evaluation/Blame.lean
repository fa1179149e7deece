import LoxScript.Proofs.Evaluation.Safety
import LoxScript.Proofs.Syntax.Nodes

/-!
# Where runtime errors point

A runtime error has the line of a token. The token belongs to the node at which the evaluation went wrong:
it is the operator, the name or the closing parenthesis of a node that can go wrong in this way. The node
may be far from the program that runs. A call runs a body that an earlier script left in a scope, so what
is carried through an evaluation is that the bodies of all function values, those in the scopes and those
on the way, are made of nodes from the scripts run so far.

## Main definitions

* `Expr.Raises`: the runtime errors that a node can be blamed for.
* `Value.Rooted`, `Session.Rooted`: no function value has a body with other nodes than these.
* `Eval.Blaming`: an evaluation with a node to blame for each of its runtime errors.

## Main statements

* `Eval.blaming`: trees of such nodes are evaluated with a node to blame.
* `Session.Ran.rooted`: scripts leave nothing behind that is not made of their nodes.
* `Session.runSource_blames`: the node to blame stands in one of the scripts run so far.
-/

namespace LoxScript

/-! ## Nodes to blame -/

/-- The operators that go wrong unless both operands are numbers. -/
def Expr.numericOperators : List Token.Kind :=
  [.minus, .slash, .star, .greater, .greaterEqual, .less, .lessEqual]

/-- `e.Raises error`: the error is of a kind that the node `e` itself can give rise to, and it has the
line of the token of `e` that the error is about. -/
inductive Expr.Raises : Expr → RuntimeError → Prop where
  | negative {op : Token} {operand : Expr} (hop : op.kind = .minus) :
      Raises (.unary op operand) ⟨.operandMustBeNumber, op.line⟩
  | numbers {op : Token} {left right : Expr} (hop : op.kind ∈ numericOperators) :
      Raises (.binary op left right) ⟨.operandsMustBeNumbers, op.line⟩
  | plus {op : Token} {left right : Expr} (hop : op.kind = .plus) :
      Raises (.binary op left right) ⟨.operandsMustBeNumbersOrStrings, op.line⟩
  | variable {name : Token} (hname : name.kind = .identifier) :
      Raises (.variable name) ⟨.undefinedVariable name.lexeme, name.line⟩
  | assign {name : Token} {value : Expr} (hname : name.kind = .identifier) :
      Raises (.assign name value) ⟨.undefinedVariable name.lexeme, name.line⟩
  | callee {callee : Expr} {paren : Token} {arguments : List Expr} (hparen : paren.kind = .rightParen) :
      Raises (.call callee paren arguments) ⟨.notCallable, paren.line⟩
  /-- The error says how many arguments are written in the call, which are not as many as it expects. -/
  | arity {callee : Expr} {paren : Token} {arguments : List Expr} {expected : Nat}
      (hparen : paren.kind = .rightParen) (hcount : expected ≠ arguments.length) :
      Raises (.call callee paren arguments) ⟨.arityMismatch expected arguments.length, paren.line⟩
  | native {callee : Expr} {paren : Token} {arguments : List Expr} (message : String)
      (hparen : paren.kind = .rightParen) :
      Raises (.call callee paren arguments) ⟨.native message, paren.line⟩

theorem Expr.WellFormed.paren {callee : Expr} {paren : Token} {arguments : List Expr}
    (h : (Expr.call callee paren arguments).WellFormed) : paren.kind = .rightParen := by
  cases h with
  | call _ hparen _ _ => exact hparen

/-! ## Values and sessions -/

/-- A function value of the session, or a declared function the body of which has nodes in `N` only. -/
def Function.Rooted (N : Expr → Prop) : Function → Prop
  | .native _ => True
  | .declared _ _ body _ => Expr.AllIn N (Stmt.nodesEach body)

/-- A value that is no function, or such a function. -/
def Value.Rooted (N : Expr → Prop) : Value → Prop
  | .function f => f.Rooted N
  | _ => True

/-- Such a result, or none. -/
def Completion.Rooted (N : Expr → Prop) : Completion → Prop
  | .normal => True
  | .returned v => v.Rooted N

/-- A native function makes rooted values of rooted arguments, and otherwise complains in its own
words. -/
structure Native.Honest (N : Expr → Prop) (native : Native) : Prop where
  value : ∀ answer, native.action = .compute answer → ∀ arguments v,
    (∀ a ∈ arguments, a.Rooted N) → answer arguments = .ok v → v.Rooted N
  problem : ∀ answer, native.action = .compute answer → ∀ arguments problem,
    answer arguments = .error problem → ∃ message, problem = .native message

/-- A session with the native functions `natives`, the function values of which have nodes in `N`
only. -/
structure Session.Rooted (natives : Array Native) (N : Expr → Prop) (s : Session) : Prop where
  scopes : s.scopes.AllValues (Value.Rooted N)
  natives : s.natives = natives

variable {N : Expr → Prop}

theorem Literal.value_rooted (a : Literal) : a.value.Rooted N := by
  cases a <;> trivial

theorem Completion.Rooted.value {c : Completion} (h : c.Rooted N) : c.value.Rooted N := by
  cases c with
  | normal => trivial
  | returned v => exact h

theorem Value.Rooted.imp {M : Expr → Prop} (hNM : ∀ e, N e → M e) {v : Value} (h : v.Rooted N) :
    v.Rooted M := by
  cases v with
  | function f =>
    cases f with
    | native index => trivial
    | declared object parameters body closure => exact fun e he => hNM e (h e he)
  | nil | bool | number | string => trivial

/-- With more nodes to choose from, a session is still rooted. -/
theorem Session.Rooted.imp {natives : Array Native} {M : Expr → Prop} {s : Session}
    (h : s.Rooted natives N) (hNM : ∀ e, N e → M e) : s.Rooted natives M :=
  ⟨h.scopes.imp fun _ => Value.Rooted.imp hNM, h.natives⟩

/-! ## Operators -/

namespace Operation

/-- If the operation has a value, it is rooted in `N`, and if it has a problem, that is one in
`Blamed`. -/
def Accountable (N : Expr → Prop) (Blamed : RuntimeError.Problem → Prop) (operation : Operation) :
    Prop :=
  (∀ v, operation = some (.ok v) → v.Rooted N) ∧
    ∀ problem, operation = some (.error problem) → Blamed problem

theorem accountable_unary (A : Arithmetic) (kind : Token.Kind) (v : Value) :
    Accountable N (fun problem => kind = .minus ∧ problem = .operandMustBeNumber)
      (.unary A kind v) := by
  unfold Operation.unary
  split
  · simp [Accountable, Value.Rooted]
  · cases v <;> simp [Accountable, negative, Value.Rooted]
  · simp [Accountable]

theorem accountable_onNumbers {Blamed : RuntimeError.Problem → Prop} {compute : Number → Number → Value}
    (hcompute : ∀ a b, (compute a b).Rooted N) (hblamed : Blamed .operandsMustBeNumbers)
    (v w : Value) : Accountable N Blamed (.onNumbers compute v w) := by
  unfold Operation.onNumbers
  split
  · simp [Accountable, hcompute]
  · simpa [Accountable] using hblamed

theorem accountable_binary (A : Arithmetic) (kind : Token.Kind) (v w : Value) :
    Accountable N (fun problem =>
        kind ∈ Expr.numericOperators ∧ problem = .operandsMustBeNumbers ∨
          kind = .plus ∧ problem = .operandsMustBeNumbersOrStrings)
      (.binary A kind v w) := by
  unfold Operation.binary
  split
  -- the sum is the one operator with a complaint of its own
  · unfold Operation.plus
    split <;> simp [Accountable, Value.Rooted]
  iterate 7
    · refine accountable_onNumbers ?_ ?_ v w
      · exact fun _ _ => trivial
      · exact .inl ⟨by simp [Expr.numericOperators], rfl⟩
  · simp [Accountable, Value.Rooted]
  · simp [Accountable, Value.Rooted]
  · simp [Accountable]

end Operation

/-! ## Elementary evaluations -/

namespace Eval

open Session

variable {α β : Type} {natives : Array Native}

/-- In a session that is rooted in `N`, `m` leaves such a session, ends with a value in `Q` if it ends
with one, and with a runtime error only if a node in `N` raises it. -/
def Blaming (natives : Array Native) (N : Expr → Prop) (Q : α → Prop) (m : Eval α) : Prop :=
  ∀ s : Session, s.Rooted natives N → (s.run m).2.Rooted natives N ∧
    (∀ a, (s.run m).1 = .ok a → Q a) ∧
    ∀ error, (s.run m).1 = .error (.runtime error) → ∃ e, N e ∧ e.Raises error

theorem blaming_pure {Q : α → Prop} {a : α} (h : Q a) : Blaming natives N Q (pure a) := by
  refine fun s hs => ⟨hs, ?_, by rintro _ ⟨⟩⟩
  rintro _ ⟨⟩
  exact h

theorem blaming_throw {Q : α → Prop} {stop : Stop} (h : ∀ error, stop ≠ .runtime error) :
    Blaming natives N Q (throw stop) := by
  refine fun s hs => ⟨hs, by rintro _ ⟨⟩, ?_⟩
  rintro error ⟨⟩
  exact absurd rfl (h error)

theorem blaming_raise {Q : α → Prop} {problem : RuntimeError.Problem} {t : Token} {e : Expr}
    (he : N e) (hraises : e.Raises ⟨problem, t.line⟩) : Blaming natives N Q (raise problem t) := by
  refine fun s hs => ⟨hs, by rintro _ ⟨⟩, ?_⟩
  rintro _ ⟨⟩
  exact ⟨e, he, hraises⟩

theorem Blaming.bind {Q : α → Prop} {P : β → Prop} {m : Eval α} {next : α → Eval β}
    (hm : Blaming natives N Q m) (hnext : ∀ a, Q a → Blaming natives N P (next a)) :
    Blaming natives N P (m >>= next) := by
  intro s hs
  obtain ⟨hleft, hvalue, herror⟩ := hm s hs
  rcases h : s.run m with ⟨stop | a, t⟩ <;> rw [h] at hleft hvalue herror
  -- the error of the first part travels on unchanged
  · rw [run_bind_of_error next h]
    refine ⟨hleft, by rintro _ ⟨⟩, ?_⟩
    rintro error ⟨⟩
    exact herror error rfl
  · rw [run_bind_of_ok next h]
    exact hnext a (hvalue a rfl) t hleft

theorem Blaming.inNewScope {Q : α → Prop} {m : Eval α} (hm : Blaming natives N Q m)
    (parent : ScopeId) : Blaming natives N Q (inNewScope parent m) := by
  intro s hs
  obtain ⟨hleft, hvalue, herror⟩ := hm (s.enter parent) ⟨hs.scopes.newChild parent, hs.natives⟩
  rw [run_inNewScope]
  exact ⟨⟨hleft.scopes, hleft.natives⟩, hvalue, herror⟩

theorem blaming_ofOperation {Blamed : RuntimeError.Problem → Prop} {operation : Operation}
    (h : operation.Accountable N Blamed) {e : Expr} (he : N e) {op : Token}
    (hraises : ∀ problem, Blamed problem → e.Raises ⟨problem, op.line⟩) :
    Blaming natives N (Value.Rooted N) (ofOperation op operation) := by
  rcases operation with - | problem | v
  · exact blaming_throw (by simp)
  · exact blaming_raise he (hraises problem (h.2 problem rfl))
  · exact blaming_pure (h.1 v rfl)

theorem blaming_lookup {name : Token} (he : N (.variable name)) (hname : name.kind = .identifier) :
    Blaming natives N (Value.Rooted N) (lookup name) := by
  intro s hs
  rw [run_lookup]
  cases h : s.scopes.get? s.active name.lexeme with
  | none =>
    refine ⟨hs, by rintro _ ⟨⟩, ?_⟩
    rintro _ ⟨⟩
    exact ⟨_, he, .variable hname⟩
  | some v =>
    refine ⟨hs, ?_, by rintro _ ⟨⟩⟩
    rintro _ ⟨⟩
    exact hs.scopes.get? h

theorem blaming_define (name : String) {v : Value} (hv : v.Rooted N) :
    Blaming natives N (fun _ => True) (define name v) :=
  fun s hs => ⟨⟨hs.scopes.define hv s.active name, hs.natives⟩, fun _ _ => trivial, by rintro _ ⟨⟩⟩

theorem blaming_assign {name : Token} {value : Expr} (he : N (.assign name value))
    (hname : name.kind = .identifier) {v : Value} (hv : v.Rooted N) :
    Blaming natives N (fun _ => True) (assign name v) := by
  intro s hs
  rw [run_assign]
  cases s.scopes.holder? name.lexeme s.active with
  | none =>
    refine ⟨hs, fun _ _ => trivial, ?_⟩
    rintro _ ⟨⟩
    exact ⟨_, he, .assign hname⟩
  | some holder =>
    exact ⟨⟨hs.scopes.define hv holder name.lexeme, hs.natives⟩, fun _ _ => trivial, by rintro _ ⟨⟩⟩

theorem blaming_makeFunction (name : Token) (parameters : List Token) {body : List Stmt}
    (hbody : Expr.AllIn N (Stmt.nodesEach body)) :
    Blaming natives N (Function.Rooted N) (makeFunction name parameters body) := by
  refine fun s hs => ⟨⟨hs.scopes, hs.natives⟩, ?_, by rintro _ ⟨⟩⟩
  rintro _ ⟨⟩
  exact hbody

theorem blaming_write (text : String) : Blaming natives N (fun _ => True) (write text) := by
  intro s hs
  rw [run_write]
  refine ⟨⟨hs.scopes, hs.natives⟩, fun _ _ => trivial, fun e h => ?_⟩
  -- a refusal is no runtime error
  split at h <;> cases h

theorem blaming_printLine (v : Value) : Blaming natives N (fun _ => True) (printLine v) :=
  (blaming_write _).bind fun _ _ => blaming_write _

theorem blaming_bindAll {parameters : List Token} {arguments : List Value}
    (harguments : ∀ a ∈ arguments, a.Rooted N) :
    Blaming natives N (fun _ => True) (bindAll parameters arguments) := by
  induction parameters generalizing arguments with
  | nil =>
    unfold bindAll
    exact blaming_pure trivial
  | cons parameter parameters ih =>
    cases arguments with
    | nil => exact blaming_pure trivial
    | cons a arguments =>
      obtain ⟨ha, harguments⟩ := List.forall_mem_cons.1 harguments
      exact (blaming_define parameter.lexeme ha).bind fun _ _ => ih harguments

section Calls

variable {callee : Expr} {paren : Token} {written : List Expr} {arguments : List Value}

/-- A native function has a value or a complaint of its own. Among the native functions that every
script may use, the clock has one when a reading fails. -/
theorem blaming_act {native : Native} (hnative : native.Honest N)
    (harguments : ∀ a ∈ arguments, a.Rooted N) :
    Blaming natives N
      (fun answer => Operation.Accountable N (fun problem => ∃ message, problem = .native message)
        (some answer))
      (act native.action arguments) := by
  intro s hs
  cases haction : native.action with
  | readClock =>
    refine ⟨⟨hs.scopes, hs.natives⟩, ?_, by rintro _ ⟨⟩⟩
    rintro _ ⟨⟩
    refine ⟨fun v hv => ?_, fun problem hproblem => ?_⟩
    · obtain ⟨time, rfl⟩ := Clock.eq_number_of_value (Option.some.inj hv)
      trivial
    · exact Clock.eq_native_of_value (Option.some.inj hproblem)
  | compute answer =>
    refine ⟨hs, ?_, by rintro _ ⟨⟩⟩
    rintro _ ⟨⟩
    exact ⟨fun v hv => hnative.value answer haction arguments v harguments (Option.some.inj hv),
      fun problem hproblem =>
        hnative.problem answer haction arguments problem (Option.some.inj hproblem)⟩

theorem blaming_answer {native : Native} (hnative : native.Honest N)
    (he : N (.call callee paren written)) (hparen : paren.kind = .rightParen)
    (harguments : ∀ a ∈ arguments, a.Rooted N) :
    Blaming natives N (Value.Rooted N) (answer native paren arguments) := by
  refine (blaming_act hnative harguments).bind fun answer hanswer =>
    blaming_ofOperation hanswer he ?_
  rintro problem ⟨message, rfl⟩
  exact .native message hparen

theorem blaming_callNative (hnatives : ∀ native ∈ natives, native.Honest N) (index : Nat)
    (he : N (.call callee paren written)) (hparen : paren.kind = .rightParen)
    (harguments : ∀ a ∈ arguments, a.Rooted N) (hcount : arguments.length = written.length) :
    Blaming natives N (Value.Rooted N) (callNative index paren arguments) := by
  intro s hs
  rw [run_callNative, hs.natives]
  cases hnative : natives[index]? with
  | none => exact ⟨hs, by rintro _ ⟨⟩, by rintro _ ⟨⟩⟩
  | some native =>
    dsimp only
    by_cases harity : arguments.length = native.arity
    · rw [if_pos harity]
      exact blaming_answer (hnatives native (Array.mem_of_getElem? hnative)) he hparen harguments s hs
    · rw [if_neg harity, hcount]
      rw [hcount] at harity
      refine ⟨hs, by rintro _ ⟨⟩, ?_⟩
      rintro _ ⟨⟩
      exact ⟨_, he, .arity hparen (Ne.symm harity)⟩

end Calls

/-! ## All evaluations -/

/-- Trees with nodes in `N` are evaluated under a bound with a node to blame for each error. A call is
one that is written in such a tree, with as many arguments as there are. -/
structure BlamesWithin (A : Arithmetic) (natives : Array Native) (N : Expr → Prop) (bound : Nat) :
    Prop where
  evaluate : ∀ {e : Expr}, Expr.AllIn N e.nodes →
    Blaming natives N (Value.Rooted N) (evaluate A bound e)
  evaluateEach : ∀ {es : List Expr}, Expr.AllIn N (Expr.nodesEach es) →
    Blaming natives N (fun vs => (∀ v ∈ vs, v.Rooted N) ∧ vs.length = es.length)
      (evaluateEach A bound es)
  call : ∀ {callee : Expr} {paren : Token} {written : List Expr} {f : Value} {arguments : List Value},
    N (.call callee paren written) → f.Rooted N → (∀ a ∈ arguments, a.Rooted N) →
    arguments.length = written.length →
    Blaming natives N (Value.Rooted N) (call A bound f paren arguments)
  execute : ∀ {s : Stmt}, Expr.AllIn N s.nodes →
    Blaming natives N (Completion.Rooted N) (execute A bound s)
  executeEach : ∀ {ss : List Stmt}, Expr.AllIn N (Stmt.nodesEach ss) →
    Blaming natives N (Completion.Rooted N) (executeEach A bound ss)

namespace BlamesWithin

variable {A : Arithmetic} {bound : Nat}

theorem evaluate_succ (h : BlamesWithin A natives N bound) (hN : ∀ e, N e → e.WellFormed) {e : Expr}
    (he : Expr.AllIn N e.nodes) :
    Blaming natives N (Value.Rooted N) (Eval.evaluate A (bound + 1) e) := by
  -- the root is there to be blamed, and the other nodes are those of the parts
  have hroot := he.root
  have hformed := hN e hroot
  cases e with
  | literal value => exact blaming_pure value.value_rooted
  | grouping inner => exact h.evaluate (Expr.allIn_cons.1 he).2
  | unary op operand =>
    refine (h.evaluate (Expr.allIn_cons.1 he).2).bind fun v _ => ?_
    refine blaming_ofOperation (Operation.accountable_unary A op.kind v) hroot ?_
    rintro _ ⟨hop, rfl⟩
    exact .negative hop
  | binary op left right =>
    obtain ⟨hleft, hright⟩ := Expr.allIn_append.1 (Expr.allIn_cons.1 he).2
    refine (h.evaluate hleft).bind fun v _ => (h.evaluate hright).bind fun w _ => ?_
    refine blaming_ofOperation (Operation.accountable_binary A op.kind v w) hroot ?_
    rintro _ (⟨hop, rfl⟩ | ⟨hop, rfl⟩)
    · exact .numbers hop
    · exact .plus hop
  | logical op left right =>
    obtain ⟨hleft, hright⟩ := Expr.allIn_append.1 (Expr.allIn_cons.1 he).2
    refine (h.evaluate hleft).bind fun v hv => ?_
    dsimp only
    generalize (if op.kind = .keyword .or then v.truthy else !v.truthy) = decided
    cases decided with
    | true => exact blaming_pure hv
    | false => exact h.evaluate hright
  | «variable» name =>
    cases hformed with
    | «variable» hname => exact blaming_lookup hroot hname
  | assign name value =>
    cases hformed with
    | assign hname _ =>
      exact (h.evaluate (Expr.allIn_cons.1 he).2).bind fun v hv =>
        (blaming_assign hroot hname hv).bind fun _ _ => blaming_pure hv
  | call callee paren arguments =>
    obtain ⟨hcallee, harguments⟩ := Expr.allIn_append.1 (Expr.allIn_cons.1 he).2
    -- there are as many values as arguments are written, which an error about their number will say
    exact (h.evaluate hcallee).bind fun f hf => (h.evaluateEach harguments).bind fun vs hvs =>
      h.call hroot hf hvs.1 hvs.2

theorem evaluateEach_succ (h : BlamesWithin A natives N bound) {es : List Expr}
    (hes : Expr.AllIn N (Expr.nodesEach es)) :
    Blaming natives N (fun vs => (∀ v ∈ vs, v.Rooted N) ∧ vs.length = es.length)
      (Eval.evaluateEach A (bound + 1) es) := by
  cases es with
  | nil => exact blaming_pure ⟨List.forall_mem_nil _, rfl⟩
  | cons e es =>
    obtain ⟨he, hes⟩ := Expr.allIn_append.1 hes
    refine (h.evaluate he).bind fun v hv => (h.evaluateEach hes).bind fun vs hvs => ?_
    exact blaming_pure ⟨List.forall_mem_cons.2 ⟨hv, hvs.1⟩, by simp [hvs.2]⟩

theorem call_succ (h : BlamesWithin A natives N bound) (hN : ∀ e, N e → e.WellFormed)
    (hnatives : ∀ native ∈ natives, native.Honest N) {callee : Expr} {paren : Token}
    {written : List Expr} {f : Value} {arguments : List Value} (he : N (.call callee paren written))
    (hf : f.Rooted N) (harguments : ∀ a ∈ arguments, a.Rooted N)
    (hcount : arguments.length = written.length) :
    Blaming natives N (Value.Rooted N) (Eval.call A (bound + 1) f paren arguments) := by
  have hparen := (hN _ he).paren
  unfold Eval.call
  split
  · rename_i parameters body closure
    by_cases harity : arguments.length = parameters.length
    · rw [if_pos harity]
      -- the body is that of a declaration in a script run so far, as all bodies are
      refine Blaming.inNewScope ?_ closure
      exact (blaming_bindAll harguments).bind fun _ _ => (h.executeEach hf).bind fun _ hc =>
        blaming_pure hc.value
    · rw [if_neg harity, hcount]
      rw [hcount] at harity
      exact blaming_raise he (.arity hparen (Ne.symm harity))
  · exact blaming_callNative hnatives _ he hparen harguments hcount
  · exact blaming_raise he (.callee hparen)

theorem execute_succ (h : BlamesWithin A natives N bound) {s : Stmt} (hs : Expr.AllIn N s.nodes) :
    Blaming natives N (Completion.Rooted N) (Eval.execute A (bound + 1) s) := by
  cases s with
  | expression value => exact (h.evaluate hs).bind fun _ _ => blaming_pure trivial
  | print value =>
    exact (h.evaluate hs).bind fun v _ => (blaming_printLine v).bind fun _ _ => blaming_pure trivial
  | var name initial =>
    cases initial with
    | none => exact (blaming_define name.lexeme (v := .nil) trivial).bind fun _ _ => blaming_pure trivial
    | some e =>
      exact (h.evaluate hs).bind fun _ hv => (blaming_define name.lexeme hv).bind fun _ _ =>
        blaming_pure trivial
  | block body => exact fun s hrooted => (h.executeEach hs).inNewScope s.active s hrooted
  | ifThen condition body =>
    obtain ⟨hcondition, hbody⟩ := Expr.allIn_append.1 hs
    refine (h.evaluate hcondition).bind fun v _ => ?_
    split
    · exact h.execute hbody
    · exact blaming_pure trivial
  | ifElse condition body otherwise =>
    obtain ⟨hcondition, hbranches⟩ := Expr.allIn_append.1 hs
    obtain ⟨hbody, hotherwise⟩ := Expr.allIn_append.1 hbranches
    refine (h.evaluate hcondition).bind fun v _ => ?_
    split
    · exact h.execute hbody
    · exact h.execute hotherwise
  | loop condition body =>
    obtain ⟨hcondition, hbody⟩ := Expr.allIn_append.1 hs
    refine (h.evaluate hcondition).bind fun v _ => ?_
    split
    · refine (h.execute hbody).bind fun c hc => ?_
      cases c with
      -- the next turn is the same loop, with the same nodes
      | normal => exact h.execute hs
      | returned v => exact blaming_pure hc
    · exact blaming_pure trivial
  | function name parameters body =>
    exact (blaming_makeFunction name parameters hs).bind fun f hf =>
      (blaming_define name.lexeme (v := .function f) hf).bind fun _ _ => blaming_pure trivial
  | result keyword value =>
    cases value with
    | none => exact blaming_pure (a := Completion.returned .nil) trivial
    -- a function value leaves its call by a result, with its body
    | some e => exact (h.evaluate hs).bind fun v hv => blaming_pure (a := Completion.returned v) hv

theorem executeEach_succ (h : BlamesWithin A natives N bound) {ss : List Stmt}
    (hss : Expr.AllIn N (Stmt.nodesEach ss)) :
    Blaming natives N (Completion.Rooted N) (Eval.executeEach A (bound + 1) ss) := by
  cases ss with
  | nil => exact blaming_pure (a := Completion.normal) trivial
  | cons s ss =>
    obtain ⟨hs, hss⟩ := Expr.allIn_append.1 hss
    refine (h.execute hs).bind fun c hc => ?_
    cases c with
    -- the statements behind run in the session that this one left, which is rooted again
    | normal => exact h.executeEach hss
    | returned v => exact blaming_pure hc

end BlamesWithin

/-- Trees of well formed nodes are evaluated with a node to blame for each error, whatever the
bound. -/
theorem blaming (A : Arithmetic) (hN : ∀ e, N e → e.WellFormed)
    (hnatives : ∀ native ∈ natives, native.Honest N) (bound : Nat) :
    BlamesWithin A natives N bound := by
  induction bound with
  | zero => constructor <;> intros <;> exact blaming_throw (by simp)
  | succ bound ih =>
    exact ⟨ih.evaluate_succ hN, ih.evaluateEach_succ, ih.call_succ hN hnatives, ih.execute_succ,
      ih.executeEach_succ⟩

end Eval

/-! ## Scripts -/

/-- The expression occurs in the program of one of the scripts. -/
def Expr.OccursIn (A : Arithmetic) (sources : List String) (e : Expr) : Prop :=
  ∃ source ∈ sources, ∃ p, Program.ofSource A source = .ok p ∧ e ∈ p.nodes

namespace Session

variable {A : Arithmetic} {sources : List String} {s : Session}

theorem builtins_honest : ∀ native ∈ builtins, native.Honest N := by
  intro native hnative
  obtain rfl := List.mem_singleton.1 (Array.mem_def.1 hnative)
  constructor <;> rintro answer ⟨⟩

theorem start_rooted (clock : Clock) (sink : Sink) : (start clock sink).Rooted builtins N :=
  ⟨Scopes.AllValues.newRoot_empty.define (v := .function (.native 0)) trivial globals "clock", rfl⟩

/-- A script leaves nothing behind but bodies of its own nodes and of those there were, and one of these
nodes is to blame if it stops at a runtime error. -/
theorem Rooted.runSource (hs : s.Rooted builtins (Expr.OccursIn A sources)) (bound : Nat)
    (source : String) :
    (s.runSource A bound source).2.Rooted builtins (Expr.OccursIn A (source :: sources)) ∧
      ∀ error, (s.runSource A bound source).1 = .error (.stopped (.runtime error)) →
        ∃ e, Expr.OccursIn A (source :: sources) e ∧ e.Raises error := by
  -- what was there before stays rooted in the scripts before
  have hs : s.Rooted builtins (Expr.OccursIn A (source :: sources)) :=
    hs.imp fun e ⟨text, htext, hoccurs⟩ => ⟨text, List.mem_cons_of_mem _ htext, hoccurs⟩
  have hformed : ∀ e, Expr.OccursIn A (source :: sources) e → e.WellFormed :=
    fun e ⟨text, htext, p, hp, he⟩ => (Program.derived_of_ofSource hp he).wellFormed
  unfold Session.runSource
  cases hp : Program.ofSource A source with
  | error reason => exact ⟨hs, by simp⟩
  | ok p =>
    have hnodes : Expr.AllIn (Expr.OccursIn A (source :: sources)) (Stmt.nodesEach p) :=
      fun e he => ⟨source, List.mem_cons_self .., p, hp, he⟩
    obtain ⟨hleft, -, herror⟩ :=
      (Eval.blaming A hformed builtins_honest bound).executeEach hnodes s hs
    dsimp only
    rw [interpret_eq]
    refine ⟨hleft, fun error h => herror error ?_⟩
    generalize (s.run (Eval.executeEach A bound p)).1 = o at h
    cases o with
    | ok c => simp [ended] at h
    | error stop => simpa [ended] using h

/-- The bodies of all functions that scripts have left behind are made of nodes of these scripts. -/
theorem Ran.rooted (h : Ran A sources s) : s.Rooted builtins (Expr.OccursIn A sources) := by
  induction h with
  | start clock sink => exact start_rooted clock sink
  | runSource _ bound source ih => exact (ih.runSource bound source).1

/-- A runtime error points at the node that failed: in one of the scripts run so far there is a node of
the right kind with the line of the error. -/
theorem runSource_blames (hs : Ran A sources s) {bound : Nat} {source : String} {error : RuntimeError}
    (h : (s.runSource A bound source).1 = .error (.stopped (.runtime error))) :
    ∃ text ∈ source :: sources, ∃ p, Program.ofSource A text = .ok p ∧
      ∃ e ∈ p.nodes, e.Raises error := by
  obtain ⟨e, ⟨text, htext, p, hp, he⟩, hraises⟩ := (hs.rooted.runSource bound source).2 error h
  exact ⟨text, htext, p, hp, e, he, hraises⟩

/-- A clock before its epoch, read in a function from an earlier script. The call on line 1 of the second
script does not show where the reading failed. -/
theorem runSource_blames_earlier :
    let first := "fun f() \x7b return\nclock(); \x7d"
    let s := ((start (.sinceEpoch .binary64 (-1)) .unlimited).runSource .binary64 9 first).2
    let error : RuntimeError := ⟨.native "Clock error: second time provided was later than self", 2⟩
    Ran .binary64 [first] s ∧
      (s.runSource .binary64 9 "f();").1 = .error (.stopped (.runtime error)) ∧
      ∃ text ∈ ["f();", first], ∃ p, Program.ofSource .binary64 text = .ok p ∧
        ∃ e ∈ p.nodes, e.Raises error := by
  intro first s error
  have hfirst : Scan.ofSource .binary64 first =
      ⟨[⟨.keyword .fun, "fun", 1⟩, ⟨.identifier, "f", 1⟩, ⟨.leftParen, "(", 1⟩,
        ⟨.rightParen, ")", 1⟩, ⟨.leftBrace, "\x7b", 1⟩, ⟨.keyword .return, "return", 1⟩,
        ⟨.identifier, "clock", 2⟩, ⟨.leftParen, "(", 2⟩, ⟨.rightParen, ")", 2⟩, ⟨.semicolon, ";", 2⟩,
        ⟨.rightBrace, "\x7d", 2⟩, Token.ending 2], []⟩ := by decide +kernel
  have hsecond : Scan.ofSource .binary64 "f();" =
      ⟨[⟨.identifier, "f", 1⟩, ⟨.leftParen, "(", 1⟩, ⟨.rightParen, ")", 1⟩, ⟨.semicolon, ";", 1⟩,
        Token.ending 1], []⟩ := by decide +kernel
  have hran : Ran .binary64 [first] s := (Ran.start _ _).runSource 9 first
  have hstop : (s.runSource .binary64 9 "f();").1 = .error (.stopped (.runtime error)) := by
    simp only [s, Session.runSource, Program.ofSource, hfirst, hsecond]
    rfl
  exact ⟨hran, hstop, runSource_blames hran hstop⟩

end Session

end LoxScript
