import LoxScript.Proofs.Evaluation.Changes

/-!
# Results as jumps

A `return` ends the call in progress at once. Evaluation tells this in small steps: the statement ends at a
result, every statement around it passes the result on and leaves its scope, and the call takes it for its
value. The evaluator here tells it in one step. Everything is evaluated together with what is to be done
next, and a `return` does not go on with that. It jumps to where the innermost call in progress lands, back in
the scope of the caller and with what the caller does next. An error jumps too, to where the whole run ends.

Both evaluators agree. A statement that ends at a result therefore has no other effect on what follows than
that of the jump: neither what stands behind it nor any test or turn of a loop around it comes to be executed,
whatever these would do.

## Main definitions

* `Landing`: where a jump leads.
* `Jump.evaluate`, `Jump.execute`, `Jump.call`: expressions, statements and calls, with what comes next.
* `Session.interpretJumping`: a program, run in this way.

## Main statements

* `Jump.agreeing`: everything comes to what it does without jumps, and goes on from there.
* `Session.run_jumping`: both evaluators agree, on programs and wherever a jump may lead.
-/

namespace LoxScript

/-- Where a jump leads: the scope to be active there, and what is done from there on. -/
structure Landing (α Ω : Type) where
  /-- The scope in which things go on. -/
  active : ScopeId
  /-- How they go on. -/
  goOn : α → Session → Ω

/-- Leaves all scopes that were entered since and goes on at a landing. -/
def Landing.jump {α Ω : Type} (landing : Landing α Ω) (a : α) (s : Session) : Ω :=
  landing.goOn a { s with active := landing.active }

namespace Jump

variable {α β Ω : Type}

/-- An elementary evaluation, with what is done next and where errors lead. -/
def step (stops : Landing Stop Ω) (m : Eval α) (next : α → Session → Ω) (s : Session) : Ω :=
  match s.run m with
  | (.ok a, t) => next a t
  | (.error stop, t) => stops.jump stop t

mutual

/-- Evaluates an expression and goes on with its value. -/
def evaluate (A : Arithmetic) (stops : Landing Stop Ω) :
    (bound : Nat) → Expr → (next : Value → Session → Ω) → Session → Ω
  | 0, _, _ => stops.jump .exhausted
  | _ + 1, .literal value, next => next value.value
  | bound + 1, .grouping inner, next => evaluate A stops bound inner next
  | bound + 1, .unary operator operand, next =>
    evaluate A stops bound operand fun value =>
      step stops (Eval.ofOperation operator (.unary A operator.kind value)) next
  | bound + 1, .binary operator left right, next =>
    evaluate A stops bound left fun a => evaluate A stops bound right fun b =>
      step stops (Eval.ofOperation operator (.binary A operator.kind a b)) next
  | bound + 1, .logical operator left right, next =>
    evaluate A stops bound left fun value =>
      let decided := if operator.kind = .keyword .or then value.truthy else !value.truthy
      if decided then next value else evaluate A stops bound right next
  | _ + 1, .variable name, next => step stops (Eval.lookup name) next
  | bound + 1, .assign name value, next =>
    evaluate A stops bound value fun value =>
      step stops (Eval.assign name value) fun _ => next value
  | bound + 1, .call callee paren arguments, next =>
    evaluate A stops bound callee fun callee => evaluateEach A stops bound arguments fun arguments =>
      call A stops bound callee paren arguments next

/-- Evaluates expressions from left to right and goes on with their values. -/
def evaluateEach (A : Arithmetic) (stops : Landing Stop Ω) :
    (bound : Nat) → List Expr → (next : List Value → Session → Ω) → Session → Ω
  | 0, _, _ => stops.jump .exhausted
  | _ + 1, [], next => next []
  | bound + 1, e :: es, next =>
    evaluate A stops bound e fun value => evaluateEach A stops bound es fun values =>
      next (value :: values)

/-- Calls a value and goes on with its result. -/
def call (A : Arithmetic) (stops : Landing Stop Ω) :
    (bound : Nat) → Value → Token → List Value → (next : Value → Session → Ω) → Session → Ω
  | 0, _, _, _, _ => stops.jump .exhausted
  | bound + 1, callee, paren, arguments, next => fun s =>
    match callee with
    | .function (.declared _ parameters body closure) =>
      if arguments.length = parameters.length then
        -- this call is the innermost one in its body, and the end of the body is a result as well
        let returns : Landing Value Ω := ⟨s.active, next⟩
        step stops (Eval.bindAll parameters arguments)
          (fun _ => executeEach A stops bound returns body (returns.jump .nil)) (s.enter closure)
      else step stops (Eval.raise (.arityMismatch parameters.length arguments.length) paren) next s
    | .function (.native index) => step stops (Eval.callNative index paren arguments) next s
    | _ => step stops (Eval.raise .notCallable paren) next s

/-- Executes a statement and goes on behind it, or where the innermost call in progress returns to. -/
def execute (A : Arithmetic) (stops : Landing Stop Ω) :
    (bound : Nat) → (returns : Landing Value Ω) → Stmt → (next : Session → Ω) → Session → Ω
  | 0, _, _, _ => stops.jump .exhausted
  | bound + 1, _, .expression value, next => evaluate A stops bound value fun _ => next
  | bound + 1, _, .print value, next =>
    evaluate A stops bound value fun value => step stops (Eval.printLine value) fun _ => next
  | _ + 1, _, .var name none, next => step stops (Eval.define name.lexeme .nil) fun _ => next
  | bound + 1, _, .var name (some initial), next =>
    evaluate A stops bound initial fun value =>
      step stops (Eval.define name.lexeme value) fun _ => next
  | bound + 1, returns, .block body, next => fun s =>
    -- only the way out at the end of the block comes by here
    executeEach A stops bound returns body (fun t => next { t with active := s.active })
      (s.enter s.active)
  | bound + 1, returns, .ifThen condition body, next =>
    evaluate A stops bound condition fun value =>
      if value.truthy then execute A stops bound returns body next else next
  | bound + 1, returns, .ifElse condition body otherwise, next =>
    evaluate A stops bound condition fun value =>
      if value.truthy then execute A stops bound returns body next
      else execute A stops bound returns otherwise next
  | bound + 1, returns, .loop condition body, next =>
    evaluate A stops bound condition fun value =>
      if value.truthy then
        execute A stops bound returns body
          (execute A stops bound returns (.loop condition body) next)
      else next
  | _ + 1, _, .function name parameters body, next =>
    step stops (Eval.makeFunction name parameters body) fun function =>
      step stops (Eval.define name.lexeme (.function function)) fun _ => next
  | _ + 1, returns, .result _ none, _ => returns.jump .nil
  | bound + 1, returns, .result _ (some value), _ => evaluate A stops bound value returns.jump

/-- Executes statements one after the other and goes on behind the last. -/
def executeEach (A : Arithmetic) (stops : Landing Stop Ω) :
    (bound : Nat) → (returns : Landing Value Ω) → List Stmt → (next : Session → Ω) → Session → Ω
  | 0, _, _, _ => stops.jump .exhausted
  | _ + 1, _, [], next => next
  | bound + 1, returns, s :: ss, next =>
    execute A stops bound returns s (executeEach A stops bound returns ss next)

end

/-! ## Agreement -/

/-- What follows a statement that ends in some way. -/
def after (returns : Landing Value Ω) (next : Session → Ω) : Completion → Session → Ω
  | .normal => next
  | .returned value => returns.jump value

/-- A scope that a statement leaves at its end does not matter to a jump. -/
theorem after_leave (returns : Landing Value Ω) (next : Session → Ω) (active : ScopeId) :
    after returns (fun t => next { t with active := active }) =
      fun c t => after returns next c { t with active := active } := by
  funext c
  cases c <;> rfl

variable {A : Arithmetic} {stops : Landing Stop Ω} {bound : Nat}

theorem step_pure (a : α) (next : α → Session → Ω) : step stops (pure a) next = next a := rfl

theorem step_bind (m : Eval α) (f : α → Eval β) (next : β → Session → Ω) :
    step stops (m >>= f) next = step stops m fun a => step stops (f a) next := by
  funext s
  unfold step
  rw [Session.run_bind]
  rcases s.run m with ⟨_ | _, t⟩ <;> rfl

theorem step_ite (c : Prop) [Decidable c] (m m' : Eval α) (next : α → Session → Ω) :
    step stops (if c then m else m') next = if c then step stops m next else step stops m' next := by
  split <;> rfl

/-- Behind a new scope the scope before is active again. -/
theorem step_inNewScope (parent : ScopeId) (m : Eval α) (next : α → Session → Ω) (s : Session) :
    step stops (Eval.inNewScope parent m) next s =
      step stops m (fun a t => next a { t with active := s.active }) (s.enter parent) := by
  unfold step
  rw [Session.run_inNewScope]
  -- a jump leaves the scope in any case
  rcases (s.enter parent).run m with ⟨_ | _, t⟩ <;> rfl

/-- A new scope inside the active one. -/
theorem step_inActiveScope (m : Eval α) (next : α → Session → Ω) (s : Session) :
    step stops (do Eval.inNewScope (← get).active m) next s =
      step stops m (fun a t => next a { t with active := s.active }) (s.enter s.active) :=
  step_inNewScope s.active m next s

/-- With jumps everything comes to what it does without, and goes on from there. -/
structure Agreeing (A : Arithmetic) (stops : Landing Stop Ω) (bound : Nat) : Prop where
  evaluate : ∀ e next, evaluate A stops bound e next = step stops (Eval.evaluate A bound e) next
  evaluateEach : ∀ es next,
    evaluateEach A stops bound es next = step stops (Eval.evaluateEach A bound es) next
  call : ∀ callee paren arguments next, call A stops bound callee paren arguments next =
    step stops (Eval.call A bound callee paren arguments) next
  execute : ∀ returns statement next, execute A stops bound returns statement next =
    step stops (Eval.execute A bound statement) (after returns next)
  executeEach : ∀ returns statements next, executeEach A stops bound returns statements next =
    step stops (Eval.executeEach A bound statements) (after returns next)

namespace Agreeing

variable (h : Agreeing A stops bound)

include h

theorem evaluate_succ (e : Expr) (next : Value → Session → Ω) :
    Jump.evaluate A stops (bound + 1) e next = step stops (Eval.evaluate A (bound + 1) e) next := by
  cases e with
  | literal value => rfl
  | grouping inner => exact h.evaluate inner next
  | unary operator operand =>
    rw [Jump.evaluate, h.evaluate, Eval.evaluate, step_bind]
  | binary operator left right =>
    simp only [Jump.evaluate, h.evaluate, Eval.evaluate, step_bind]
  | logical operator left right =>
    simp only [Jump.evaluate, h.evaluate, Eval.evaluate, step_bind, step_ite, step_pure]
  | «variable» name => rfl
  | assign name value =>
    simp only [Jump.evaluate, h.evaluate, Eval.evaluate, step_bind, step_pure]
  | call callee paren arguments =>
    simp only [Jump.evaluate, h.evaluate, h.evaluateEach, h.call, Eval.evaluate, step_bind]

theorem evaluateEach_succ (es : List Expr) (next : List Value → Session → Ω) :
    Jump.evaluateEach A stops (bound + 1) es next =
      step stops (Eval.evaluateEach A (bound + 1) es) next := by
  cases es with
  | nil => rfl
  | cons e es =>
    simp only [Jump.evaluateEach, h.evaluate, h.evaluateEach, Eval.evaluateEach, step_bind, step_pure]

/-- The result of a call is what the jump carries, or nil at the end of the body. -/
theorem call_succ (callee : Value) (paren : Token) (arguments : List Value)
    (next : Value → Session → Ω) :
    Jump.call A stops (bound + 1) callee paren arguments next =
      step stops (Eval.call A (bound + 1) callee paren arguments) next := by
  cases callee with
  | function f =>
    cases f with
    | native index => rfl
    | declared object parameters body closure =>
      funext s
      unfold Jump.call Eval.call
      dsimp only
      rw [step_ite]
      split
      · simp only [h.executeEach, step_inNewScope, step_bind, step_pure]
        -- where the body ends, both go on in the scope of the caller
        congr
        funext _
        congr
        funext c
        cases c <;> rfl
      · rfl
  | nil | bool | number | string => rfl

theorem execute_succ (returns : Landing Value Ω) (statement : Stmt) (next : Session → Ω) :
    Jump.execute A stops (bound + 1) returns statement next =
      step stops (Eval.execute A (bound + 1) statement) (after returns next) := by
  cases statement with
  | expression value => simp only [Jump.execute, h.evaluate, Eval.execute, step_bind, step_pure, after]
  | print value => simp only [Jump.execute, h.evaluate, Eval.execute, step_bind, step_pure, after]
  | var name initial =>
    cases initial <;>
      simp only [Jump.execute, h.evaluate, Eval.execute, step_bind, step_pure, after]
  | block body =>
    funext s
    simp only [Jump.execute, h.executeEach, Eval.execute, step_inActiveScope, after_leave]
  | ifThen condition body =>
    simp only [Jump.execute, h.evaluate, h.execute, Eval.execute, step_bind, step_ite, step_pure, after]
  | ifElse condition body otherwise =>
    simp only [Jump.execute, h.evaluate, h.execute, Eval.execute, step_bind, step_ite]
  | loop condition body =>
    simp only [Jump.execute, h.evaluate, h.execute, Eval.execute, step_bind, step_ite, step_pure, after]
    congr
    funext value
    congr
    -- a result of the body ends the loop as well
    funext c
    cases c <;> rfl
  | function name parameters body =>
    simp only [Jump.execute, Eval.execute, step_bind, step_pure, after]
  | result keyword value =>
    cases value with
    | none => rfl
    | some e =>
      rw [Jump.execute, h.evaluate, Eval.execute, step_bind]
      rfl

theorem executeEach_succ (returns : Landing Value Ω) (statements : List Stmt)
    (next : Session → Ω) :
    Jump.executeEach A stops (bound + 1) returns statements next =
      step stops (Eval.executeEach A (bound + 1) statements) (after returns next) := by
  cases statements with
  | nil => rfl
  | cons s ss =>
    simp only [Jump.executeEach, h.execute, h.executeEach, Eval.executeEach, step_bind]
    congr
    funext c
    cases c <;> rfl

end Agreeing

/-- The two evaluators agree at each bound. -/
theorem agreeing (A : Arithmetic) (stops : Landing Stop Ω) (bound : Nat) : Agreeing A stops bound := by
  induction bound with
  | zero => constructor <;> intros <;> rfl
  | succ bound ih =>
    exact ⟨ih.evaluate_succ, ih.evaluateEach_succ, ih.call_succ, ih.execute_succ, ih.executeEach_succ⟩

end Jump

namespace Session

/-- Runs statements in the active scope, with jumps. An error leads behind them, and so does a result that
stands outside of all calls. -/
def interpretJumping (A : Arithmetic) (bound : Nat) (program : Program) (s : Session) :
    Except Failure Unit × Session :=
  Jump.executeEach A ⟨s.active, fun stop t => (.error (.stopped stop), t)⟩ bound
    ⟨s.active, fun _ t => (.ok (), t)⟩ program (fun t => (.ok (), t)) s

variable {A : Arithmetic} {bound : Nat}

theorem setActive_eq_of_run {s t : Session} {program : Program} {o : Except Stop Completion}
    (h : s.run (Eval.executeEach A bound program) = (o, t)) : { t with active := s.active } = t := by
  have hactive := (s.changes_executeEach (A := A) bound program).active
  rw [h] at hactive
  rw [← hactive]

/-- A program ends in the same way, and leaves the same session, with jumps and without. -/
theorem interpretJumping_eq (s : Session) (program : Program) :
    s.interpretJumping A bound program = s.interpret A bound program := by
  unfold interpretJumping interpret
  rw [(Jump.agreeing A _ bound).executeEach]
  unfold Jump.step
  rcases h : s.run (Eval.executeEach A bound program) with ⟨_ | _ | _, t⟩
  -- wherever the jump comes from, the scope that it goes back to is active again
  · exact Prod.ext rfl (setActive_eq_of_run h)
  · rfl
  · exact Prod.ext rfl (setActive_eq_of_run h)

/-- A `return` is a jump to where the innermost call in progress lands. Running programs with such jumps is
running them as they are run: the output, the scopes, the active scope and the end are the same. Whatever is
done next, and wherever jumps lead,

* an expression, and a call, goes on with its value or stops, so that a result ends no call but its own;
* a statement, and statements in a row, go on behind themselves, or jump with the value of a result, or stop.
  Nothing that comes next is done where they end at a result. -/
theorem run_jumping (A : Arithmetic) (bound : Nat) :
    (∀ (program : Program) (s : Session),
      s.interpretJumping A bound program = s.interpret A bound program) ∧
    ∀ {Ω : Type} (stops : Landing Stop Ω) (s : Session),
      (∀ e next, Jump.evaluate A stops bound e next s =
        match s.run (Eval.evaluate A bound e) with
        | (.ok v, t) => next v t
        | (.error stop, t) => stops.jump stop t) ∧
      (∀ callee paren arguments next, Jump.call A stops bound callee paren arguments next s =
        match s.run (Eval.call A bound callee paren arguments) with
        | (.ok v, t) => next v t
        | (.error stop, t) => stops.jump stop t) ∧
      (∀ returns statement next, Jump.execute A stops bound returns statement next s =
        match s.run (Eval.execute A bound statement) with
        | (.ok .normal, t) => next t
        | (.ok (.returned v), t) => returns.jump v t
        | (.error stop, t) => stops.jump stop t) ∧
      ∀ returns statements next, Jump.executeEach A stops bound returns statements next s =
        match s.run (Eval.executeEach A bound statements) with
        | (.ok .normal, t) => next t
        | (.ok (.returned v), t) => returns.jump v t
        | (.error stop, t) => stops.jump stop t := by
  refine ⟨fun program s => s.interpretJumping_eq program, fun stops s => ?_⟩
  -- one agreement for all bounds, read once for each sort of evaluation
  have hagreeing := Jump.agreeing A stops bound
  refine ⟨fun e next => ?_, fun callee paren arguments next => ?_, fun returns statement next => ?_,
    fun returns statements next => ?_⟩
  · rw [hagreeing.evaluate, Jump.step]
    rcases s.run (Eval.evaluate A bound e) with ⟨_ | _, t⟩ <;> rfl
  · rw [hagreeing.call, Jump.step]
    rcases s.run (Eval.call A bound callee paren arguments) with ⟨_ | _, t⟩ <;> rfl
  · rw [hagreeing.execute, Jump.step]
    rcases s.run (Eval.execute A bound statement) with ⟨_ | _ | _, t⟩ <;> rfl
  · rw [hagreeing.executeEach, Jump.step]
    rcases s.run (Eval.executeEach A bound statements) with ⟨_ | _ | _, t⟩ <;> rfl

end Session

end LoxScript
