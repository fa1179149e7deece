import LoxScript.Proofs.Evaluation.Elementary

/-!
# The moments of an evaluation

An evaluation goes through many sessions between the one that it begins with and the one that it leaves. To
say something about all of these, evaluations are taken apart: what is to be evaluated, executed or called is
a task, and a task has a plan, of elementary steps and of further tasks, some of them in a new scope. Plans are
carried out one level deep at a time, and that is what evaluation does.

A moment is a session together with all values that the evaluations in progress hold at that time. They are
not in any scope yet, or no more: the operands that others are still waited for, the arguments of a call, the
function that is called, a result on its way back. The moments of a plan are those before and after each step
and each task in it, and those of the plans of these tasks.

## Main definitions

* `Task`, `Plan`, `Task.plan`: what is to be done, and how it is done.
* `Moment`, `Plan.Visits`: the moments at which a plan is carried out.

## Main statements

* `Task.eval_succ`: evaluation is what carries out the plans.
-/

namespace LoxScript

/-- The results that evaluations have, by the values in them. -/
class Holds (α : Type) where
  /-- The values in a result. -/
  values : α → List Value

instance : Holds Value := ⟨fun v => [v]⟩

instance : Holds (List Value) := ⟨fun vs => vs⟩

instance : Holds Function := ⟨fun f => [.function f]⟩

instance : Holds Unit := ⟨fun _ => []⟩

instance : Holds Completion where
  values
    | .normal => []
    | .returned v => [v]

instance : Holds (Except RuntimeError.Problem Value) where
  values
    | .ok v => [v]
    | .error _ => []

theorem Holds.mem_values_answer {answer : Except RuntimeError.Problem Value} {v : Value} :
    v ∈ Holds.values answer ↔ answer = .ok v := by
  cases answer <;> simp [Holds.values, eq_comm]

/-- The values in the outcome of an evaluation, which has none if it stopped. -/
def Outcome.values {α : Type} [Holds α] : Except Stop α → List Value
  | .ok a => Holds.values a
  | .error _ => []

/-- What is to be done. -/
inductive Task : Type → Type where
  | evaluate (e : Expr) : Task Value
  | evaluateEach (es : List Expr) : Task (List Value)
  | call (callee : Value) (paren : Token) (arguments : List Value) : Task Value
  | execute (statement : Stmt) : Task Completion
  | executeEach (statements : List Stmt) : Task Completion

/-- How something is done. -/
inductive Plan : Type → Type 1 where
  /-- By an elementary evaluation. The values `kept` are held until it is done. -/
  | step {α : Type} [Holds α] (kept : List Value) (m : Eval α) : Plan α
  /-- By a task. The values `kept` are held until it is done. -/
  | task {α : Type} [Holds α] (kept : List Value) (t : Task α) : Plan α
  /-- One thing after the other. -/
  | bind {α β : Type} (first : Plan α) (next : α → Plan β) : Plan β
  /-- In a new scope. -/
  | within {α : Type} (parent : Session → ScopeId) (inner : Plan α) : Plan α

variable {α β : Type} {A : Arithmetic} {bound : Nat}

namespace Task

/-- The values that a task is given. -/
def values : Task α → List Value
  | .call callee _ arguments => callee :: arguments
  | .evaluate _ | .evaluateEach _ | .execute _ | .executeEach _ => []

/-- The evaluation that does a task. -/
def eval (A : Arithmetic) (bound : Nat) : Task α → Eval α
  | .evaluate e => Eval.evaluate A bound e
  | .evaluateEach es => Eval.evaluateEach A bound es
  | .call callee paren arguments => Eval.call A bound callee paren arguments
  | .execute statement => Eval.execute A bound statement
  | .executeEach statements => Eval.executeEach A bound statements

end Task

namespace Plan

/-- The end of a plan. -/
def done [Holds α] (a : α) : Plan α := .step [] (pure a)

/-- Binds parameters to arguments, from left to right. The values `kept` are held meanwhile, and so are the
arguments that still have no name. -/
def bindings (kept : List Value) : List Token → List Value → Plan Unit
  | parameter :: parameters, argument :: arguments =>
    .bind (.step (argument :: arguments ++ kept) (Eval.define parameter.lexeme argument)) fun _ =>
      bindings kept parameters arguments
  | _, _ => .done ()

/-- What is evaluated if a plan is carried out, with the given bound for the tasks in it. -/
def realize (A : Arithmetic) (bound : Nat) : {α : Type} → Plan α → Eval α
  | _, @step _ _ _ m => m
  | _, @task _ _ _ t => t.eval A bound
  | _, .bind first next => first.realize A bound >>= fun a => (next a).realize A bound
  | _, .within parent inner => do Eval.inNewScope (parent (← get)) (inner.realize A bound)

end Plan

namespace Task

open Plan

/-- How an expression is evaluated. -/
def planEvaluate (A : Arithmetic) : Expr → Plan Value
  | .literal value => done value.value
  | .grouping inner => .task [] (.evaluate inner)
  | .unary operator operand =>
    .bind (.task [] (.evaluate operand)) fun value =>
      .step [value] (Eval.ofOperation operator (.unary A operator.kind value))
  | .binary operator left right =>
    .bind (.task [] (.evaluate left)) fun a =>
      .bind (.task [a] (.evaluate right)) fun b =>
        .step [a, b] (Eval.ofOperation operator (.binary A operator.kind a b))
  | .logical operator left right =>
    .bind (.task [] (.evaluate left)) fun value =>
      let decided := if operator.kind = .keyword .or then value.truthy else !value.truthy
      if decided then done value else .task [value] (.evaluate right)
  | .variable name => .step [] (Eval.lookup name)
  | .assign name value =>
    .bind (.task [] (.evaluate value)) fun value =>
      .bind (.step [value] (Eval.assign name value)) fun _ => done value
  | .call callee paren arguments =>
    .bind (.task [] (.evaluate callee)) fun callee =>
      .bind (.task [callee] (.evaluateEach arguments)) fun arguments =>
        -- the function and the arguments are given to the task, which holds them from here on
        .task [] (.call callee paren arguments)

/-- How expressions are evaluated from left to right. -/
def planEvaluateEach : List Expr → Plan (List Value)
  | [] => done []
  | e :: es =>
    .bind (.task [] (.evaluate e)) fun value =>
      .bind (.task [value] (.evaluateEach es)) fun values => done (value :: values)

/-- How a value is called. -/
def planCall (callee : Value) (paren : Token) (arguments : List Value) : Plan Value :=
  match callee with
  | .function (.declared _ parameters body closure) =>
    if arguments.length = parameters.length then
      .within (fun _ => closure)
        (.bind (bindings [callee] parameters arguments) fun _ =>
          .bind (.task (callee :: arguments) (.executeEach body)) fun completion =>
            done completion.value)
    else .step (callee :: arguments)
      (Eval.raise (.arityMismatch parameters.length arguments.length) paren)
  | .function (.native index) => .step (callee :: arguments) (Eval.callNative index paren arguments)
  | _ => .step (callee :: arguments) (Eval.raise .notCallable paren)

/-- How a statement is executed. -/
def planExecute : Stmt → Plan Completion
  | .expression value => .bind (.task [] (.evaluate value)) fun _ => done .normal
  | .print value =>
    .bind (.task [] (.evaluate value)) fun value =>
      .bind (.step [value] (Eval.printLine value)) fun _ => done .normal
  | .var name none => .bind (.step [] (Eval.define name.lexeme .nil)) fun _ => done .normal
  | .var name (some initial) =>
    .bind (.task [] (.evaluate initial)) fun value =>
      .bind (.step [value] (Eval.define name.lexeme value)) fun _ => done .normal
  | .block body => .within (·.active) (.task [] (.executeEach body))
  | .ifThen condition body =>
    .bind (.task [] (.evaluate condition)) fun value =>
      if value.truthy then .task [] (.execute body) else done .normal
  | .ifElse condition body otherwise =>
    .bind (.task [] (.evaluate condition)) fun value =>
      if value.truthy then .task [] (.execute body) else .task [] (.execute otherwise)
  | .loop condition body =>
    .bind (.task [] (.evaluate condition)) fun value =>
      if value.truthy then
        .bind (.task [] (.execute body)) fun completion =>
          match completion with
          | .normal => .task [] (.execute (.loop condition body))
          | .returned value => done (.returned value)
      else done .normal
  | .function name parameters body =>
    -- between these two steps the function is held and has no name
    .bind (.step [] (Eval.makeFunction name parameters body)) fun function =>
      .bind (.step [.function function] (Eval.define name.lexeme (.function function))) fun _ =>
        done .normal
  | .result _ none => done (.returned .nil)
  | .result _ (some value) =>
    .bind (.task [] (.evaluate value)) fun value => done (.returned value)

/-- How statements are executed up to the first that gives a result. -/
def planExecuteEach : List Stmt → Plan Completion
  | [] => done .normal
  | s :: ss =>
    .bind (.task [] (.execute s)) fun completion =>
      match completion with
      | .normal => .task [] (.executeEach ss)
      | .returned value => done (.returned value)

/-- How a task is done. -/
def plan (A : Arithmetic) : Task α → Plan α
  | .evaluate e => planEvaluate A e
  | .evaluateEach es => planEvaluateEach es
  | .call callee paren arguments => planCall callee paren arguments
  | .execute statement => planExecute statement
  | .executeEach statements => planExecuteEach statements

end Task

/-! ## Evaluation carries out plans -/

namespace Plan

theorem realize_ite (c : Prop) [Decidable c] (p q : Plan α) :
    (if c then p else q).realize A bound = if c then p.realize A bound else q.realize A bound := by
  split <;> rfl

theorem realize_bindings (kept : List Value) (parameters : List Token) (arguments : List Value) :
    (bindings kept parameters arguments).realize A bound = Eval.bindAll parameters arguments := by
  induction parameters generalizing arguments with
  | nil => rfl
  | cons parameter parameters ih =>
    cases arguments with
    | nil => rfl
    | cons argument arguments =>
      exact congrArg (Eval.define parameter.lexeme argument >>= ·) (funext fun _ => ih arguments)

end Plan

namespace Task

theorem eval_evaluate_succ (e : Expr) :
    Eval.evaluate A (bound + 1) e = (planEvaluate A e).realize A bound := by
  cases e with
  | logical op left right =>
    refine congrArg (Eval.evaluate A bound left >>= ·) (funext fun v => ?_)
    dsimp only
    rw [Plan.realize_ite]
    rfl
  | _ => rfl

theorem eval_call_succ (callee : Value) (paren : Token) (arguments : List Value) :
    Eval.call A (bound + 1) callee paren arguments =
      (planCall callee paren arguments).realize A bound := by
  cases callee with
  | function f =>
    cases f with
    | native index => rfl
    | declared object parameters body closure =>
      unfold planCall Eval.call
      dsimp only
      -- which values are held makes no difference to what is done
      rw [Plan.realize_ite, ← Plan.realize_bindings [.function (.declared object parameters body closure)]]
      rfl
  | _ => rfl

theorem eval_execute_succ (s : Stmt) :
    Eval.execute A (bound + 1) s = (planExecute s).realize A bound := by
  cases s with
  | var name initial => cases initial <;> rfl
  | result keyword value => cases value <;> rfl
  | ifThen condition body =>
    refine congrArg (Eval.evaluate A bound condition >>= ·) (funext fun v => ?_)
    rw [Plan.realize_ite]
    rfl
  | ifElse condition body otherwise =>
    refine congrArg (Eval.evaluate A bound condition >>= ·) (funext fun v => ?_)
    rw [Plan.realize_ite]
    rfl
  | loop condition body =>
    refine congrArg (Eval.evaluate A bound condition >>= ·) (funext fun v => ?_)
    rw [Plan.realize_ite]
    refine congrArg (ite (v.truthy = true) · _) ?_
    refine congrArg (Eval.execute A bound body >>= ·) (funext fun completion => ?_)
    cases completion <;> rfl
  | _ => rfl

theorem eval_executeEach_succ (ss : List Stmt) :
    Eval.executeEach A (bound + 1) ss = (planExecuteEach ss).realize A bound := by
  cases ss with
  | nil => rfl
  | cons s ss =>
    refine congrArg (Eval.execute A bound s >>= ·) (funext fun completion => ?_)
    cases completion <;> rfl

/-- Evaluation does a task as the plan says, with one less for the tasks in it. -/
theorem eval_succ (t : Task α) : t.eval A (bound + 1) = (t.plan A).realize A bound := by
  cases t with
  | evaluate e => exact eval_evaluate_succ e
  | evaluateEach es => cases es <;> rfl
  | call callee paren arguments => exact eval_call_succ callee paren arguments
  | execute statement => exact eval_execute_succ statement
  | executeEach statements => exact eval_executeEach_succ statements

/-- With nothing left of the bound no task is done. -/
theorem eval_zero (t : Task α) : t.eval A 0 = throw .exhausted := by
  cases t <;> rfl

end Task

/-! ## Moments -/

/-- A session in the course of a run, and all values that the evaluations in progress hold then. -/
structure Moment where
  /-- The session. -/
  session : Session
  /-- The values that are held. -/
  values : List Value

/-- `p.Visits A bound held s m`: the plan `p` is carried out from the session `s` on, while evaluations around
it hold the values `held`, and in the course of that there is the moment `m`. -/
inductive Plan.Visits (A : Arithmetic) :
    {α : Type} → (bound : Nat) → Plan α → (held : List Value) → Session → Moment → Prop where
  | beforeStep {α : Type} [Holds α] {bound : Nat} {kept held : List Value} {m : Eval α} {s : Session} :
      Visits A bound (.step kept m) held s ⟨s, kept ++ held⟩
  | afterStep {α : Type} [Holds α] {bound : Nat} {kept held : List Value} {m : Eval α} {s : Session} :
      Visits A bound (.step kept m) held s
        ⟨(s.run m).2, Outcome.values (s.run m).1 ++ (kept ++ held)⟩
  | beforeTask {α : Type} [Holds α] {bound : Nat} {kept held : List Value} {t : Task α} {s : Session} :
      Visits A bound (.task kept t) held s ⟨s, t.values ++ (kept ++ held)⟩
  | inTask {α : Type} [Holds α] {bound : Nat} {kept held : List Value} {t : Task α} {s : Session}
      {m : Moment} (h : Visits A bound (t.plan A) (kept ++ held) s m) :
      Visits A (bound + 1) (.task kept t) held s m
  | afterTask {α : Type} [Holds α] {bound : Nat} {kept held : List Value} {t : Task α} {s : Session} :
      Visits A bound (.task kept t) held s
        ⟨(s.run (t.eval A bound)).2,
          Outcome.values (s.run (t.eval A bound)).1 ++ (t.values ++ (kept ++ held))⟩
  | first {α β : Type} {bound : Nat} {held : List Value} {first : Plan α} {next : α → Plan β}
      {s : Session} {m : Moment} (h : Visits A bound first held s m) :
      Visits A bound (.bind first next) held s m
  | next {α β : Type} {bound : Nat} {held : List Value} {first : Plan α} {next : α → Plan β}
      {s t : Session} {a : α} {m : Moment} (hfirst : s.run (first.realize A bound) = (.ok a, t))
      (h : Visits A bound (next a) held t m) : Visits A bound (.bind first next) held s m
  | within {α : Type} {bound : Nat} {held : List Value} {parent : Session → ScopeId} {inner : Plan α}
      {s : Session} {m : Moment} (h : Visits A bound inner held (s.enter (parent s)) m) :
      Visits A bound (.within parent inner) held s m

end LoxScript
