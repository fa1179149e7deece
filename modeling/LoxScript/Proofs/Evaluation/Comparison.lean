import LoxScript.Proofs.Evaluation.Likeness

/-!
# Comparing evaluations

Whatever is to be said about two runs of like trees, and so also about one run, is proved by the same
induction on the bound. It asks for a relation between evaluations that evaluations in a row and in new
scopes inherit from their parts, and that the elementary evaluations are in. The second run may have a
greater bound.

## Main definitions

* `Eval.Comparison`: such a relation.
* `Eval.Comparison.Within`: everything that is evaluated under a bound is in the relation.

## Main statements

* `Eval.Comparison.within`: if it holds where the first run has no bound left, it holds for all bounds.
-/

namespace LoxScript.Eval

/-- A relation between evaluations that compare like trees, given a relation between their values. -/
structure Comparison (K : Likeness) where
  /-- The relation. -/
  Rel : ∀ {α β : Type}, (α → β → Prop) → Eval α → Eval β → Prop
  pure : ∀ {α β : Type} {R : α → β → Prop} {a : α} {b : β}, R a b →
    Rel R (pure a) (pure b)
  bind : ∀ {α β γ δ : Type} {R : α → β → Prop} {S : γ → δ → Prop} {m : Eval α} {m' : Eval β}
    {next : α → Eval γ} {next' : β → Eval δ}, Rel R m m' →
    (∀ a b, R a b → Rel S (next a) (next' b)) → Rel S (m >>= next) (m' >>= next')
  raise : ∀ {α β : Type} {R : α → β → Prop} (problem : RuntimeError.Problem) {t u : Token},
    K.token t u → Rel R (raise problem t) (raise problem u)
  malformed : ∀ {α β : Type} {R : α → β → Prop}, Rel R (throw .malformed) (throw .malformed)
  lookup : ∀ {name name' : Token}, K.token name name' →
    Rel (Value.Like K) (lookup name) (lookup name')
  assign : ∀ {name name' : Token} {v v' : Value}, K.token name name' → Value.Like K v v' →
    Rel (fun _ _ => True) (assign name v) (assign name' v')
  define : ∀ (name : String) {v v' : Value}, Value.Like K v v' →
    Rel (fun _ _ => True) (define name v) (define name v')
  makeFunction : ∀ {name name' : Token} {parameters parameters' : List Token}
    {body body' : List Stmt}, K.token name name' → List.Forall₂ K.token parameters parameters' →
    List.Forall₂ (Stmt.Like K) body body' →
    Rel (Function.Like K) (makeFunction name parameters body) (makeFunction name' parameters' body')
  printLine : ∀ {v v' : Value}, Value.Like K v v' →
    Rel (fun _ _ => True) (printLine v) (printLine v')
  callNative : ∀ (index : Nat) {paren paren' : Token} {arguments arguments' : List Value},
    K.token paren paren' → List.Forall₂ (Value.Like K) arguments arguments' →
    Rel (Value.Like K) (callNative index paren arguments) (callNative index paren' arguments')
  /-- A new scope inside one in reach. -/
  inNewScope : ∀ {α β : Type} {R : α → β → Prop} {m : Eval α} {m' : Eval β} {parent : ScopeId},
    Rel R m m' → K.within parent → Rel R (inNewScope parent m) (inNewScope parent m')
  /-- A new scope inside the active one. -/
  inActiveScope : ∀ {α β : Type} {R : α → β → Prop} {m : Eval α} {m' : Eval β}, Rel R m m' →
    Rel R (do Eval.inNewScope (← get).active m) (do Eval.inNewScope (← get).active m')

namespace Comparison

variable {K : Likeness} {A A' : Arithmetic} {bound extra : Nat}

/-- Everything that is evaluated under a bound, and on the other side under a bound that may be greater,
is in the relation. -/
structure Within (C : Comparison K) (A A' : Arithmetic) (bound extra : Nat) : Prop where
  evaluate : ∀ {e e'}, Expr.Like K e e' →
    C.Rel (Value.Like K) (evaluate A bound e) (evaluate A' (bound + extra) e')
  evaluateEach : ∀ {es es'}, List.Forall₂ (Expr.Like K) es es' →
    C.Rel (List.Forall₂ (Value.Like K)) (evaluateEach A bound es)
      (evaluateEach A' (bound + extra) es')
  call : ∀ {callee callee' paren paren' arguments arguments'}, Value.Like K callee callee' →
    K.token paren paren' → List.Forall₂ (Value.Like K) arguments arguments' →
    C.Rel (Value.Like K) (call A bound callee paren arguments)
      (call A' (bound + extra) callee' paren' arguments')
  execute : ∀ {s s'}, Stmt.Like K s s' →
    C.Rel (Completion.Like K) (execute A bound s) (execute A' (bound + extra) s')
  executeEach : ∀ {ss ss'}, List.Forall₂ (Stmt.Like K) ss ss' →
    C.Rel (Completion.Like K) (executeEach A bound ss) (executeEach A' (bound + extra) ss')

variable (C : Comparison K) (hK : K.Lawful A A')

theorem ofOperation {operator operator' : Token} {operation operation' : Operation}
    (h : Operation.Like K operation operation') (hoperator : K.token operator operator') :
    C.Rel (Value.Like K) (ofOperation operator operation) (ofOperation operator' operation') := by
  cases h with
  | value h => exact C.pure h
  | problem problem => exact C.raise problem hoperator
  | none => exact C.malformed

include hK in
theorem bindAll {parameters parameters' : List Token} {arguments arguments' : List Value}
    (hparameters : List.Forall₂ K.token parameters parameters')
    (harguments : List.Forall₂ (Value.Like K) arguments arguments') :
    C.Rel (fun _ _ => True) (bindAll parameters arguments) (bindAll parameters' arguments') := by
  induction hparameters generalizing arguments arguments' with
  | nil => exact C.pure trivial
  | cons hparameter _ ih =>
    cases harguments with
    | nil => exact C.pure trivial
    | cons hargument harguments =>
      unfold Eval.bindAll
      rw [hK.lexeme hparameter]
      exact C.bind (C.define _ hargument) fun _ _ _ => ih harguments

namespace Within

variable {C} (h : C.Within A A' bound extra)

include hK h

theorem evaluate_succ {e e' : Expr} (he : Expr.Like K e e') :
    C.Rel (Value.Like K) (Eval.evaluate A (bound + 1) e)
      (Eval.evaluate A' (bound + extra + 1) e') := by
  cases he with
  | literal hvalue => exact C.pure hvalue.value
  | grouping hinner => exact h.evaluate hinner
  | unary hop hoperand =>
    exact C.bind (h.evaluate hoperand) fun _ _ hv =>
      C.ofOperation (Operation.unary_like hK (hK.kind hop) hv) hop
  | binary hop hleft hright =>
    exact C.bind (h.evaluate hleft) fun _ _ ha => C.bind (h.evaluate hright) fun _ _ hb =>
      C.ofOperation (Operation.binary_like hK (hK.kind hop) ha hb) hop
  | @logical op _ _ _ _ _ hop hleft hright =>
    refine C.bind (h.evaluate hleft) fun v v' hv => ?_
    -- both sides ask in the same way whether the right operand counts
    have hor := @Token.Kind.Like.eq_iff K _ _ (.keyword .or) (hK.kind hop) (by simp)
    rw [hv.truthy]
    simp only [hor]
    generalize (if op.kind = .keyword .or then v.truthy else !v.truthy) = decided
    cases decided with
    | true => exact C.pure hv
    | false => exact h.evaluate hright
  | «variable» hname => exact C.lookup hname
  | assign hname hvalue =>
    exact C.bind (h.evaluate hvalue) fun _ _ hv => C.bind (C.assign hname hv) fun _ _ _ => C.pure hv
  | call hcallee hparen harguments =>
    exact C.bind (h.evaluate hcallee) fun _ _ hf =>
      C.bind (h.evaluateEach harguments) fun _ _ hargs => h.call hf hparen hargs

omit hK in
theorem evaluateEach_succ {es es' : List Expr} (hes : List.Forall₂ (Expr.Like K) es es') :
    C.Rel (List.Forall₂ (Value.Like K)) (Eval.evaluateEach A (bound + 1) es)
      (Eval.evaluateEach A' (bound + extra + 1) es') := by
  cases hes with
  | nil => exact C.pure .nil
  | cons he hes =>
    exact C.bind (h.evaluate he) fun _ _ hv => C.bind (h.evaluateEach hes) fun _ _ hvs =>
      C.pure (.cons hv hvs)

theorem call_succ {callee callee' : Value} {paren paren' : Token} {arguments arguments' : List Value}
    (hcallee : Value.Like K callee callee') (hparen : K.token paren paren')
    (harguments : List.Forall₂ (Value.Like K) arguments arguments') :
    C.Rel (Value.Like K) (Eval.call A (bound + 1) callee paren arguments)
      (Eval.call A' (bound + extra + 1) callee' paren' arguments') := by
  cases hcallee with
  | function hf =>
    cases hf with
    | native index => exact C.callNative index hparen harguments
    | declared hparameters hbody hclosure =>
      unfold Eval.call
      dsimp only
      -- both sides count the same arguments and the same parameters
      rw [← harguments.length_eq, ← hparameters.length_eq]
      split
      · refine C.inNewScope ?_ hclosure
        exact C.bind (C.bindAll hK hparameters harguments) fun _ _ _ =>
          C.bind (h.executeEach hbody) fun _ _ hcompletion => C.pure hcompletion.value
      · exact C.raise _ hparen
  | nil | bool | number | string => exact C.raise _ hparen

theorem execute_succ {s s' : Stmt} (hs : Stmt.Like K s s') :
    C.Rel (Completion.Like K) (Eval.execute A (bound + 1) s)
      (Eval.execute A' (bound + extra + 1) s') := by
  cases hs with
  | expression hvalue => exact C.bind (h.evaluate hvalue) fun _ _ _ => C.pure .normal
  | print hvalue =>
    exact C.bind (h.evaluate hvalue) fun _ _ hv => C.bind (C.printLine hv) fun _ _ _ =>
      C.pure .normal
  | var hname hinitial =>
    cases hinitial with
    | none =>
      unfold Eval.execute
      rw [hK.lexeme hname]
      exact C.bind (C.define _ .nil) fun _ _ _ => C.pure .normal
    | some hinitial =>
      unfold Eval.execute
      rw [hK.lexeme hname]
      exact C.bind (h.evaluate hinitial) fun _ _ hv => C.bind (C.define _ hv) fun _ _ _ =>
        C.pure .normal
  | block hbody => exact C.inActiveScope (h.executeEach hbody)
  | ifThen hcondition hbody =>
    refine C.bind (h.evaluate hcondition) fun v v' hv => ?_
    rw [hv.truthy]
    split
    · exact h.execute hbody
    · exact C.pure .normal
  | ifElse hcondition hbody hotherwise =>
    refine C.bind (h.evaluate hcondition) fun v v' hv => ?_
    rw [hv.truthy]
    split
    · exact h.execute hbody
    · exact h.execute hotherwise
  | loop hcondition hbody =>
    refine C.bind (h.evaluate hcondition) fun v v' hv => ?_
    rw [hv.truthy]
    split
    · refine C.bind (h.execute hbody) fun c c' hc => ?_
      cases hc with
      -- the next turn is the same loop again, one bound further down
      | normal => exact h.execute (.loop hcondition hbody)
      | returned hv => exact C.pure (.returned hv)
    · exact C.pure .normal
  | function hname hparameters hbody =>
    unfold Eval.execute
    rw [hK.lexeme hname]
    exact C.bind (C.makeFunction hname hparameters hbody) fun _ _ hf =>
      C.bind (C.define _ (.function hf)) fun _ _ _ => C.pure .normal
  | result hkeyword hvalue =>
    cases hvalue with
    | none => exact C.pure (.returned .nil)
    | some hvalue => exact C.bind (h.evaluate hvalue) fun _ _ hv => C.pure (.returned hv)

omit hK in
theorem executeEach_succ {ss ss' : List Stmt} (hss : List.Forall₂ (Stmt.Like K) ss ss') :
    C.Rel (Completion.Like K) (Eval.executeEach A (bound + 1) ss)
      (Eval.executeEach A' (bound + extra + 1) ss') := by
  cases hss with
  | nil => exact C.pure .normal
  | cons hs hss =>
    refine C.bind (h.execute hs) fun c c' hc => ?_
    cases hc with
    | normal => exact h.executeEach hss
    | returned hv => exact C.pure (.returned hv)

/-- What is in the relation under a bound is in it under the next one. -/
theorem succ : C.Within A A' (bound + 1) extra := by
  -- what the first run takes from its bound the second takes from its own, so the distance stays
  constructor <;> intros <;> rw [Nat.add_right_comm bound 1 extra]
  · exact h.evaluate_succ hK ‹_›
  · exact h.evaluateEach_succ ‹_›
  · exact h.call_succ hK ‹_› ‹_› ‹_›
  · exact h.execute_succ hK ‹_›
  · exact h.executeEach_succ ‹_›

end Within

include hK in
/-- A comparison holds under every bound if it holds where the first run has no bound left. -/
theorem within (hzero : C.Within A A' 0 extra) (bound : Nat) : C.Within A A' bound extra := by
  induction bound with
  | zero => exact hzero
  | succ bound ih => exact ih.succ hK

end Comparison

end LoxScript.Eval
