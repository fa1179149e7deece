import LoxScript.Proofs.Evaluation.Parallel

/-!
# Where names are declared

The steps of an evaluation declare names in the active scope only, and in scopes that they make themselves.
All other scopes bind the same names afterwards. Evaluating an expression declares nothing in the active scope
either: what a call declares, it declares in a scope of its own. The same holds of statements that are no
declarations and have none as a branch or as the body of a loop.

This needs nothing of the session, and it does not matter how the evaluation ends.

## Main definitions

* `Eval.Keeping`: an evaluation after which all scopes there were bind the same names.

## Main statements

* `Session.Changes.keeps`: evaluations declare names in the active scope only.
* `Eval.keeping_evaluate`, `Eval.keeping_execute`: expressions, and statements that declare nothing.
-/

namespace LoxScript

/-- A name is bound in the scope that it belongs to. -/
theorem Scopes.binds_of_holder? {s : Scopes} {name : String} {id holder : ScopeId}
    (h : s.holder? name id = some holder) :
    ∀ scope, s.all[holder]? = some scope → scope.binds name := by
  intro scope hscope
  obtain ⟨found, hfound, hbinds⟩ := Scopes.binds_of_holderWithin h
  obtain rfl := Option.some.inj (hfound.symm.trans hscope)
  exact hbinds

namespace Session

variable {s t : Session}

/-- The steps of an evaluation give further names to the active scope only. -/
theorem Changes.keeps (h : s.Changes t) : s.Keeps true t := by
  induction h with
  | none s => exact .refl s
  | seq _ _ first second => exact first.trans second
  | define s name value =>
    refine keeps_define fun hother => ?_
    simp at hother
  | assign value hholder =>
    exact keeps_define fun _ => Scopes.binds_of_holder? hholder
  | inside parent _ ih => exact ih.leave
  | make | read | write => exact ⟨rfl, Nat.le_refl _, fun _ _ _ => rfl⟩

end Session

namespace Eval

open Session

variable {α β : Type} {A : Arithmetic} {bound : Nat}

/-- However `m` ends, all scopes there were bind the same names as before. -/
def Keeping (m : Eval α) : Prop := ∀ s : Session, s.Keeps false (s.run m).2

theorem keeping_pure (a : α) : Keeping (pure a) := fun s => .refl s

theorem keeping_throw (stop : Stop) : Keeping (throw stop : Eval α) := fun s => .refl s

theorem Keeping.bind {m : Eval α} {next : α → Eval β} (hm : Keeping m) (hnext : ∀ a, Keeping (next a)) :
    Keeping (m >>= next) := by
  intro s
  have hfirst := hm s
  rcases h : s.run m with ⟨stop | a, t⟩ <;> rw [h] at hfirst
  · rw [run_bind_of_error next h]
    exact hfirst
  · rw [run_bind_of_ok next h]
    exact hfirst.trans (hnext a t)

/-- What is declared in a new scope is declared in none that there was. -/
theorem Changing.keeping {Q : α → Prop} {m : Eval α} (hm : Changing Q m) (parent : ScopeId) :
    Keeping (Eval.inNewScope parent m) := by
  intro s
  rw [run_inNewScope]
  exact (hm (s.enter parent)).1.keeps.leave

/-- An evaluation that has to do with other things than scopes keeps them. -/
theorem keeping_of_scopes {m : Eval α}
    (h : ∀ s : Session, (s.run m).2.scopes = s.scopes ∧ (s.run m).2.active = s.active) : Keeping m := by
  intro s
  obtain ⟨hscopes, hactive⟩ := h s
  refine ⟨hactive, Nat.le_of_eq (congrArg Scopes.next hscopes.symm), fun id _ _ => ?_⟩
  rw [outline, outline, hscopes]

theorem keeping_lookup (name : Token) : Keeping (lookup name) := by
  refine keeping_of_scopes fun s => ?_
  rw [run_lookup]
  cases s.scopes.get? s.active name.lexeme <;> exact ⟨rfl, rfl⟩

theorem keeping_write (text : String) : Keeping (write text) := by
  refine keeping_of_scopes fun s => ?_
  rw [run_write]
  exact ⟨rfl, rfl⟩

/-- An assignment binds no further name: the name is bound where it is assigned. -/
theorem keeping_assign (name : Token) (v : Value) : Keeping (assign name v) := by
  intro s
  rw [run_assign]
  cases hholder : s.scopes.holder? name.lexeme s.active with
  | none => exact .refl s
  | some holder => exact keeps_define fun _ => Scopes.binds_of_holder? hholder

theorem keeping_ofOperation (operator : Token) (operation : Operation) :
    Keeping (ofOperation operator operation) := by
  rcases operation with - | problem | v
  · exact keeping_throw .malformed
  · exact keeping_throw _
  · exact keeping_pure v

theorem keeping_act (action : Native.Action) (arguments : List Value) :
    Keeping (act action arguments) := by
  refine keeping_of_scopes fun s => ?_
  cases action with
  | readClock | compute answer => exact ⟨rfl, rfl⟩

theorem keeping_callNative (index : Nat) (paren : Token) (arguments : List Value) :
    Keeping (callNative index paren arguments) := by
  intro s
  rw [run_callNative]
  cases s.natives[index]? with
  | none => exact .refl s
  | some native =>
    dsimp only
    by_cases harity : arguments.length = native.arity
    · rw [if_pos harity]
      exact ((keeping_act native.action arguments).bind fun _ => keeping_ofOperation paren _) s
    · rw [if_neg harity]
      exact .refl s

theorem keeping_printLine (v : Value) : Keeping (printLine v) :=
  (keeping_write _).bind fun _ => keeping_write _

/-! ## Calls, expressions and statements -/

theorem changing_body (A : Arithmetic) (bound : Nat) (parameters : List Token) (arguments : List Value)
    (body : List Stmt) :
    ∃ Q, Changing Q (do
      bindAll parameters arguments
      return (← executeEach A bound body).value : Eval Value) := by
  -- what is bound and declared here is bound in the active scope, which is the new one of the call
  have hbind := Comparison.changing.bindAll (Likeness.exact_lawful A)
    (Likeness.tokens_exact_iff.2 (rfl : parameters = parameters)) (Value.likeEach_self arguments)
  have hbody := (changing A bound).executeEach (Stmt.likeEach_refl body)
  exact ⟨fun _ => True, hbind.bind fun _ _ => hbody.bind fun _ _ => changing_pure trivial⟩

/-- A call declares names in a scope of its own. -/
theorem keeping_call (A : Arithmetic) (bound : Nat) (callee : Value) (paren : Token)
    (arguments : List Value) : Keeping (call A bound callee paren arguments) := by
  cases bound with
  | zero => exact keeping_throw .exhausted
  | succ bound =>
    unfold call
    split
    · rename_i parameters body closure
      by_cases hcount : arguments.length = parameters.length
      · rw [if_pos hcount]
        -- the closure may be any scope, also one that there is not
        obtain ⟨Q, hbody⟩ := changing_body A bound parameters arguments body
        exact hbody.keeping closure
      · rw [if_neg hcount]
        exact keeping_throw _
    · exact keeping_callNative _ _ _
    · exact keeping_throw _

/-- Whatever is evaluated, all scopes there were bind the same names as before. -/
theorem keeping_evaluate (A : Arithmetic) (bound : Nat) :
    (∀ e, Keeping (evaluate A bound e)) ∧ ∀ es, Keeping (evaluateEach A bound es) := by
  induction bound with
  | zero => exact ⟨fun _ => keeping_throw .exhausted, fun _ => keeping_throw .exhausted⟩
  | succ bound ih =>
    obtain ⟨hone, heach⟩ := ih
    refine ⟨fun e => ?_, fun es => ?_⟩
    · cases e with
      | literal value => exact keeping_pure _
      | grouping inner => exact hone inner
      | unary op operand => exact (hone operand).bind fun _ => keeping_ofOperation _ _
      | binary op left right =>
        exact (hone left).bind fun _ => (hone right).bind fun _ => keeping_ofOperation _ _
      | logical op left right =>
        refine (hone left).bind fun v => ?_
        dsimp only
        generalize (if op.kind = .keyword .or then v.truthy else !v.truthy) = decided
        cases decided with
        | true => exact keeping_pure v
        | false => exact hone right
      | «variable» name => exact keeping_lookup name
      | assign name value =>
        exact (hone value).bind fun v => (keeping_assign name v).bind fun _ => keeping_pure v
      -- what a call declares is in a scope of its own
      | call callee paren arguments =>
        exact (hone callee).bind fun _ => (heach arguments).bind fun _ => keeping_call A bound _ _ _
    · cases es with
      | nil => exact keeping_pure []
      | cons e es => exact (hone e).bind fun _ => (heach es).bind fun _ => keeping_pure _

/-- Statements that declare nothing in the scope that they stand in leave all names there as they were. A block
declares names in a scope of its own. -/
theorem keeping_execute (A : Arithmetic) (bound : Nat) {statement : Stmt} (h : statement.Undeclaring) :
    Keeping (execute A bound statement) := by
  -- on the bound, since a loop executes itself again
  induction bound generalizing statement with
  | zero => exact keeping_throw .exhausted
  | succ bound ih =>
    have hone (e : Expr) : Keeping (evaluate A bound e) := (keeping_evaluate A bound).1 e
    cases h with
    | expression value => exact (hone value).bind fun _ => keeping_pure _
    | print value =>
      exact (hone value).bind fun v => (keeping_printLine v).bind fun _ => keeping_pure _
    | block body =>
      -- the statements of the body may be declarations
      intro s
      exact ((changing A bound).executeEach (Stmt.likeEach_refl body)).keeping s.active s
    | ifThen condition hbody =>
      refine (hone condition).bind fun v => ?_
      split
      · exact ih hbody
      · exact keeping_pure _
    | ifElse condition hbody hotherwise =>
      refine (hone condition).bind fun v => ?_
      split
      · exact ih hbody
      · exact ih hotherwise
    | loop condition hbody =>
      refine (hone condition).bind fun v => ?_
      split
      · refine (ih hbody).bind fun c => ?_
        cases c with
        | normal => exact ih (.loop condition hbody)
        | returned v => exact keeping_pure _
      · exact keeping_pure _
    | result keyword value =>
      cases value with
      | none => exact keeping_pure _
      | some e => exact (hone e).bind fun _ => keeping_pure _

end Eval

end LoxScript
