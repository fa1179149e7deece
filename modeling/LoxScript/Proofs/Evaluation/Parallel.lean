import LoxScript.Proofs.Evaluation.Changes
import LoxScript.Proofs.Evaluation.Layout

/-!
# Parallel runs

The same statements run in two sessions that are the same but for their layouts. They end in the same
way, and leave sessions that are the same but for their layouts.

The active scope of the second session may be an empty scope inside that of the first. Then nothing may
be declared in it, so only expressions, and statements that declare nothing in the scope they stand in,
run in parallel there.

One run may need more depth than the other. The comparison therefore is about two bounds, and about one
of the two runs: as long as that run does not reach its bound, the other one does not either, and if it
does, the other one has written at least as much. If the bounds are equal, the two runs reach them
together.

## Main definitions

* `Session.Moved`: sessions that are the same but for their layouts.
* `Session.Keeps`: what evaluations leave as it is in the scopes there were.
* `Stmt.Undeclaring`: statements that declare nothing in the scope that they stand in.
* `Eval.Pace`: which of two runs decides, and the bounds that it may have.
* `Eval.Parallel`: evaluations that end in the same way in such sessions.

## Main statements

* `Eval.parallel`: the same trees run in parallel.
* `Eval.Parallel.inNewScope`, `Eval.Parallel.inEmptyScope`: scopes on both sides, and on one.
-/

namespace LoxScript

/-- Both end with related values, or for the same reason. -/
inductive Outcome.Moved {ε α β : Type} (R : α → β → Prop) : Except ε α → Except ε β → Prop where
  | ok {a : α} {b : β} (h : R a b) : Moved R (.ok a) (.ok b)
  | error (reason : ε) : Moved R (.error reason) (.error reason)

/-- Statements that end in the same way, but for the place of a closure. -/
inductive Completion.Moved (W : Layout) : Completion → Completion → Prop where
  | normal : Moved W .normal .normal
  | returned {v v' : Value} (h : v.Moved W v') : Moved W (.returned v) (.returned v')

/-- A native function does not notice where closures are. -/
def Native.Oblivious (native : Native) : Prop :=
  ∀ answer, native.action = .compute answer → ∀ (W : Layout) (arguments arguments' : List Value),
    List.Forall₂ (Value.Moved W) arguments arguments' →
      Outcome.Moved (Value.Moved W) (answer arguments) (answer arguments')

/-- Sessions that are the same, but for the layout of the scopes. The active scope of the second is that
of the first if `proper`, and else an empty one inside it. -/
structure Session.Moved (W : Layout) (proper : Bool) (s s' : Session) : Prop where
  scopes : Scopes.Moved W s.scopes s'.scopes
  active : W[s'.active]? = some ⟨s.active, proper⟩
  natives : s'.natives = s.natives
  oblivious : ∀ native ∈ s.natives, native.Oblivious
  objects : s'.objects = s.objects
  clock : s'.clock = s.clock
  readings : s'.readings = s.readings
  output : s'.output = s.output
  sink : s'.sink = s.sink

/-- What there is to a scope besides values: which names it binds, and what is around it. -/
def Session.outline (s : Session) (id : ScopeId) : Option ((String → Bool) × Option ScopeId) :=
  s.scopes.all[id]?.map fun scope => (scope.binds, scope.parent)

/-- The session `t` has the active scope of `s`, and the scopes of `s` with the same names in them, but
for the names in the active scope if `declares`. -/
structure Session.Keeps (declares : Bool) (s t : Session) : Prop where
  active : t.active = s.active
  next : s.scopes.next ≤ t.scopes.next
  outline : ∀ id, id < s.scopes.next → (declares = true → id ≠ s.active) →
    t.outline id = s.outline id

/-- What was written in `s` is the beginning of what was written in `t`. -/
def Session.WrittenIn (s t : Session) : Prop := ∃ more, t.output = s.output ++ more

/-- Statements that declare nothing in the scope that they stand in. -/
inductive Stmt.Undeclaring : Stmt → Prop where
  | expression (value : Expr) : Undeclaring (.expression value)
  | print (value : Expr) : Undeclaring (.print value)
  | block (body : List Stmt) : Undeclaring (.block body)
  | ifThen (condition : Expr) {body : Stmt} (hbody : Undeclaring body) :
      Undeclaring (.ifThen condition body)
  | ifElse (condition : Expr) {body otherwise : Stmt} (hbody : Undeclaring body)
      (hotherwise : Undeclaring otherwise) : Undeclaring (.ifElse condition body otherwise)
  | loop (condition : Expr) {body : Stmt} (hbody : Undeclaring body) :
      Undeclaring (.loop condition body)
  | result (keyword : Token) (value : Option Expr) : Undeclaring (.result keyword value)

variable {W V U : Layout} {proper : Bool}

/-! ## Sessions -/

theorem Completion.Moved.value {c c' : Completion} (h : Completion.Moved W c c') :
    c.value.Moved W c'.value := by
  cases h with
  | normal => exact .plain rfl
  | returned h => exact h

theorem Literal.closure?_value (a : Literal) : a.value.closure? = none := by
  cases a <;> rfl

/-- Giving a name that is bound another value binds no other name. -/
theorem Scope.binds_set {scope : Scope} {name : String} (h : scope.binds name) (v : Value) :
    (scope.set name v).binds = scope.binds := by
  funext other
  unfold binds
  rw [get?_set]
  split
  · rename_i hother
    subst hother
    exact h.symm
  · rfl

theorem Scopes.binds_of_holderWithin {s : Scopes} {name : String} {bound : Nat} {id holder : ScopeId}
    (h : s.holderWithin name bound id = some holder) :
    ∃ scope, s.all[holder]? = some scope ∧ scope.binds name := by
  induction bound generalizing id with
  | zero => cases h
  | succ bound ih =>
    obtain ⟨scope, hscope, hholder⟩ := Option.bind_eq_some_iff.1 h
    split at hholder
    · rename_i hbinds
      cases hholder
      exact ⟨scope, hscope, hbinds⟩
    · obtain ⟨parent, -, hholder⟩ := Option.bind_eq_some_iff.1 hholder
      exact ih hholder

namespace Session

variable {s t u s' t' : Session} {declares : Bool}

theorem WrittenIn.refl (s : Session) : s.WrittenIn s := ⟨"", (Output.append_empty _).symm⟩

theorem WrittenIn.trans (h : s.WrittenIn t) (h' : t.WrittenIn u) : s.WrittenIn u := by
  obtain ⟨more, hmore⟩ := h
  obtain ⟨rest, hrest⟩ := h'
  exact ⟨more ++ rest, by rw [hrest, hmore, Output.append_assoc]⟩

/-- The steps of an evaluation take back nothing of what was written. -/
theorem Changes.writtenIn (h : Changes s t) : s.WrittenIn t := by
  induction h with
  | seq _ _ first second => exact first.trans second
  | inside parent _ ih => exact ih
  | write s text => exact ⟨_, rfl⟩
  | none | define | assign | make | read => exact ⟨"", (Output.append_empty _).symm⟩

theorem Keeps.refl (s : Session) : s.Keeps declares s := ⟨rfl, Nat.le_refl _, fun _ _ _ => rfl⟩

theorem Keeps.trans (h : s.Keeps declares t) (h' : t.Keeps declares u) : s.Keeps declares u where
  active := h'.active.trans h.active
  next := h.next.trans h'.next
  outline id hid hactive := by
    rw [h'.outline id (Nat.lt_of_lt_of_le hid h.next) (h.active ▸ hactive), h.outline id hid hactive]

/-- Only the active scope may get further names. -/
theorem keeps_define {id : ScopeId} {name : String} {v : Value}
    (h : declares = false ∨ id ≠ s.active → ∀ scope, s.scopes.all[id]? = some scope →
      scope.binds name) :
    s.Keeps declares { s with scopes := s.scopes.define id name v } where
  active := rfl
  next := by simp
  outline other _ hactive := by
    unfold outline
    rw [Scopes.getElem?_define]
    split
    · rename_i heq
      subst heq
      cases hscope : s.scopes.all[id]? with
      | none => rfl
      | some scope =>
        -- the name is bound already, unless declaring is allowed and the scope is the active one
        have hbinds : scope.binds name := by
          refine h ?_ scope hscope
          cases declares with
          | false => exact .inl rfl
          | true => exact .inr (hactive rfl)
        show some ((scope.set name v).binds, scope.parent) = some (scope.binds, scope.parent)
        rw [Scope.binds_set hbinds]
    · rfl

/-- What keeps the scopes from inside a new scope keeps them from around it. -/
theorem Keeps.leave {parent : ScopeId} (h : (s.enter parent).Keeps true t) :
    s.Keeps declares { t with active := s.active } where
  active := rfl
  next := by
    have hnext : s.scopes.next + 1 = (s.enter parent).scopes.next := Scopes.next_newChild.symm
    exact (Nat.le_succ _).trans ((Nat.le_of_eq hnext).trans h.next)
  outline id hid _ := by
    have hentered : id < (s.enter parent).scopes.next := by
      show id < (s.scopes.newChild parent).next
      rw [Scopes.next_newChild]
      exact Nat.lt_succ_of_lt hid
    refine (h.outline id hentered fun _ => Nat.ne_of_lt hid).trans ?_
    show Option.map _ (s.scopes.newChild parent).all[id]? = _
    rw [Scopes.getElem?_newChild_of_lt hid]
    rfl

theorem Keeps.mono (h : s.Keeps false t) : s.Keeps declares t :=
  ⟨h.active, h.next, fun id hid _ => h.outline id hid (by simp)⟩

theorem Moved.leads (h : Moved W proper s s') : W.Leads s.active s'.active := ⟨proper, h.active⟩

theorem Moved.writtenIn (h : Moved W proper s s') : s.WrittenIn s' :=
  ⟨"", by rw [h.output, Output.append_empty]⟩

theorem Moved.writtenIn' (h : Moved W proper s s') : s'.WrittenIn s :=
  ⟨"", by rw [h.output, Output.append_empty]⟩

/-- Both sessions may enter a new scope, inside scopes of which one stands for the other. -/
theorem Moved.enter (h : Moved W proper s s') {parent parent' : ScopeId}
    (hlead : W.Leads parent parent') :
    Moved (W ++ [⟨s.scopes.next, true⟩]) true (s.enter parent) (s'.enter parent') :=
  { h with
    scopes := h.scopes.newChild hlead
    active := by
      show (W ++ [_])[s'.scopes.next]? = _
      rw [← h.scopes.length]
      exact Layout.getElem?_concat_length }

/-- The second session may enter an empty scope of its own. -/
theorem Moved.enterEmpty (h : Moved W proper s s') :
    Moved (W ++ [⟨s.active, false⟩]) false s (s'.enter s'.active) :=
  { h with
    scopes := h.scopes.newEmpty h.leads
    active := by
      show (W ++ [_])[s'.scopes.next]? = _
      rw [← h.scopes.length]
      exact Layout.getElem?_concat_length }

end Session

/-! ## Bounds of parallel runs -/

/-- However it ends, an evaluation takes back nothing of what was written. -/
def Eval.Appends {α : Type} (m : Eval α) : Prop := ∀ s : Session, s.WrittenIn (s.run m).2

/-- Which of two runs decides how far the comparison goes. -/
inductive Eval.Pace where
  /-- The first, which has the smaller bound. -/
  | first
  /-- The second, which has the smaller bound. -/
  | second
  /-- None of the two, which have equal bounds. -/
  | even

namespace Eval

open Session

namespace Pace

/-- The bounds are as the pace asks for, with at least `extra` to spare for a second run that may have
more. -/
def Bounds : Pace → (extra bound bound' : Nat) → Prop
  | .first, extra, bound, bound' => bound + extra ≤ bound'
  | .second, _, bound, bound' => bound' ≤ bound
  | .even, extra, bound, bound' => extra = 0 ∧ bound = bound'

section Bounds

variable {pace : Pace} {extra more bound bound' : Nat}

theorem Bounds.pred (h : pace.Bounds extra (bound + 1) (bound' + 1)) :
    pace.Bounds extra bound bound' := by
  unfold Bounds at h ⊢
  cases pace <;> dsimp only at h ⊢ <;> omega

/-- The second run may take one from its bound alone if it has some to spare. -/
theorem Bounds.spend (h : pace.Bounds (extra + 1) bound (bound' + 1)) :
    pace.Bounds extra bound bound' := by
  unfold Bounds at h ⊢
  cases pace <;> dsimp only at h ⊢ <;> omega

theorem Bounds.le (h : pace.Bounds more bound bound') (hextra : extra ≤ more) :
    pace.Bounds extra bound bound' := by
  unfold Bounds at h ⊢
  cases pace <;> dsimp only at h ⊢ <;> omega

end Bounds

/-- The run that decides has reached its bound. What it has written by then, the other one writes as
well. -/
def Escapes {α β : Type} : Pace → Except Stop α × Session → Except Stop β × Session → Prop
  | .first, o, o' => o.1 = .error .exhausted ∧ o.2.WrittenIn o'.2
  | .second, o, o' => o'.1 = .error .exhausted ∧ o'.2.WrittenIn o.2
  | .even, _, _ => False

end Pace

/-! ## Output -/

section Appends

variable {α β : Type} {A : Arithmetic}

theorem Changing.appends {Q : α → Prop} {m : Eval α} (hm : Changing Q m) : Appends m :=
  fun s => (hm s).1.writtenIn

theorem appends_pure (a : α) : Appends (pure a) := fun s => .refl s

theorem appends_throw (stop : Stop) : Appends (throw stop : Eval α) := fun s => .refl s

/-- What was written stays however an evaluation goes on. -/
theorem writtenIn_bind {m : Eval α} {next : α → Eval β} (hnext : ∀ a, Appends (next a)) (s : Session) :
    (s.run m).2.WrittenIn (s.run (m >>= next)).2 := by
  rw [run_bind]
  rcases s.run m with ⟨stop | a, t⟩
  · exact .refl t
  · exact hnext a t

theorem Appends.bind {m : Eval α} {next : α → Eval β} (hm : Appends m) (hnext : ∀ a, Appends (next a)) :
    Appends (m >>= next) :=
  fun s => (hm s).trans (writtenIn_bind hnext s)

theorem Appends.inNewScope {m : Eval α} (hm : Appends m) (parent : ScopeId) :
    Appends (inNewScope parent m) := by
  intro s
  rw [run_inNewScope]
  exact hm (s.enter parent)

theorem Appends.inActiveScope {m : Eval α} (hm : Appends m) :
    Appends (do Eval.inNewScope (← get).active m) :=
  fun s => hm.inNewScope s.active s

theorem appends_of_output {m : Eval α} (h : ∀ s : Session, (s.run m).2.output = s.output) : Appends m :=
  fun s => ⟨"", by rw [h, Output.append_empty]⟩

theorem appends_lookup (name : Token) : Appends (lookup name) :=
  (changing_lookup (fun _ => trivial) name : Changing (fun _ => True) _).appends

theorem appends_assign (name : Token) (v : Value) : Appends (assign name v) :=
  (changing_assign trivial name v : Changing (fun _ => True) _).appends

theorem appends_write (text : String) : Appends (write text) :=
  (changing_write trivial text : Changing (fun _ => True) _).appends

theorem appends_ofOperation (operator : Token) (operation : Operation) :
    Appends (ofOperation operator operation) :=
  (changing_ofOperation (fun _ => trivial) operator operation : Changing (fun _ => True) _).appends

theorem appends_act (action : Native.Action) (arguments : List Value) :
    Appends (act action arguments) :=
  (changing_act (fun _ => trivial) action arguments : Changing (fun _ => True) _).appends

theorem appends_callNative (index : Nat) (paren : Token) (arguments : List Value) :
    Appends (callNative index paren arguments) :=
  (changing_callNative (fun _ => trivial) index paren arguments : Changing (fun _ => True) _).appends

theorem appends_evaluate (bound : Nat) (e : Expr) : Appends (evaluate A bound e) :=
  fun s => (s.changes_evaluate bound e).writtenIn

theorem appends_evaluateEach (bound : Nat) (es : List Expr) : Appends (evaluateEach A bound es) :=
  fun s => (((changing A bound).evaluateEach (Expr.likeEach_refl es) s).1).writtenIn

theorem appends_execute (bound : Nat) (s : Stmt) : Appends (execute A bound s) :=
  fun t => (t.changes_execute bound s).writtenIn

theorem appends_executeEach (bound : Nat) (ss : List Stmt) : Appends (executeEach A bound ss) :=
  fun t => (t.changes_executeEach bound ss).writtenIn

theorem appends_call (bound : Nat) (callee : Value) (paren : Token) (arguments : List Value) :
    Appends (call A bound callee paren arguments) :=
  fun s => (s.changes_call bound callee paren arguments).writtenIn

end Appends

namespace Pace

variable {α β γ δ : Type} {pace : Pace}

/-- The active scope does not matter. -/
theorem Escapes.setActive {o : Except Stop α × Session} {o' : Except Stop β × Session}
    (h : pace.Escapes o o') (id id' : ScopeId) :
    pace.Escapes (o.1, { o.2 with active := id }) (o'.1, { o'.2 with active := id' }) := by
  cases pace <;> exact h

/-- A run that has reached its bound has reached it whatever was to follow. -/
theorem Escapes.bind {m : Eval α} {m' : Eval β} {s s' : Session}
    (h : pace.Escapes (s.run m) (s'.run m')) {next : α → Eval γ} {next' : β → Eval δ}
    (hnext : ∀ a, Appends (next a)) (hnext' : ∀ b, Appends (next' b)) :
    pace.Escapes (s.run (m >>= next)) (s'.run (m' >>= next')) := by
  cases pace with
  | first =>
    obtain ⟨hbound, hwritten⟩ := h
    have hstays : s.run (m >>= next) = (.error .exhausted, (s.run m).2) :=
      run_bind_of_error next (Prod.ext hbound rfl)
    rw [hstays]
    exact ⟨rfl, hwritten.trans (writtenIn_bind hnext' s')⟩
  | second =>
    obtain ⟨hbound, hwritten⟩ := h
    have hstays : s'.run (m' >>= next') = (.error .exhausted, (s'.run m').2) :=
      run_bind_of_error next' (Prod.ext hbound rfl)
    rw [hstays]
    exact ⟨rfl, hwritten.trans (writtenIn_bind hnext s)⟩
  | even => cases h

end Pace

/-! ## Parallel evaluations -/

/-- Whatever a run ends with, there is something that the other one could have ended with. -/
class Total {α β : Type} (R : Layout → α → β → Prop) : Prop where
  right (W : Layout) (a : α) : ∃ V b, W <+: V ∧ R V a b
  left (W : Layout) (b : β) : ∃ V a, W <+: V ∧ R V a b

section Total

variable (W : Layout)

instance : Total fun (_ : Layout) (_ _ : Unit) => True where
  right W _ := ⟨W, (), List.prefix_rfl, trivial⟩
  left W _ := ⟨W, (), List.prefix_rfl, trivial⟩

instance : Total fun V (f f' : Function) => Value.Moved V (.function f) (.function f') where
  right W f := by
    cases f with
    | native index => exact ⟨W, .native index, List.prefix_rfl, .plain rfl⟩
    | declared object parameters body closure =>
      obtain ⟨V, closure', hV, hlead⟩ := W.exists_leads closure
      exact ⟨V, .declared object parameters body closure', hV, .function hlead⟩
  left W f := by
    cases f with
    | native index => exact ⟨W, .native index, List.prefix_rfl, .plain rfl⟩
    | declared object parameters body closure' =>
      obtain ⟨V, closure, hV, hlead⟩ := W.exists_leads_of closure'
      exact ⟨V, .declared object parameters body closure, hV, .function hlead⟩

instance : Total Value.Moved where
  right W v := by
    cases v with
    | function f =>
      obtain ⟨V, f', hV, h⟩ :=
        Total.right W f (R := fun V f f' => Value.Moved V (.function f) (.function f'))
      exact ⟨V, .function f', hV, h⟩
    | nil | bool | number | string => exact ⟨W, _, List.prefix_rfl, .plain rfl⟩
  left W v := by
    cases v with
    | function f =>
      obtain ⟨V, f', hV, h⟩ :=
        Total.left W f (R := fun V f f' => Value.Moved V (.function f) (.function f'))
      exact ⟨V, .function f', hV, h⟩
    | nil | bool | number | string => exact ⟨W, _, List.prefix_rfl, .plain rfl⟩

instance : Total Completion.Moved where
  right W c := by
    cases c with
    | normal => exact ⟨W, _, List.prefix_rfl, .normal⟩
    | returned v =>
      obtain ⟨V, v', hV, h⟩ := Total.right W v (R := Value.Moved)
      exact ⟨V, _, hV, .returned h⟩
  left W c := by
    cases c with
    | normal => exact ⟨W, _, List.prefix_rfl, .normal⟩
    | returned v' =>
      obtain ⟨V, v, hV, h⟩ := Total.left W v' (R := Value.Moved)
      exact ⟨V, _, hV, .returned h⟩

instance : Total fun V => List.Forall₂ (Value.Moved V) where
  right W vs := by
    induction vs generalizing W with
    | nil => exact ⟨W, _, List.prefix_rfl, .nil⟩
    | cons v vs ih =>
      obtain ⟨V, v', hV, h⟩ := Total.right W v (R := Value.Moved)
      obtain ⟨U, vs', hU, hs⟩ := ih V
      exact ⟨U, _, hV.trans hU, .cons (h.mono hU) hs⟩
  left W vs' := by
    induction vs' generalizing W with
    | nil => exact ⟨W, _, List.prefix_rfl, .nil⟩
    | cons v' vs' ih =>
      obtain ⟨V, v, hV, h⟩ := Total.left W v' (R := Value.Moved)
      obtain ⟨U, vs, hU, hs⟩ := ih V
      exact ⟨U, _, hV.trans hU, .cons (h.mono hU) hs⟩

end Total

section Parallel

variable {α β γ δ : Type} {pace : Pace} {A : Arithmetic}

/-- In sessions that are the same but for their layouts, which are laid out as `W` says or further, both
end in the same way, with values related by `R`, and leave such sessions. The run that decides may reach
its bound instead. -/
structure Parallel (pace : Pace) (W : Layout) (proper : Bool) (R : Layout → α → β → Prop) (m : Eval α)
    (m' : Eval β) : Prop where
  appends : Appends m
  appends' : Appends m'
  run : ∀ ⦃V : Layout⦄ ⦃s s' : Session⦄, W <+: V → Session.Moved V proper s s' →
    pace.Escapes (s.run m) (s'.run m') ∨
      ∃ U, V <+: U ∧ Outcome.Moved (R U) (s.run m).1 (s'.run m').1 ∧
        Session.Moved U proper (s.run m).2 (s'.run m').2 ∧ s.Keeps proper (s.run m).2

theorem Parallel.mono {R : Layout → α → β → Prop} {m : Eval α} {m' : Eval β}
    (hm : Parallel pace W proper R m m') (hV : W <+: V) : Parallel pace V proper R m m' :=
  ⟨hm.appends, hm.appends', fun _ _ _ hU hs => hm.run (hV.trans hU) hs⟩

theorem parallel_pure {R : Layout → α → β → Prop} {a : α} {b : β} (h : ∀ V, W <+: V → R V a b) :
    Parallel pace W proper R (pure a) (pure b) where
  appends := appends_pure a
  appends' := appends_pure b
  run V s _ hV hs := .inr ⟨V, List.prefix_rfl, .ok (h V hV), hs, .refl s⟩

theorem parallel_throw {R : Layout → α → β → Prop} (stop : Stop) :
    Parallel pace W proper R (throw stop) (throw stop) where
  appends := appends_throw stop
  appends' := appends_throw stop
  run V s _ _ hs := .inr ⟨V, List.prefix_rfl, .error stop, hs, .refl s⟩

theorem parallel_raise {R : Layout → α → β → Prop} (problem : RuntimeError.Problem) (t : Token) :
    Parallel pace W proper R (raise problem t) (raise problem t) :=
  parallel_throw _

theorem Parallel.bind_of_appends {R : Layout → α → β → Prop} {S : Layout → γ → δ → Prop} {m : Eval α}
    {m' : Eval β} {next : α → Eval γ} {next' : β → Eval δ} (hm : Parallel pace W proper R m m')
    (happends : ∀ a, Appends (next a)) (happends' : ∀ b, Appends (next' b))
    (hnext : ∀ V, W <+: V → ∀ a b, R V a b → Parallel pace V proper S (next a) (next' b)) :
    Parallel pace W proper S (m >>= next) (m' >>= next') := by
  refine ⟨hm.appends.bind happends, hm.appends'.bind happends', fun V s s' hV hs => ?_⟩
  rcases hm.run hV hs with hescapes | ⟨U, hU, houtcome, ht, hkeeps⟩
  · exact .inl (hescapes.bind happends happends')
  rw [run_bind, run_bind]
  generalize s.run m = o at houtcome ht hkeeps ⊢
  generalize s'.run m' = o' at houtcome ht ⊢
  obtain ⟨r, t⟩ := o
  obtain ⟨r', t'⟩ := o'
  dsimp only at houtcome ht hkeeps
  cases houtcome with
  | error stop => exact .inr ⟨U, hU, .error stop, ht, hkeeps⟩
  | ok h =>
    -- the second part begins in sessions that may be laid out further
    rcases (hnext U (hV.trans hU) _ _ h).run List.prefix_rfl ht with
      hescapes | ⟨U', hU', houtcome', ht', hkeeps'⟩
    · exact .inl hescapes
    · exact .inr ⟨U', hU.trans hU', houtcome', ht', hkeeps.trans hkeeps'⟩

theorem Parallel.bind {R : Layout → α → β → Prop} [Total R] {S : Layout → γ → δ → Prop} {m : Eval α}
    {m' : Eval β} {next : α → Eval γ} {next' : β → Eval δ} (hm : Parallel pace W proper R m m')
    (hnext : ∀ V, W <+: V → ∀ a b, R V a b → Parallel pace V proper S (next a) (next' b)) :
    Parallel pace W proper S (m >>= next) (m' >>= next') := by
  -- only one run may get to its second part, but then some value leads the other one to the same part
  refine hm.bind_of_appends (fun a => ?_) (fun b => ?_) hnext
  · obtain ⟨V, b, hV, h⟩ := Total.right W a (R := R)
    exact (hnext V hV a b h).appends
  · obtain ⟨V, a, hV, h⟩ := Total.left W b (R := R)
    exact (hnext V hV a b h).appends'

/-- Runs are parallel where no bound is left. -/
theorem parallel_of_zero {R : Layout → α → β → Prop} {bound bound' : Nat}
    (hbounds : pace.Bounds 0 bound bound') (hzero : bound = 0 ∨ bound' = 0) {m : Eval α} {m' : Eval β}
    (happends : Appends m) (happends' : Appends m') (hm : bound = 0 → m = throw .exhausted)
    (hm' : bound' = 0 → m' = throw .exhausted) : Parallel pace W proper R m m' := by
  unfold Pace.Bounds at hbounds
  refine ⟨happends, happends', fun V s s' hV hs => ?_⟩
  cases pace with
  | first =>
    rw [hm (by dsimp only at hbounds; omega)]
    exact .inl ⟨rfl, hs.writtenIn.trans (happends' s')⟩
  | second =>
    rw [hm' (by dsimp only at hbounds; omega)]
    exact .inl ⟨rfl, hs.writtenIn'.trans (happends s)⟩
  | even =>
    rw [hm (by omega), hm' (by omega)]
    exact (parallel_throw _).run hV hs

/-- A second run without any bound reaches it at once, where more was to be left for it. -/
theorem parallel_of_short {R : Layout → α → β → Prop} {extra bound : Nat}
    (hbounds : pace.Bounds (extra + 1) bound 0) {m : Eval α} (happends : Appends m) :
    Parallel pace W proper R m (throw .exhausted) := by
  unfold Pace.Bounds at hbounds
  refine ⟨happends, appends_throw _, fun V s s' _ hs => ?_⟩
  cases pace with
  | first => exact absurd hbounds (Nat.not_succ_le_zero _)
  | second => exact .inl ⟨rfl, hs.writtenIn'.trans (happends s)⟩
  | even => exact absurd hbounds.1 (Nat.succ_ne_zero _)

/-! ## Elementary evaluations -/

theorem parallel_lookup (name : Token) :
    Parallel pace W proper Value.Moved (lookup name) (lookup name) := by
  refine ⟨appends_lookup name, appends_lookup name, fun V s s' _ hs => ?_⟩
  have hvalue := hs.scopes.get? name.lexeme hs.leads
  rw [run_lookup, run_lookup]
  generalize s.scopes.get? s.active name.lexeme = a at hvalue ⊢
  generalize s'.scopes.get? s'.active name.lexeme = b at hvalue ⊢
  cases hvalue with
  | none => exact .inr ⟨V, List.prefix_rfl, .error _, hs, .refl s⟩
  | some h => exact .inr ⟨V, List.prefix_rfl, .ok h, hs, .refl s⟩

theorem parallel_assign (name : Token) {v v' : Value} (hv : v.Moved W v') :
    Parallel pace W proper (fun _ _ _ => True) (assign name v) (assign name v') := by
  refine ⟨appends_assign name v, appends_assign name v', fun V s s' hV hs => ?_⟩
  have hholder := hs.scopes.holder? name.lexeme hs.leads
  rw [run_assign, run_assign]
  cases ha : s.scopes.holder? name.lexeme s.active with
  | none =>
    rw [ha] at hholder
    generalize s'.scopes.holder? name.lexeme s'.active = b at hholder ⊢
    cases hholder
    exact .inr ⟨V, List.prefix_rfl, .error _, hs, .refl s⟩
  | some holder =>
    rw [ha] at hholder
    generalize s'.scopes.holder? name.lexeme s'.active = b at hholder ⊢
    cases hholder with
    | some hplace =>
      refine .inr ⟨V, List.prefix_rfl, .ok trivial,
        { hs with scopes := hs.scopes.define hplace _ (hv.mono hV) }, keeps_define ?_⟩
      -- the scope that holds the name binds it already
      intro _ scope hscope
      obtain ⟨scope', hscope', hbinds⟩ := Scopes.binds_of_holderWithin ha
      obtain rfl := Option.some.inj (hscope.symm.trans hscope')
      exact hbinds

/-- A name may be declared where the active scope is no empty one. -/
theorem parallel_define (name : String) {v v' : Value} (hv : v.Moved W v') :
    Parallel pace W true (fun _ _ _ => True) (define name v) (define name v') := by
  have happends : ∀ v, Appends (define name v) := fun v => appends_of_output fun _ => rfl
  refine ⟨happends v, happends v', fun V s s' hV hs => ?_⟩
  have hdefine := hs.scopes.define hs.active name (hv.mono hV)
  exact .inr ⟨V, List.prefix_rfl, .ok trivial, { hs with scopes := hdefine }, keeps_define (by simp)⟩

theorem parallel_makeFunction (name : Token) (parameters : List Token) (body : List Stmt) :
    Parallel pace W proper (fun U f f' => Value.Moved U (.function f) (.function f'))
      (makeFunction name parameters body) (makeFunction name parameters body) := by
  have happends : Appends (makeFunction name parameters body) := appends_of_output fun _ => rfl
  refine ⟨happends, happends, fun V s s' _ hs => ?_⟩
  refine .inr ⟨V, List.prefix_rfl, ?_, { hs with objects := congrArg (· + 1) hs.objects },
    ⟨rfl, Nat.le_refl _, fun _ _ _ => rfl⟩⟩
  rw [run_makeFunction, run_makeFunction, hs.objects]
  exact .ok (.function hs.leads)

theorem parallel_write (text : String) :
    Parallel pace W proper (fun _ _ _ => True) (write text) (write text) := by
  refine ⟨appends_write text, appends_write text, fun V s s' _ hs => ?_⟩
  have htake : s'.sink.take s'.output text = s.sink.take s.output text := by
    rw [hs.sink, hs.output]
  have hrefusal : s'.sink.refusal = s.sink.refusal := by rw [hs.sink]
  rw [run_write, run_write, htake, hrefusal]
  refine .inr ⟨V, List.prefix_rfl, ?_,
    { hs with output := congrArg (· ++ s.sink.take s.output text) hs.output },
    ⟨rfl, Nat.le_refl _, fun _ _ _ => rfl⟩⟩
  split
  · exact .ok trivial
  · exact .error _

theorem parallel_printLine {v v' : Value} (hv : v.Moved W v') :
    Parallel pace W proper (fun _ _ _ => True) (printLine v) (printLine v') := by
  unfold printLine
  rw [hv.text]
  exact (parallel_write _).bind fun _ _ _ _ _ => parallel_write _

theorem parallel_act {native : Native} (hnative : native.Oblivious) {arguments arguments' : List Value}
    (harguments : List.Forall₂ (Value.Moved W) arguments arguments') :
    Parallel pace W proper (fun U => Outcome.Moved (Value.Moved U)) (act native.action arguments)
      (act native.action arguments') := by
  cases haction : native.action with
  | readClock =>
    refine ⟨appends_act _ _, appends_act _ _, fun V s s' _ hs => ?_⟩
    refine .inr ⟨V, List.prefix_rfl, ?_, { hs with readings := congrArg (· + 1) hs.readings },
      ⟨rfl, Nat.le_refl _, fun _ _ _ => rfl⟩⟩
    rw [run_act_readClock, run_act_readClock, hs.clock, hs.readings]
    refine .ok ?_
    cases hvalue : s.clock.value s.readings with
    | ok v =>
      obtain ⟨time, rfl⟩ := Clock.eq_number_of_value hvalue
      exact .ok (.plain rfl)
    | error problem => exact .error problem
  | compute answer =>
    -- what the host computes is not known, but it does not depend on where closures are
    have hanswer := hnative answer haction W arguments arguments' harguments
    refine parallel_pure fun V hV => ?_
    generalize answer arguments = a at hanswer
    generalize answer arguments' = b at hanswer
    cases hanswer with
    | ok h => exact .ok (h.mono hV)
    | error problem => exact .error problem

theorem parallel_answer {native : Native} (hnative : native.Oblivious) (paren : Token)
    {arguments arguments' : List Value} (harguments : List.Forall₂ (Value.Moved W) arguments arguments') :
    Parallel pace W proper Value.Moved (answer native paren arguments)
      (answer native paren arguments') := by
  refine (parallel_act hnative harguments).bind_of_appends (fun a => appends_ofOperation _ _)
    (fun b => appends_ofOperation _ _) fun V _ a b h => ?_
  cases h with
  | ok h => exact parallel_pure fun _ hV => h.mono hV
  | error problem => exact parallel_raise problem paren

theorem parallel_callNative (index : Nat) (paren : Token) {arguments arguments' : List Value}
    (harguments : List.Forall₂ (Value.Moved W) arguments arguments') :
    Parallel pace W proper Value.Moved (callNative index paren arguments)
      (callNative index paren arguments') := by
  refine ⟨appends_callNative index paren arguments, appends_callNative index paren arguments', ?_⟩
  intro V s s' hV hs
  rw [run_callNative, run_callNative, hs.natives, ← harguments.length_eq]
  cases hnative : s.natives[index]? with
  | none => exact .inr ⟨V, List.prefix_rfl, .error _, hs, .refl s⟩
  | some native =>
    dsimp only
    split
    · have hmem := Array.mem_of_getElem? hnative
      exact (parallel_answer (hs.oblivious native hmem) paren harguments).run hV hs
    · exact .inr ⟨V, List.prefix_rfl, .error _, hs, .refl s⟩

theorem parallel_ofOperation (operator : Token) {operation operation' : Operation}
    (heq : operation' = operation) (hplain : ∀ r, operation = some (.ok r) → r.closure? = none) :
    Parallel pace W proper Value.Moved (ofOperation operator operation)
      (ofOperation operator operation') := by
  subst heq
  rcases operation' with _ | problem | r
  · exact parallel_throw _
  · exact parallel_raise problem operator
  · exact parallel_pure fun _ _ => .plain (hplain r rfl)

/-! ## Scopes -/

/-- Both runs may have a new scope, inside scopes of which one stands for the other. -/
theorem Parallel.inNewScope {R : Layout → α → β → Prop} {m : Eval α} {m' : Eval β}
    (hm : Parallel pace W true R m m') {parent parent' : ScopeId} (hlead : W.Leads parent parent') :
    Parallel pace W proper R (inNewScope parent m) (inNewScope parent' m') := by
  refine ⟨hm.appends.inNewScope parent, hm.appends'.inNewScope parent', fun V s s' hV hs => ?_⟩
  have hgrow := List.prefix_append V [⟨s.scopes.next, true⟩]
  rw [run_inNewScope, run_inNewScope]
  rcases hm.run (hV.trans hgrow) (hs.enter (hlead.mono hV)) with hescapes | ⟨U, hU, houtcome, ht, hkeeps⟩
  · exact .inl (hescapes.setActive s.active s'.active)
  · have hactive := Layout.getElem?_of_prefix (hgrow.trans hU) hs.active
    exact .inr ⟨U, hgrow.trans hU, houtcome, { ht with active := hactive }, hkeeps.leave⟩

/-- Both runs may have a new scope inside the active one. -/
theorem Parallel.inActiveScope {R : Layout → α → β → Prop} {m : Eval α} {m' : Eval β}
    (hm : Parallel pace W true R m m') :
    Parallel pace W proper R (do Eval.inNewScope (← get).active m)
      (do Eval.inNewScope (← get).active m') := by
  refine ⟨hm.appends.inActiveScope, hm.appends'.inActiveScope, fun V s s' hV hs => ?_⟩
  rw [run_get_bind, run_get_bind]
  exact ((hm.mono hV).inNewScope hs.leads).run List.prefix_rfl hs

/-- The second run may have an empty scope of its own. -/
theorem Parallel.inEmptyScope {R : Layout → α → β → Prop} {m : Eval α} {m' : Eval β}
    (hm : Parallel pace W false R m m') :
    Parallel pace W proper R m (do Eval.inNewScope (← get).active m') := by
  refine ⟨hm.appends, hm.appends'.inActiveScope, fun V s s' hV hs => ?_⟩
  have hgrow := List.prefix_append V [⟨s.active, false⟩]
  rw [run_get_bind, run_inNewScope]
  rcases hm.run (hV.trans hgrow) hs.enterEmpty with hescapes | ⟨U, hU, houtcome, ht, hkeeps⟩
  · exact .inl (hescapes.setActive (s.run m).2.active s'.active)
  -- the second run comes back to the scope that it came from, and the first never left
  · have hactive := Layout.getElem?_of_prefix (hgrow.trans hU) hs.active
    rw [← hkeeps.active] at hactive
    exact .inr ⟨U, hgrow.trans hU, houtcome, { ht with active := hactive }, hkeeps.mono⟩

/-! ## Trees -/

/-- Parameters may be bound, one after the other, to arguments that are the same but for closures. -/
theorem parallel_bindAll (parameters : List Token) {arguments arguments' : List Value}
    (harguments : List.Forall₂ (Value.Moved W) arguments arguments') :
    Parallel pace W true (fun _ _ _ => True) (bindAll parameters arguments)
      (bindAll parameters arguments') := by
  induction parameters generalizing W arguments arguments' with
  | nil => exact parallel_pure fun _ _ => trivial
  | cons parameter parameters ih =>
    cases harguments with
    | nil => exact parallel_pure fun _ _ => trivial
    | cons hargument harguments =>
      refine (parallel_define parameter.lexeme hargument).bind fun V hV _ _ _ => ?_
      exact ih (harguments.imp fun _ _ hvalue => hvalue.mono hV)

variable (pace A) in
/-- Trees under the two bounds run in parallel, and so do calls of values that are the same but for
closures. -/
structure Parallel.Within (bound bound' : Nat) : Prop where
  evaluate : ∀ (W : Layout) (proper : Bool) (e : Expr),
    Parallel pace W proper Value.Moved (evaluate A bound e) (evaluate A bound' e)
  evaluateEach : ∀ (W : Layout) (proper : Bool) (es : List Expr),
    Parallel pace W proper (fun V => List.Forall₂ (Value.Moved V)) (evaluateEach A bound es)
      (evaluateEach A bound' es)
  call : ∀ {W : Layout} (proper : Bool) {callee callee' : Value} (paren : Token)
    {arguments arguments' : List Value}, callee.Moved W callee' →
      List.Forall₂ (Value.Moved W) arguments arguments' →
        Parallel pace W proper Value.Moved (call A bound callee paren arguments)
          (call A bound' callee' paren arguments')
  execute : ∀ (W : Layout) {proper : Bool} {s : Stmt}, proper = true ∨ s.Undeclaring →
    Parallel pace W proper Completion.Moved (execute A bound s) (execute A bound' s)
  executeEach : ∀ (W : Layout) (ss : List Stmt),
    Parallel pace W true Completion.Moved (executeEach A bound ss) (executeEach A bound' ss)

theorem parallel_within_of_zero {bound bound' : Nat} (hbounds : pace.Bounds 0 bound bound')
    (hzero : bound = 0 ∨ bound' = 0) : Parallel.Within pace A bound bound' where
  evaluate _ _ e := parallel_of_zero hbounds hzero (appends_evaluate bound e)
    (appends_evaluate bound' e) (by rintro rfl; rfl) (by rintro rfl; rfl)
  evaluateEach _ _ es := parallel_of_zero hbounds hzero (appends_evaluateEach bound es)
    (appends_evaluateEach bound' es) (by rintro rfl; rfl) (by rintro rfl; rfl)
  call _ _ _ paren _ _ _ _ := parallel_of_zero hbounds hzero (appends_call bound _ paren _)
    (appends_call bound' _ paren _) (by rintro rfl; rfl) (by rintro rfl; rfl)
  execute _ _ s _ := parallel_of_zero hbounds hzero (appends_execute bound s)
    (appends_execute bound' s) (by rintro rfl; rfl) (by rintro rfl; rfl)
  executeEach _ ss := parallel_of_zero hbounds hzero (appends_executeEach bound ss)
    (appends_executeEach bound' ss) (by rintro rfl; rfl) (by rintro rfl; rfl)

namespace Parallel.Within

variable {bound bound' : Nat} (h : Within pace A bound bound')

include h

theorem evaluate_succ (W : Layout) (proper : Bool) (e : Expr) :
    Parallel pace W proper Value.Moved (Eval.evaluate A (bound + 1) e)
      (Eval.evaluate A (bound' + 1) e) := by
  cases e with
  | literal value => exact parallel_pure fun _ _ => .plain value.closure?_value
  | grouping inner => exact h.evaluate W proper inner
  | unary operator operand =>
    refine (h.evaluate W proper operand).bind fun V _ v v' hv => ?_
    exact parallel_ofOperation operator (Operation.unary_moved hv) fun _ =>
      Operation.closure?_unary
  | binary operator left right =>
    refine (h.evaluate W proper left).bind fun V _ v v' hv => ?_
    refine (h.evaluate V proper right).bind fun U hU w w' hw => ?_
    exact parallel_ofOperation operator (Operation.binary_moved (hv.mono hU) hw) fun _ =>
      Operation.closure?_binary
  | logical operator left right =>
    refine (h.evaluate W proper left).bind fun V _ v v' hv => ?_
    -- both sides ask in the same way whether the right operand counts
    rw [hv.truthy]
    dsimp only
    generalize (if operator.kind = .keyword .or then v.truthy else !v.truthy) = decided
    cases decided with
    | true => exact parallel_pure fun _ hU => hv.mono hU
    | false => exact h.evaluate V proper right
  | «variable» name => exact parallel_lookup name
  | assign name value =>
    refine (h.evaluate W proper value).bind fun V _ v v' hv => ?_
    exact (parallel_assign name hv).bind fun _ hU _ _ _ => parallel_pure fun _ hU' =>
      hv.mono (hU.trans hU')
  | call callee paren arguments =>
    refine (h.evaluate W proper callee).bind fun V _ f f' hf => ?_
    refine (h.evaluateEach V proper arguments).bind fun U hU _ _ hvalues => ?_
    exact h.call proper paren (hf.mono hU) hvalues

theorem evaluateEach_succ (W : Layout) (proper : Bool) (es : List Expr) :
    Parallel pace W proper (fun V => List.Forall₂ (Value.Moved V))
      (Eval.evaluateEach A (bound + 1) es) (Eval.evaluateEach A (bound' + 1) es) := by
  cases es with
  | nil => exact parallel_pure fun _ _ => .nil
  | cons e es =>
    refine (h.evaluate W proper e).bind fun V _ v v' hv => ?_
    refine (h.evaluateEach V proper es).bind fun U hU vs vs' hvs => ?_
    exact parallel_pure fun U' hU' => (List.Forall₂.cons (hv.mono hU) hvs).imp fun _ _ hvalue =>
      hvalue.mono hU'

theorem call_succ (proper : Bool) {callee callee' : Value} (paren : Token)
    {arguments arguments' : List Value} (hcallee : callee.Moved W callee')
    (harguments : List.Forall₂ (Value.Moved W) arguments arguments') :
    Parallel pace W proper Value.Moved (Eval.call A (bound + 1) callee paren arguments)
      (Eval.call A (bound' + 1) callee' paren arguments') := by
  cases hcallee with
  | @function object parameters body closure closure' hlead =>
    unfold Eval.call
    dsimp only
    rw [← harguments.length_eq]
    split
    -- the closures stand for each other, and so do the scopes made inside them
    · refine Parallel.inNewScope ?_ hlead
      refine (parallel_bindAll parameters harguments).bind fun V _ _ _ _ => ?_
      refine (h.executeEach V body).bind fun U _ c c' hc => ?_
      exact parallel_pure fun U' hU' => hc.value.mono hU'
    · exact parallel_raise _ paren
  | plain hplain =>
    cases callee with
    | function f =>
      cases f with
      | native index => exact parallel_callNative index paren harguments
      | declared object parameters body closure => cases hplain
    | nil | bool | number | string => exact parallel_raise _ paren

theorem execute_succ (W : Layout) {proper : Bool} {s : Stmt} (hs : proper = true ∨ s.Undeclaring) :
    Parallel pace W proper Completion.Moved (Eval.execute A (bound + 1) s)
      (Eval.execute A (bound' + 1) s) := by
  cases s with
  | expression value =>
    exact (h.evaluate W proper value).bind fun _ _ _ _ _ => parallel_pure fun _ _ => .normal
  | print value =>
    refine (h.evaluate W proper value).bind fun V _ v v' hv => ?_
    exact (parallel_printLine hv).bind fun _ _ _ _ _ => parallel_pure fun _ _ => .normal
  -- a declaration stands in no empty scope
  | var name initial =>
    obtain rfl : proper = true := hs.resolve_right fun hundeclaring => nomatch hundeclaring
    cases initial with
    | none =>
      exact (parallel_define name.lexeme (.plain rfl)).bind fun _ _ _ _ _ =>
        parallel_pure fun _ _ => .normal
    | some initial =>
      refine (h.evaluate W true initial).bind fun V _ v v' hv => ?_
      exact (parallel_define name.lexeme hv).bind fun _ _ _ _ _ => parallel_pure fun _ _ => .normal
  | function name parameters body =>
    obtain rfl : proper = true := hs.resolve_right fun hundeclaring => nomatch hundeclaring
    refine (parallel_makeFunction name parameters body).bind fun V _ f f' hf => ?_
    exact (parallel_define name.lexeme hf).bind fun _ _ _ _ _ => parallel_pure fun _ _ => .normal
  | block body => exact (h.executeEach W body).inActiveScope
  | ifThen condition body =>
    have hbody : proper = true ∨ body.Undeclaring := hs.imp_right fun hundeclaring => by
      cases hundeclaring
      assumption
    refine (h.evaluate W proper condition).bind fun V _ v v' hv => ?_
    rw [hv.truthy]
    split
    · exact h.execute V hbody
    · exact parallel_pure fun _ _ => .normal
  | ifElse condition body otherwise =>
    have hboth : proper = true ∨ body.Undeclaring ∧ otherwise.Undeclaring :=
      hs.imp_right fun hundeclaring => by
        cases hundeclaring
        exact ⟨‹_›, ‹_›⟩
    refine (h.evaluate W proper condition).bind fun V _ v v' hv => ?_
    rw [hv.truthy]
    split
    · exact h.execute V (hboth.imp_right And.left)
    · exact h.execute V (hboth.imp_right And.right)
  | loop condition body =>
    have hbody : proper = true ∨ body.Undeclaring := hs.imp_right fun hundeclaring => by
      cases hundeclaring
      assumption
    refine (h.evaluate W proper condition).bind fun V _ v v' hv => ?_
    rw [hv.truthy]
    split
    · refine (h.execute V hbody).bind fun U _ c c' hc => ?_
      cases hc with
      -- the next turn is the same loop again, one bound further down on both sides
      | normal => exact h.execute U hs
      | returned hv => exact parallel_pure fun _ hU => .returned (hv.mono hU)
    · exact parallel_pure fun _ _ => .normal
  | result keyword value =>
    cases value with
    | none => exact parallel_pure fun _ _ => .returned (.plain rfl)
    | some value =>
      refine (h.evaluate W proper value).bind fun V _ v v' hv => ?_
      exact parallel_pure fun _ hU => .returned (hv.mono hU)

theorem executeEach_succ (W : Layout) (ss : List Stmt) :
    Parallel pace W true Completion.Moved (Eval.executeEach A (bound + 1) ss)
      (Eval.executeEach A (bound' + 1) ss) := by
  cases ss with
  | nil => exact parallel_pure fun _ _ => .normal
  | cons s ss =>
    refine (h.execute W (.inl rfl)).bind fun V _ c c' hc => ?_
    cases hc with
    | normal => exact h.executeEach V ss
    | returned hv => exact parallel_pure fun _ hU => .returned (hv.mono hU)

end Parallel.Within

/-- The same trees run in parallel, under bounds as the pace asks for. -/
theorem parallel (A : Arithmetic) {bound bound' : Nat} (hbounds : pace.Bounds 0 bound bound') :
    Parallel.Within pace A bound bound' := by
  induction bound generalizing bound' with
  | zero => exact parallel_within_of_zero hbounds (.inl rfl)
  | succ bound ih =>
    cases bound' with
    | zero => exact parallel_within_of_zero hbounds (.inr rfl)
    | succ bound' =>
      have h := ih hbounds.pred
      exact ⟨h.evaluate_succ, h.evaluateEach_succ, h.call_succ, h.execute_succ, h.executeEach_succ⟩

end Parallel

end Eval

end LoxScript
