import LoxScript.Proofs.Evaluation.Chain
import LoxScript.Proofs.Evaluation.Isolation
import LoxScript.Proofs.Evaluation.Plan

/-!
# Scopes at every moment

At every moment of every run, from each scope there is one way outwards, which ends at the global scope and
leads to older scopes only. Once a scope was made it stays where it is. The closure of every function is a
scope, no matter whether the function is bound in some scope or held by an evaluation in progress. Scopes and
closures may refer to each other in circles, but the way outwards goes by enclosing scopes alone.

So the search for a name ends, passes no scope twice, and fails only if no scope on the way binds the name.

A plan is sound if it goes through such moments only. Steps are sound, and what is put together from sound
plans is sound. That tasks are sound then follows by induction on the bound.

## Main definitions

* `Scopes.Founded`, `Session.Founded`: scopes, and sessions, of this kind.
* `Plan.Sound`: plans that go through such moments only.

## Main statements

* `Scopes.Founded.exists_chain`: from every scope there is a way to the global scope.
* `Task.sound_within`: all tasks are sound.
* `Session.Used.founded`: so are the sessions that a host can have.
* `Session.visits_founded`: the scopes at every moment of a run.
-/

namespace LoxScript

/-- The closure of the value, if it has one, is one of the first `n` scopes. -/
def Value.Within (n : Nat) (v : Value) : Prop := ∀ closure ∈ v.closure?, closure < n

/-- The scopes of a session: all but the global one stand inside older ones, and the closures of what they
bind are scopes. -/
structure Scopes.Founded (s : Scopes) : Prop extends s.Grounded where
  globals : Session.globals < s.next
  outermost : ∀ {id : ScopeId} {scope : Scope}, s.all[id]? = some scope →
    (scope.parent = none ↔ id = Session.globals)

/-- A session with such scopes, and with native functions that do not make up closures. -/
structure Session.Founded (s : Session) : Prop where
  scopes : s.scopes.Founded
  active : s.active < s.scopes.next
  confined : ∀ native ∈ s.natives, native.Confined

/-- A moment in such a session, at which all values that are held are functions of its scopes, or none. -/
structure Moment.Founded (m : Moment) : Prop where
  session : m.session.Founded
  values : ∀ v ∈ m.values, v.Within m.session.scopes.next

/-- What may be left behind by an evaluation in the session `s`, however it ended. -/
structure Session.Leaves {α : Type} [Holds α] (s : Session) (o : Except Stop α × Session) : Prop where
  founded : o.2.Founded
  scopes : s.scopes.Extends o.2.scopes
  values : ∀ v ∈ Outcome.values o.1, v.Within o.2.scopes.next

/-- An evaluation that begins in any session with at least `n` scopes, and leaves such a session. -/
def Eval.Sound {α : Type} [Holds α] (n : Nat) (m : Eval α) : Prop :=
  ∀ s : Session, s.Founded → n ≤ s.scopes.next → s.Leaves (s.run m)

/-- A plan with such an evaluation, all moments of which are in order. Scopes stay in their places from the
beginning to each moment, and from there to the end. -/
structure Plan.Sound {α : Type} [Holds α] (A : Arithmetic) (bound n : Nat) (p : Plan α) : Prop where
  run : (p.realize A bound).Sound n
  visits : ∀ {held : List Value} {s : Session} {m : Moment}, s.Founded → n ≤ s.scopes.next →
    (∀ v ∈ held, v.Within s.scopes.next) → p.Visits A bound held s m →
      m.Founded ∧ s.scopes.Extends m.session.scopes ∧
        m.session.scopes.Extends (s.run (p.realize A bound)).2.scopes

open Session

variable {α β : Type} {A : Arithmetic} {n k bound : Nat} {v : Value} {name : String}

/-! ## Scopes -/

theorem Value.Within.mono (h : v.Within n) (hle : n ≤ k) : v.Within k :=
  fun closure hclosure => Nat.lt_of_lt_of_le (h closure hclosure) hle

theorem Value.within_of_closure?_eq_none (h : v.closure? = none) : v.Within n := by
  intro closure hclosure
  rw [h] at hclosure
  cases hclosure

namespace Scopes.Founded

variable {s : Scopes} {id : ScopeId}

theorem ordered (h : s.Founded) : s.Ordered := fun _ _ hscope => h.older hscope

theorem define (h : s.Founded) {target : ScopeId} (htarget : target < s.next) (hv : v.Within s.next) :
    (s.define target name v).Founded where
  toGrounded := h.toGrounded.define htarget name hv
  globals := by
    rw [next_define]
    exact h.globals
  outermost {id scope} hscope := by
    rw [getElem?_define] at hscope
    by_cases heq : target = id
    · rw [if_pos heq] at hscope
      obtain ⟨before, hbefore, rfl⟩ := Option.map_eq_some_iff.1 hscope
      rw [Scope.parent_set]
      exact h.outermost hbefore
    · rw [if_neg heq] at hscope
      exact h.outermost hscope

/-- A new scope inside another one is not the global one. -/
theorem newChild (h : s.Founded) {parent : ScopeId} (hparent : parent < s.next) :
    (s.newChild parent).Founded := by
  have hnew : s.next ≤ (s.newChild parent).next := (s.extends_add (.within (some parent))).next_le
  -- only one place is new, so every condition is asked for the old places and for that one
  have hplace : ∀ {id : ScopeId} {scope : Scope}, (s.newChild parent).all[id]? = some scope →
      s.all[id]? = some scope ∨ id = s.next ∧ scope = .within (some parent) := by
    intro id scope hscope
    rw [Scopes.newChild, getElem?_add] at hscope
    by_cases hid : id = s.next
    · rw [if_pos hid] at hscope
      exact .inr ⟨hid, (Option.some.inj hscope).symm⟩
    · rw [if_neg hid] at hscope
      exact .inl hscope
  constructor
  · constructor
    · intro id scope hscope p hp
      rcases hplace hscope with hbefore | ⟨rfl, rfl⟩
      · exact h.older hbefore p hp
      · obtain rfl := Option.some.inj hp
        exact hparent
    · intro id scope hscope binding hbinding closure hclosure
      rcases hplace hscope with hbefore | ⟨rfl, rfl⟩
      · exact Nat.lt_of_lt_of_le (h.closures hbefore binding hbinding closure hclosure) hnew
      · cases hbinding
  · exact Nat.lt_of_lt_of_le h.globals hnew
  · intro id scope hscope
    rcases hplace hscope with hbefore | ⟨rfl, rfl⟩
    · exact h.outermost hbefore
    · simp [Scope.within, Nat.ne_of_gt h.globals]

/-- The value of a name is bound in some scope. -/
theorem get? (h : s.Founded) (hvalue : s.get? id name = some v) : v.Within s.next := by
  obtain ⟨holder, -, hbound⟩ := Option.bind_eq_some_iff.1 hvalue
  obtain ⟨scope, hscope, hlookup⟩ := Option.bind_eq_some_iff.1 hbound
  obtain ⟨before, after, hbindings, -⟩ := List.lookup_eq_some_iff.1 hlookup
  have hmem : (name, v) ∈ scope.bindings := by
    rw [hbindings]
    exact List.mem_append_cons_self
  exact h.closures hscope _ hmem

/-- From every scope there is a way outwards, and it ends at the global scope. -/
theorem exists_chain (h : s.Founded) (hid : id < s.next) :
    ∃ ids, s.Chain id ids ∧ ids.getLast? = some Session.globals := by
  obtain ⟨ids, hids⟩ := h.ordered.exists_chain hid
  refine ⟨ids, hids, ?_⟩
  -- the last scope of the way stands in no other, and only the global one does not
  clear hid
  induction hids with
  | outermost hscope hparent => exact congrArg some ((h.outermost hscope).1 hparent)
  | inside _ _ hrest ih =>
    obtain ⟨first, rest, rfl⟩ := List.exists_cons_of_ne_nil (List.ne_nil_of_mem hrest.mem_self)
    exact ih

end Scopes.Founded

/-! ## Steps -/

section Steps

variable [Holds α] [Holds β] {s : Session}

/-- What leaves the scopes as they are is in order if the values in its outcome are. -/
theorem Session.Founded.leaves (hs : s.Founded) {o : Except Stop α × Session}
    (hscopes : o.2.scopes = s.scopes) (hactive : o.2.active = s.active) (hnatives : o.2.natives = s.natives)
    (hvalues : ∀ v ∈ Outcome.values o.1, v.Within s.scopes.next) : s.Leaves o where
  founded := ⟨hscopes ▸ hs.scopes, hscopes ▸ hactive ▸ hs.active, hnatives ▸ hs.confined⟩
  scopes := hscopes ▸ .refl s.scopes
  values := hscopes ▸ hvalues

/-- A value may be bound in any scope there is. -/
theorem Session.Founded.define (hs : s.Founded) {target : ScopeId} (htarget : target < s.scopes.next)
    (name : String) (hv : v.Within s.scopes.next) :
    s.Leaves ((.ok (), { s with scopes := s.scopes.define target name v }) :
      Except Stop Unit × Session) where
  founded := by
    refine ⟨hs.scopes.define htarget hv, ?_, hs.confined⟩
    show s.active < (s.scopes.define target name v).next
    rw [Scopes.next_define]
    exact hs.active
  scopes := s.scopes.extends_define target name v
  values := List.forall_mem_nil _

namespace Eval

theorem sound_pure {a : α} (h : ∀ v ∈ Holds.values a, v.Within n) : (pure a : Eval α).Sound n :=
  fun _ hs hn => hs.leaves rfl rfl rfl fun v hv => (h v hv).mono hn

theorem sound_throw (stop : Stop) : (throw stop : Eval α).Sound n :=
  fun _ hs _ => hs.leaves rfl rfl rfl (List.forall_mem_nil _)

theorem sound_ofOperation {operator : Token} {operation : Operation}
    (h : ∀ v, operation = some (.ok v) → v.Within n) : (ofOperation operator operation).Sound n := by
  rcases operation with - | problem | v
  · exact sound_throw .malformed
  · exact sound_throw _
  · exact sound_pure (List.forall_mem_singleton.2 (h v rfl))

theorem sound_lookup (name : Token) : (lookup name).Sound n := by
  intro s hs _
  rw [run_lookup]
  cases hvalue : s.scopes.get? s.active name.lexeme with
  | none => exact hs.leaves rfl rfl rfl (List.forall_mem_nil _)
  | some v => exact hs.leaves rfl rfl rfl (List.forall_mem_singleton.2 (hs.scopes.get? hvalue))

theorem sound_assign (name : Token) (hv : v.Within n) : (assign name v).Sound n := by
  intro s hs hn
  rw [run_assign]
  cases hholder : s.scopes.holder? name.lexeme s.active with
  | none => exact hs.leaves rfl rfl rfl (List.forall_mem_nil _)
  | some holder =>
    obtain ⟨scope, hscope, -⟩ := Scopes.binds_of_holderWithin hholder
    exact hs.define (Scopes.lt_next_of_getElem? hscope) name.lexeme (hv.mono hn)

theorem sound_define (name : String) (hv : v.Within n) : (define name v).Sound n :=
  fun _ hs hn => hs.define hs.active name (hv.mono hn)

/-- The closure of a function is the active scope. -/
theorem sound_makeFunction (name : Token) (parameters : List Token) (body : List Stmt) :
    (makeFunction name parameters body).Sound n := by
  intro s hs _
  refine hs.leaves rfl rfl rfl (List.forall_mem_singleton.2 ?_)
  rintro _ ⟨⟩
  exact hs.active

theorem sound_write (text : String) : (write text).Sound n := by
  intro s hs _
  rw [run_write]
  split
  · exact hs.leaves rfl rfl rfl (List.forall_mem_nil _)
  · exact hs.leaves rfl rfl rfl (List.forall_mem_nil _)

/-- One sound evaluation after the other is sound. The second may rely on what the first left. -/
theorem Sound.bind {m : Eval α} {next : α → Eval β} (hm : m.Sound n)
    (hnext : ∀ a k, n ≤ k → (∀ v ∈ Holds.values a, v.Within k) → (next a).Sound k) :
    (m >>= next).Sound n := by
  intro s hs hn
  have hfirst := hm s hs hn
  rcases h : s.run m with ⟨stop | a, t⟩ <;> rw [h] at hfirst
  · rw [run_bind_of_error next h]
    exact ⟨hfirst.founded, hfirst.scopes, List.forall_mem_nil _⟩
  · rw [run_bind_of_ok next h]
    have hmore : n ≤ t.scopes.next := hn.trans hfirst.scopes.next_le
    have hsecond := hnext a _ hmore hfirst.values t hfirst.founded (Nat.le_refl _)
    exact ⟨hsecond.founded, hfirst.scopes.trans hsecond.scopes, hsecond.values⟩

/-- A native function answers with what has no closure, or one that came with an argument. -/
theorem sound_act {native : Native} (hconfined : native.Confined) {arguments : List Value}
    (harguments : ∀ v ∈ arguments, v.Within n) : (act native.action arguments).Sound n := by
  intro s hs hn
  cases haction : native.action with
  | readClock =>
    refine hs.leaves rfl rfl rfl fun v hv => Value.within_of_closure?_eq_none ?_
    obtain ⟨time, rfl⟩ := Clock.eq_number_of_value (Holds.mem_values_answer.1 hv)
    rfl
  | compute answer =>
    refine hs.leaves rfl rfl rfl fun v hv closure hclosure => ?_
    obtain ⟨argument, hmem, hargument⟩ :=
      hconfined answer haction arguments v (Holds.mem_values_answer.1 hv) closure hclosure
    exact ((harguments argument hmem).mono hn) closure hargument

theorem sound_callNative (index : Nat) (paren : Token) {arguments : List Value}
    (harguments : ∀ v ∈ arguments, v.Within n) : (callNative index paren arguments).Sound n := by
  intro s hs hn
  rw [run_callNative]
  cases hnative : s.natives[index]? with
  | none => exact hs.leaves rfl rfl rfl (List.forall_mem_nil _)
  | some native =>
    dsimp only
    by_cases harity : arguments.length = native.arity
    · rw [if_pos harity]
      have hconfined := hs.confined native (Array.mem_of_getElem? hnative)
      refine (sound_act hconfined harguments).bind (fun answer k _ hanswer => ?_) s hs hn
      refine sound_ofOperation fun v hv => ?_
      obtain rfl := Option.some.inj hv
      exact hanswer v (Holds.mem_values_answer.2 rfl)
    · rw [if_neg harity]
      exact hs.leaves rfl rfl rfl (List.forall_mem_nil _)

theorem sound_printLine (v : Value) : (printLine v).Sound n :=
  (sound_write _).bind fun _ _ _ _ => sound_write _

end Eval

/-- A new scope may be entered inside any scope there is. -/
theorem Session.Founded.enter (hs : s.Founded) {parent : ScopeId} (hparent : parent < s.scopes.next) :
    (s.enter parent).Founded where
  scopes := hs.scopes.newChild hparent
  active := by
    show s.scopes.next < (s.scopes.newChild parent).next
    rw [Scopes.next_newChild]
    exact Nat.lt_succ_self _
  confined := hs.confined

theorem Session.extends_enter (s : Session) (parent : ScopeId) :
    s.scopes.Extends (s.enter parent).scopes :=
  s.scopes.extends_add (.within (some parent))

theorem Eval.Sound.inNewScope {m : Eval α} (hm : m.Sound n) (hs : s.Founded) (hn : n ≤ s.scopes.next)
    {parent : ScopeId} (hparent : parent < s.scopes.next) :
    s.Leaves (s.run (Eval.inNewScope parent m)) := by
  have hentered := s.extends_enter parent
  have hinner := hm (s.enter parent) (hs.enter hparent) (hn.trans hentered.next_le)
  have hextends := hentered.trans hinner.scopes
  rw [run_inNewScope]
  refine ⟨⟨hinner.founded.scopes, ?_, hinner.founded.confined⟩, hextends, hinner.values⟩
  exact Nat.lt_of_lt_of_le hs.active hextends.next_le

end Steps

/-! ## Plans -/

namespace Plan

variable [Holds α] [Holds β] {kept : List Value}

theorem Sound.step {m : Eval α} (hm : m.Sound n) (hkept : ∀ v ∈ kept, v.Within n) :
    (Plan.step kept m).Sound A bound n where
  run := hm
  visits {held s _} hs hn hheld hvisits := by
    have hend := hm s hs hn
    -- what is held is in order before the step, and so is it after the step, with more scopes
    have hbefore : ∀ v ∈ kept ++ held, v.Within s.scopes.next :=
      List.forall_mem_append.2 ⟨fun v hv => (hkept v hv).mono hn, hheld⟩
    -- within a step there are no moments
    cases hvisits with
    | beforeStep => exact ⟨⟨hs, hbefore⟩, .refl _, hend.scopes⟩
    | afterStep =>
      have hafter := fun v hv => (hbefore v hv).mono hend.scopes.next_le
      exact ⟨⟨hend.founded, List.forall_mem_append.2 ⟨hend.values, hafter⟩⟩, hend.scopes, .refl _⟩

theorem Sound.done {a : α} (h : ∀ v ∈ Holds.values a, v.Within n) : (Plan.done a).Sound A bound n :=
  .step (Eval.sound_pure h) (List.forall_mem_nil _)

theorem Sound.bind {p : Plan α} {next : α → Plan β} (hp : p.Sound A bound n)
    (hnext : ∀ a k, n ≤ k → (∀ v ∈ Holds.values a, v.Within k) → (next a).Sound A bound k) :
    (Plan.bind p next).Sound A bound n where
  run := hp.run.bind fun a k hk ha => (hnext a k hk ha).run
  visits {held s m} hs hn hheld hvisits := by
    have hfirst := hp.run s hs hn
    have hwhole : (Plan.bind p next).realize A bound =
      p.realize A bound >>= fun a => (next a).realize A bound := rfl
    rw [hwhole]
    cases hvisits with
    | first hvisits =>
      obtain ⟨hm, hbefore, hafter⟩ := hp.visits hs hn hheld hvisits
      refine ⟨hm, hbefore, hafter.trans ?_⟩
      -- scopes that are there at the end of the first part stay in their places in the second
      rcases h : s.run (p.realize A bound) with ⟨stop | a, t⟩ <;> rw [h] at hfirst
      · rw [run_bind_of_error _ h]
        exact .refl _
      · rw [run_bind_of_ok _ h]
        have hmore : n ≤ t.scopes.next := hn.trans hfirst.scopes.next_le
        exact ((hnext a _ hmore hfirst.values).run t hfirst.founded (Nat.le_refl _)).scopes
    | @next _ _ _ _ _ _ _ t a _ h hvisits =>
      rw [h] at hfirst
      rw [run_bind_of_ok _ h]
      have hgrown := hfirst.scopes.next_le
      have hsecond := hnext a _ (hn.trans hgrown) hfirst.values
      obtain ⟨hm, hbefore, hafter⟩ := hsecond.visits hfirst.founded (Nat.le_refl _)
        (fun v hv => (hheld v hv).mono hgrown) hvisits
      exact ⟨hm, hfirst.scopes.trans hbefore, hafter⟩

theorem Sound.within {parent : Session → ScopeId} {p : Plan α} (hp : p.Sound A bound n)
    (hparent : ∀ s : Session, s.Founded → n ≤ s.scopes.next → parent s < s.scopes.next) :
    (Plan.within parent p).Sound A bound n where
  run s hs hn := hp.run.inNewScope hs hn (hparent s hs hn)
  visits {held s m} hs hn hheld hvisits := by
    cases hvisits with
    | within hvisits =>
      -- all moments are between the entering of the scope and its leaving, which moves no scope
      have hentered := s.extends_enter (parent s)
      obtain ⟨hm, hbefore, hafter⟩ := hp.visits (hs.enter (hparent s hs hn))
        (hn.trans hentered.next_le) (fun v hv => (hheld v hv).mono hentered.next_le) hvisits
      refine ⟨hm, hentered.trans hbefore, ?_⟩
      show m.session.scopes.Extends (s.run (Eval.inNewScope (parent s) (p.realize A bound))).2.scopes
      rw [run_inNewScope]
      exact hafter

/-- A task for which nothing is left of the bound is not done. -/
theorem Sound.task_zero {t : Task α} (ht : ∀ v ∈ t.values, v.Within n) (hkept : ∀ v ∈ kept, v.Within n) :
    (Plan.task kept t).Sound A 0 n where
  run := by
    show (t.eval A 0).Sound n
    rw [Task.eval_zero]
    exact Eval.sound_throw .exhausted
  visits {held s m} hs hn hheld hvisits := by
    have hvalues : ∀ v ∈ t.values ++ (kept ++ held), v.Within s.scopes.next := by
      simp only [List.forall_mem_append]
      exact ⟨fun v hv => (ht v hv).mono hn, fun v hv => (hkept v hv).mono hn, hheld⟩
    have hrun : (Plan.task kept t).realize A 0 = throw .exhausted := t.eval_zero
    rw [hrun]
    cases hvisits with
    | beforeTask => exact ⟨⟨hs, hvalues⟩, .refl _, .refl _⟩
    | afterTask =>
      rw [Task.eval_zero]
      exact ⟨⟨hs, hvalues⟩, .refl _, .refl _⟩

/-- A task is sound if its plan is. -/
theorem Sound.task_succ {t : Task α} (hplan : (t.plan A).Sound A bound n)
    (ht : ∀ v ∈ t.values, v.Within n) (hkept : ∀ v ∈ kept, v.Within n) :
    (Plan.task kept t).Sound A (bound + 1) n where
  run := by
    show (t.eval A (bound + 1)).Sound n
    rw [Task.eval_succ]
    exact hplan.run
  visits {held s m} hs hn hheld hvisits := by
    have hkeptHeld : ∀ v ∈ kept ++ held, v.Within s.scopes.next :=
      List.forall_mem_append.2 ⟨fun v hv => (hkept v hv).mono hn, hheld⟩
    have hvalues : ∀ v ∈ t.values ++ (kept ++ held), v.Within s.scopes.next :=
      List.forall_mem_append.2 ⟨fun v hv => (ht v hv).mono hn, hkeptHeld⟩
    have hend := hplan.run s hs hn
    have hrun : (Plan.task kept t).realize A (bound + 1) = (t.plan A).realize A bound := t.eval_succ
    rw [hrun]
    -- before and after a task its values are held, and in between those of its plan
    cases hvisits with
    | beforeTask => exact ⟨⟨hs, hvalues⟩, .refl _, hend.scopes⟩
    | inTask hvisits => exact hplan.visits hs hn hkeptHeld hvisits
    | afterTask =>
      rw [Task.eval_succ]
      have hafter := fun v hv => (hvalues v hv).mono hend.scopes.next_le
      exact ⟨⟨hend.founded, List.forall_mem_append.2 ⟨hend.values, hafter⟩⟩, hend.scopes, .refl _⟩

end Plan

/-! ## Tasks -/

/-- All tasks are sound under a bound, whatever is held meanwhile. -/
structure Task.SoundWithin (A : Arithmetic) (bound : Nat) : Prop where
  evaluate (e : Expr) {n : Nat} {kept : List Value} (hkept : ∀ v ∈ kept, v.Within n) :
    (Plan.task kept (.evaluate e)).Sound A bound n
  evaluateEach (es : List Expr) {n : Nat} {kept : List Value} (hkept : ∀ v ∈ kept, v.Within n) :
    (Plan.task kept (.evaluateEach es)).Sound A bound n
  call {callee : Value} (paren : Token) {arguments : List Value} {n : Nat} {kept : List Value}
    (hvalues : ∀ v ∈ callee :: arguments, v.Within n) (hkept : ∀ v ∈ kept, v.Within n) :
    (Plan.task kept (.call callee paren arguments)).Sound A bound n
  execute (statement : Stmt) {n : Nat} {kept : List Value} (hkept : ∀ v ∈ kept, v.Within n) :
    (Plan.task kept (.execute statement)).Sound A bound n
  executeEach (statements : List Stmt) {n : Nat} {kept : List Value} (hkept : ∀ v ∈ kept, v.Within n) :
    (Plan.task kept (.executeEach statements)).Sound A bound n

namespace Task

open Plan

variable {callee : Value} {arguments : List Value}

theorem values_completion {c : Completion} (h : ∀ v ∈ Holds.values c, v.Within n) : c.value.Within n := by
  cases c with
  | normal => exact Value.within_of_closure?_eq_none rfl
  | returned v => exact h v (List.mem_singleton_self v)

/-- Parameters are bound one by one, and the arguments still to be bound are held. -/
theorem sound_bindings {kept : List Value} (hkept : ∀ v ∈ kept, v.Within n) (parameters : List Token)
    (harguments : ∀ v ∈ arguments, v.Within n) :
    (bindings kept parameters arguments).Sound A bound n := by
  -- for any number of scopes, since the rule for plans in a row allows for more behind the first
  induction parameters generalizing arguments n with
  | nil => exact .done (List.forall_mem_nil _)
  | cons parameter parameters ih =>
    cases arguments with
    | nil => exact .done (List.forall_mem_nil _)
    | cons argument arguments =>
      have hall : ∀ v ∈ argument :: arguments ++ kept, v.Within n :=
        List.forall_mem_append.2 ⟨harguments, hkept⟩
      have hfirst := harguments argument (List.mem_cons_self ..)
      refine Sound.bind (.step (Eval.sound_define _ hfirst) hall) fun _ k hk _ => ?_
      exact ih (fun v hv => (hkept v hv).mono hk)
        fun v hv => (harguments v (List.mem_cons_of_mem _ hv)).mono hk

variable (h : SoundWithin A bound)
include h

theorem sound_planEvaluate (e : Expr) : (planEvaluate A e).Sound A bound n := by
  have hnone : ∀ {k : Nat}, ∀ v ∈ ([] : List Value), v.Within k := List.forall_mem_nil _
  cases e with
  | literal value =>
    refine .done (List.forall_mem_singleton.2 (Value.within_of_closure?_eq_none ?_))
    exact Literal.closure?_value value
  | grouping inner => exact h.evaluate inner hnone
  | unary op operand =>
    refine Sound.bind (h.evaluate operand hnone) fun v k _ hv => .step ?_ hv
    exact Eval.sound_ofOperation fun r hr =>
      Value.within_of_closure?_eq_none (Operation.closure?_unary hr)
  | binary op left right =>
    refine Sound.bind (h.evaluate left hnone) fun v k _ hv => ?_
    refine Sound.bind (h.evaluate right hv) fun w i hi hw => .step ?_ ?_
    · exact Eval.sound_ofOperation fun r hr =>
        Value.within_of_closure?_eq_none (Operation.closure?_binary hr)
    · exact List.forall_mem_cons.2 ⟨(hv v (List.mem_singleton_self v)).mono hi, hw⟩
  | logical op left right =>
    refine Sound.bind (h.evaluate left hnone) fun v k _ hv => ?_
    dsimp only
    -- the left value is the answer, or it is dropped for the right one
    generalize (if op.kind = .keyword .or then v.truthy else !v.truthy) = decided
    cases decided with
    | true => exact .done hv
    | false => exact h.evaluate right hv
  | «variable» name => exact .step (Eval.sound_lookup name) hnone
  | assign name value =>
    refine Sound.bind (h.evaluate value hnone) fun v k _ hv => ?_
    have hvalue := hv v (List.mem_singleton_self v)
    refine Sound.bind (.step (Eval.sound_assign name hvalue) hv) fun _ i hi _ => .done ?_
    exact List.forall_mem_singleton.2 (hvalue.mono hi)
  | call callee paren arguments =>
    refine Sound.bind (h.evaluate callee hnone) fun v k _ hv => ?_
    refine Sound.bind (h.evaluateEach arguments hv) fun vs i hi hvs => ?_
    -- while the arguments are evaluated scopes may be added, none is taken away
    have hcallee := (hv v (List.mem_singleton_self v)).mono hi
    exact h.call paren (List.forall_mem_cons.2 ⟨hcallee, hvs⟩) hnone

theorem sound_planEvaluateEach (es : List Expr) : (planEvaluateEach es).Sound A bound n := by
  cases es with
  | nil => exact .done (List.forall_mem_nil _)
  | cons e es =>
    refine Sound.bind (h.evaluate e (List.forall_mem_nil _)) fun v k _ hv => ?_
    refine Sound.bind (h.evaluateEach es hv) fun vs i hi hvs => .done ?_
    exact List.forall_mem_cons.2 ⟨(hv v (List.mem_singleton_self v)).mono hi, hvs⟩

/-- The scope of a call stands inside the closure of the function. -/
theorem sound_planCall (paren : Token) (hvalues : ∀ v ∈ callee :: arguments, v.Within n) :
    (planCall callee paren arguments).Sound A bound n := by
  obtain ⟨hcallee, harguments⟩ := List.forall_mem_cons.1 hvalues
  unfold planCall
  split
  · rename_i object parameters body closure
    by_cases hcount : arguments.length = parameters.length
    · rw [if_pos hcount]
      -- the closure is a scope because the function is held, no matter how long ago it was made
      have hclosure : closure < n := hcallee closure rfl
      refine Sound.within ?_ fun s _ hn => Nat.lt_of_lt_of_le hclosure hn
      have hfirst : (bindings _ parameters arguments).Sound A bound n :=
        sound_bindings (List.forall_mem_singleton.2 hcallee) parameters harguments
      refine Sound.bind hfirst fun _ k hk _ => ?_
      have hlater := fun v hv => (hvalues v hv).mono hk
      exact Sound.bind (h.executeEach body hlater) fun c i _ hc =>
        .done (List.forall_mem_singleton.2 (values_completion hc))
    · rw [if_neg hcount]
      exact .step (Eval.sound_throw _) hvalues
  · exact .step (Eval.sound_callNative _ paren harguments) hvalues
  · exact .step (Eval.sound_throw _) hvalues

theorem sound_planExecute (statement : Stmt) : (planExecute statement).Sound A bound n := by
  have hnone : ∀ {k : Nat}, ∀ v ∈ ([] : List Value), v.Within k := List.forall_mem_nil _
  have hnormal : ∀ {k : Nat}, (Plan.done Completion.normal).Sound A bound k := .done (List.forall_mem_nil _)
  cases statement with
  | expression value => exact Sound.bind (h.evaluate value hnone) fun _ _ _ _ => hnormal
  | print value =>
    refine Sound.bind (h.evaluate value hnone) fun v k _ hv => ?_
    exact Sound.bind (.step (Eval.sound_printLine v) hv) fun _ _ _ _ => hnormal
  | var name initial =>
    cases initial with
    | none =>
      have hnil : Value.nil.Within n := Value.within_of_closure?_eq_none rfl
      exact Sound.bind (.step (Eval.sound_define _ hnil) hnone) fun _ _ _ _ => hnormal
    | some initial =>
      refine Sound.bind (h.evaluate initial hnone) fun v k _ hv => ?_
      have hvalue := hv v (List.mem_singleton_self v)
      exact Sound.bind (.step (Eval.sound_define _ hvalue) hv) fun _ _ _ _ => hnormal
  | block body => exact Sound.within (h.executeEach body hnone) fun s hs _ => hs.active
  | ifThen condition body =>
    refine Sound.bind (h.evaluate condition hnone) fun v k _ _ => ?_
    by_cases htruthy : v.truthy
    · rw [if_pos htruthy]
      exact h.execute body hnone
    · rw [if_neg htruthy]
      exact hnormal
  | ifElse condition body otherwise =>
    refine Sound.bind (h.evaluate condition hnone) fun v k _ _ => ?_
    by_cases htruthy : v.truthy
    · rw [if_pos htruthy]
      exact h.execute body hnone
    · rw [if_neg htruthy]
      exact h.execute otherwise hnone
  -- a loop goes on as a statement of its own, with a bound that is one less
  | loop condition body =>
    refine Sound.bind (h.evaluate condition hnone) fun v k _ _ => ?_
    by_cases htruthy : v.truthy
    · rw [if_pos htruthy]
      refine Sound.bind (h.execute body hnone) fun c i _ hc => ?_
      cases c with
      | normal => exact h.execute _ hnone
      | returned v => exact .done hc
    · rw [if_neg htruthy]
      exact hnormal
  | function name parameters body =>
    refine Sound.bind (.step (Eval.sound_makeFunction name parameters body) hnone) fun f k _ hf => ?_
    -- the closure is the active scope, which is there since the function was made
    have hvalue := hf _ (List.mem_singleton_self _)
    exact Sound.bind (.step (Eval.sound_define _ hvalue) hf) fun _ _ _ _ => hnormal
  | result keyword value =>
    cases value with
    | none => exact .done (List.forall_mem_singleton.2 (Value.within_of_closure?_eq_none rfl))
    | some value => exact Sound.bind (h.evaluate value hnone) fun v k _ hv => .done hv

theorem sound_planExecuteEach (statements : List Stmt) :
    (planExecuteEach statements).Sound A bound n := by
  cases statements with
  | nil => exact .done (List.forall_mem_nil _)
  | cons s ss =>
    refine Sound.bind (h.execute s (List.forall_mem_nil _)) fun c k _ hc => ?_
    cases c with
    | normal => exact h.executeEach ss (List.forall_mem_nil _)
    | returned v => exact .done hc

omit h in
/-- Whatever is to be done, all moments of it are in order. -/
theorem sound_within (A : Arithmetic) (bound : Nat) : SoundWithin A bound := by
  induction bound with
  | zero =>
    constructor <;> intros
    case call hvalues hkept => exact .task_zero hvalues hkept
    all_goals exact .task_zero (List.forall_mem_nil _) (by assumption)
  | succ bound ih =>
    constructor
    · exact fun e => .task_succ (sound_planEvaluate ih e) (List.forall_mem_nil _)
    · exact fun es => .task_succ (sound_planEvaluateEach ih es) (List.forall_mem_nil _)
    · intro callee paren arguments n kept hvalues
      exact .task_succ (sound_planCall ih paren hvalues) hvalues
    · exact fun statement => .task_succ (sound_planExecute ih statement) (List.forall_mem_nil _)
    · exact fun statements => .task_succ (sound_planExecuteEach ih statements) (List.forall_mem_nil _)

end Task

/-! ## Sessions that hosts can have -/

namespace Session

variable {s : Session}

theorem Founded.executeEach (hs : s.Founded) (bound : Nat) (statements : List Stmt) :
    s.Leaves (s.run (Eval.executeEach A bound statements)) :=
  ((Task.sound_within A bound).executeEach statements (List.forall_mem_nil _)).run s hs (Nat.le_refl _)

theorem Founded.interpret (hs : s.Founded) (bound : Nat) (program : Program) :
    (s.interpret A bound program).2.Founded := by
  rw [interpret_snd]
  exact (hs.executeEach bound program).founded

theorem Founded.defineNative (hs : s.Founded) (name : String) {native : Native}
    (hnative : native.Confined) : (s.defineNative name native).Founded := by
  -- a native function has no closure
  have hvalue : (Value.function (.native s.natives.size)).Within s.scopes.next :=
    Value.within_of_closure?_eq_none rfl
  have hdefined := (hs.define hs.scopes.globals name hvalue).founded
  refine ⟨hdefined.scopes, hdefined.active, fun other hother => ?_⟩
  rcases Array.mem_push.1 hother with hother | rfl
  · exact hs.confined other hother
  · exact hnative

theorem bare_founded (clock : Clock) (sink : Sink) : (bare clock sink).Founded where
  scopes := by
    refine ⟨(bare_grounded clock sink).scopes, Nat.zero_lt_one, fun {id scope} hscope => ?_⟩
    -- the one scope there is stands in no other
    have hroot : (bare clock sink).scopes.all = #[.within none] := rfl
    rw [hroot, Array.getElem?_singleton] at hscope
    by_cases hid : id = 0
    · rw [if_pos hid] at hscope
      obtain rfl := Option.some.inj hscope
      exact ⟨fun _ => hid, fun _ => rfl⟩
    · rw [if_neg hid] at hscope
      cases hscope
  active := Nat.zero_lt_one
  confined native hnative := absurd hnative (Array.not_mem_empty native)

/-- The sessions that a host can have are in order if the native functions do not make up closures. -/
theorem Used.founded (h : Used A s) (hnatives : ∀ native ∈ s.natives, native.Confined) : s.Founded :=
  h.of_natives (by rintro _ ⟨⟩) bare_founded (fun _ name _ hs => hs.defineNative name)
    (fun _ bound program hs => hs.interpret bound program) hnatives

/-! ## The moments of a run -/

/-- In the course of a run of the program in the session, there is the moment `m`. -/
def Visits (A : Arithmetic) (bound : Nat) (program : Program) (s : Session) (m : Moment) : Prop :=
  (Plan.task [] (.executeEach program)).Visits A bound [] s m

/-- At every moment of every run in a session that a host can have, and so inside of blocks and calls and after
errors, all scopes but the global one stand inside older ones. No scope is ever moved, neither up to that
moment nor after it. The closures of all values are scopes, those of the values that are bound and those of
the values that are held. From each scope there is a way outwards, to the global one, on which no scope comes
twice. A search for a name goes along this way, without any limit, and a lookup or an assignment fails if and
only if no scope on it binds the name. -/
theorem visits_founded (hs : Used A s) (hnatives : ∀ native ∈ s.natives, native.Confined) (bound : Nat)
    (program : Program) {m : Moment} (hm : s.Visits A bound program m) :
    let t := m.session.scopes
    (globals < t.next ∧ m.session.active < t.next ∧
      ∀ (id : ScopeId) (scope : Scope), t.all[id]? = some scope →
        id = globals ∧ scope.parent = none ∨ id ≠ globals ∧ ∃ p < id, scope.parent = some p) ∧
    (s.scopes.Extends t ∧ t.Extends (s.interpret A bound program).2.scopes) ∧
    (∀ (id : ScopeId) (scope : Scope), t.all[id]? = some scope →
      ∀ binding ∈ scope.bindings, binding.2.Within t.next) ∧
    (∀ v ∈ m.values, v.Within t.next) ∧
    ∀ id < t.next, ∃ ids, t.Chain id ids ∧ ids.getLast? = some globals ∧ ids.Pairwise (· > ·) ∧
      ∀ name,
        (∀ limit ≥ ids.length,
          t.holderWithin name limit id = ids.find? fun i => (t.bound? i name).isSome) ∧
        t.holder? name id = ids.find? (fun i => (t.bound? i name).isSome) ∧
        (t.get? id name = none ↔ ∀ i ∈ ids, t.bound? i name = none) ∧
        ∀ v, t.assign? id name v = none ↔ ∀ i ∈ ids, t.bound? i name = none := by
  intro t
  have hsound := (Task.sound_within A bound).executeEach program (n := s.scopes.next) (List.forall_mem_nil _)
  -- every moment of a run is one of a plan that is sound
  obtain ⟨⟨hsession, hvalues⟩, hbefore, hafter⟩ :=
    hsound.visits (hs.founded hnatives) (Nat.le_refl _) (List.forall_mem_nil _) hm
  have ht : t.Founded := hsession.scopes
  refine ⟨⟨ht.globals, hsession.active, fun id scope hscope => ?_⟩, ⟨hbefore, ?_⟩, ?_, hvalues,
    fun id hid => ?_⟩
  · by_cases hglobals : id = globals
    · exact .inl ⟨hglobals, (ht.outermost hscope).2 hglobals⟩
    · obtain ⟨p, hp⟩ := Option.ne_none_iff_exists'.1 (mt (ht.outermost hscope).1 hglobals)
      exact .inr ⟨hglobals, p, ht.older hscope p hp, hp⟩
  · rw [interpret_snd]
    exact hafter
  · exact fun id scope hscope binding hbinding => ht.closures hscope binding hbinding
  · obtain ⟨ids, hids, hlast⟩ := ht.exists_chain hid
    refine ⟨ids, hids, hlast, (hids.decreasing ht.ordered).2, fun name => ?_⟩
    refine ⟨fun limit hlimit => hids.holderWithin hlimit, hids.holder? ht.ordered name,
      hids.get?_eq_none_iff ht.ordered name, fun v => ?_⟩
    -- an assignment looks for the name in the same way as a lookup
    unfold Scopes.assign?
    rw [Option.map_eq_none_iff, hids.holder? ht.ordered name, List.find?_eq_none]
    simp only [Bool.not_eq_true, Option.isSome_eq_false_iff, Option.isNone_iff_eq_none]

/-- When a function is declared in a block, it is held for a moment before it has its name. Its closure is the
scope of the block, and from there the way leads to the global scope. -/
theorem visits_founded_function_in_block :
    let f : Token := ⟨.identifier, "f", 1⟩
    let program : Program := [.block [.function f [] []]]
    let s := start (.stopped ⟨0⟩) .unlimited
    ∃ m : Moment, s.Visits .binary64 4 program m ∧
      m.values = [.function (.declared ⟨0, "f"⟩ [] [] 1)] ∧ m.session.active = 1 ∧
      (∀ v ∈ m.values, v.Within m.session.scopes.next) ∧
      ∃ ids, m.session.scopes.Chain m.session.active ids ∧ ids.getLast? = some globals := by
  intro f program s
  have hnatives : ∀ native ∈ s.natives, native.Confined := by
    have hclock : s.natives = #[⟨0, .readClock⟩] := rfl
    rw [hclock]
    intro native hnative answer haction
    obtain rfl := List.mem_singleton.1 (Array.mem_def.1 hnative)
    cases haction
  -- the program, its block, and the statements in it, up to the second step of the declaration
  have hm : s.Visits .binary64 4 program
      ⟨{ s.enter globals with objects := 1 }, [.function (.declared ⟨0, "f"⟩ [] [] 1)]⟩ :=
    .inTask (.first (.inTask (.within (.inTask (.first (.inTask (.next rfl (.first .beforeStep))))))))
  obtain ⟨⟨-, hactive, -⟩, -, -, hvalues, hchains⟩ :=
    visits_founded (.start _ _) hnatives 4 program hm
  obtain ⟨ids, hids, hlast, -⟩ := hchains _ hactive
  exact ⟨_, hm, rfl, rfl, hvalues, ids, hids, hlast⟩

end Session

end LoxScript
