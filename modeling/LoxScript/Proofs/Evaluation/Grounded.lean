import LoxScript.Proofs.Evaluation.Changes
import LoxScript.Proofs.Evaluation.Parallel

/-!
# Grounded sessions

A session refers to its scopes by number. It is grounded if all these are numbers of scopes that it has,
and each scope stands inside an older one. A session that is not grounded cannot come about: hosts begin
with a grounded one, and what they run in it leaves a grounded one.

A grounded session is the same as itself along the layout in which every scope is in its own place, which
is where comparisons of runs begin. That runs leave grounded sessions follows from such a comparison, of a
run with itself.

## Main definitions

* `Session.Grounded`.
* `Layout.identity`: every scope in its own place.

## Main statements

* `Session.Grounded.moved_self`, `Session.Moved.grounded`: a session is grounded if and only if it can be
  compared.
* `Session.Grounded.keeps`: statements that declare nothing leave the names as they are.
* `Session.Used.grounded`: the sessions that a host can have are grounded.
-/

namespace LoxScript

/-- Scopes stand inside older scopes, and the closures of what they bind are scopes. -/
structure Scopes.Grounded (s : Scopes) : Prop where
  older : ∀ {id : ScopeId} {scope : Scope}, s.all[id]? = some scope → ∀ p ∈ scope.parent, p < id
  closures : ∀ {id : ScopeId} {scope : Scope}, s.all[id]? = some scope →
    ∀ binding ∈ scope.bindings, ∀ closure ∈ binding.2.closure?, closure < s.next

/-- A session with a scope for every number in it. -/
structure Session.Grounded (s : Session) : Prop where
  scopes : s.scopes.Grounded
  active : s.active < s.scopes.next
  oblivious : ∀ native ∈ s.natives, native.Oblivious

/-- The layout in which each of `count` scopes is in its own place. -/
def Layout.identity (count : Nat) : Layout := (List.range count).map fun id => ⟨id, true⟩

variable {W : Layout}

/-! ## Comparison with itself -/

namespace Layout

variable {count : Nat} {id id' : ScopeId} {place : Place}

theorem getElem?_identity_iff :
    (identity count)[id']? = some place ↔ id' < count ∧ place = ⟨id', true⟩ := by
  unfold identity
  rw [List.getElem?_map, Option.map_eq_some_iff]
  constructor
  · rintro ⟨_, hid, rfl⟩
    obtain ⟨hlt, rfl⟩ := List.getElem?_eq_some_iff.1 hid
    rw [List.length_range] at hlt
    exact ⟨hlt, by rw [List.getElem_range]⟩
  · rintro ⟨hlt, rfl⟩
    exact ⟨id', List.getElem?_range hlt, rfl⟩

theorem getElem?_identity (h : id < count) : (identity count)[id]? = some ⟨id, true⟩ :=
  getElem?_identity_iff.2 ⟨h, rfl⟩

theorem leads_identity (h : id < count) : (identity count).Leads id id :=
  ⟨true, getElem?_identity h⟩

@[simp]
theorem length_identity : (identity count).length = count := by simp [identity]

end Layout

theorem Value.moved_self {v : Value} {count : Nat} (h : ∀ closure ∈ v.closure?, closure < count) :
    v.Moved (Layout.identity count) v := by
  cases v with
  | function f =>
    cases f with
    | native index => exact .plain rfl
    | declared object parameters body closure =>
      exact .function (Layout.leads_identity (h closure rfl))
  | nil | bool | number | string => exact .plain rfl

/-- Some scope stands for the closure of a value that can be compared. -/
theorem Value.Moved.leads {v v' : Value} (h : v.Moved W v') :
    ∀ closure ∈ v.closure?, ∃ closure', W.Leads closure closure' := by
  intro closure hclosure
  cases h with
  | plain hplain =>
    rw [hplain] at hclosure
    cases hclosure
  | function hlead =>
    cases hclosure
    exact ⟨_, hlead⟩

theorem Scope.moved_self {scope : Scope} {id : ScopeId} {count : Nat} (hid : id < count)
    (holder : ∀ p ∈ scope.parent, p < id)
    (hclosures : ∀ binding ∈ scope.bindings, ∀ closure ∈ binding.2.closure?, closure < count) :
    Scope.Moved (Layout.identity count) id id scope scope := by
  refine ⟨List.forall₂_same.2 fun binding hbinding => ⟨rfl, ?_⟩, ?_⟩
  · exact Value.moved_self (hclosures binding hbinding)
  · obtain ⟨bindings, parent⟩ := scope
    cases parent with
    | none => exact .none
    | some p =>
      have hp : p < id := holder p rfl
      exact .some ⟨hp, hp, Layout.leads_identity (Nat.lt_trans hp hid)⟩

/-- Every value that is bound on one side can be compared. -/
theorem Scope.MovedBindings.moved_of_mem {bs bs' : List (String × Value)} (h : MovedBindings W bs bs')
    {binding : String × Value} (hbinding : binding ∈ bs) : ∃ v', binding.2.Moved W v' := by
  induction h with
  | nil => cases hbinding
  | cons hhead _ ih =>
    rcases List.mem_cons.1 hbinding with rfl | hbinding
    · exact ⟨_, hhead.2⟩
    · exact ih hbinding

namespace Scopes

variable {s s' : Scopes}

theorem Grounded.moved_self (h : s.Grounded) : Scopes.Moved (Layout.identity s.next) s s := by
  constructor
  · exact Layout.length_identity
  · rintro id id' ⟨proper, hplace⟩
    obtain ⟨hlt, hself⟩ := Layout.getElem?_identity_iff.1 hplace
    cases hself
    exact hlt
  · intro id id' hplace
    obtain ⟨hlt, hself⟩ := Layout.getElem?_identity_iff.1 hplace
    cases hself
    have hscope : s.all[id]? = some s.all[id] := Array.getElem?_eq_getElem hlt
    exact ⟨_, _, hscope, hscope, Scope.moved_self hlt (h.older hscope) (h.closures hscope)⟩
  -- no scope is an empty one that stands for another
  · intro id id' hplace
    cases (Layout.getElem?_identity_iff.1 hplace).2
  · intro id hid
    exact ⟨id, Layout.getElem?_identity hid⟩
  · intro id a b ha hb
    have ha := (Layout.getElem?_identity_iff.1 ha).2
    have hb := (Layout.getElem?_identity_iff.1 hb).2
    cases ha
    cases hb
    rfl

theorem Moved.grounded (h : Scopes.Moved W s s') : s.Grounded := by
  -- each scope of the first session is one of the second, and is compared with it
  have hmoved : ∀ {id scope}, s.all[id]? = some scope →
      ∃ id' scope', Scope.Moved W id id' scope scope' := by
    intro id scope hscope
    obtain ⟨id', hplace⟩ := h.covers (lt_next_of_getElem? hscope)
    obtain ⟨found, scope', hfound, -, hmoved⟩ := h.proper hplace
    obtain rfl := Option.some.inj (hscope.symm.trans hfound)
    exact ⟨id', scope', hmoved⟩
  constructor
  · intro id scope hscope p hp
    obtain ⟨id', scope', hmoved⟩ := hmoved hscope
    have hparent := hmoved.parent
    rw [hp] at hparent
    generalize scope'.parent = parent' at hparent
    cases hparent with
    | some hparent => exact hparent.1
  · intro id scope hscope binding hbinding closure hclosure
    obtain ⟨id', scope', hmoved⟩ := hmoved hscope
    obtain ⟨v', hvalue⟩ := hmoved.bindings.moved_of_mem hbinding
    obtain ⟨closure', hlead⟩ := hvalue.leads closure hclosure
    exact h.inside hlead

/-- Another value may be bound if its closure is a scope. -/
theorem Grounded.define (h : s.Grounded) {target : ScopeId} (htarget : target < s.next) (name : String)
    {v : Value} (hv : ∀ closure ∈ v.closure?, closure < s.next) : (s.define target name v).Grounded := by
  have hplace : (Layout.identity s.next)[target]? = some ⟨target, true⟩ :=
    Layout.getElem?_identity htarget
  exact (h.moved_self.define hplace name (Value.moved_self hv)).grounded

end Scopes

/-! ## Sessions -/

namespace Session

variable {proper : Bool} {s s' t : Session} {A : Arithmetic}

theorem Grounded.moved_self (h : s.Grounded) :
    Session.Moved (Layout.identity s.scopes.next) true s s where
  scopes := h.scopes.moved_self
  active := Layout.getElem?_identity h.active
  natives := rfl
  oblivious := h.oblivious
  objects := rfl
  clock := rfl
  readings := rfl
  output := rfl
  sink := rfl

theorem Moved.grounded (h : Session.Moved W proper s s') : s.Grounded :=
  ⟨h.scopes.grounded, h.scopes.inside h.leads, h.oblivious⟩

/-- What runs in parallel with itself leaves a grounded session. -/
theorem Grounded.run {α : Type} {R : Layout → α → α → Prop} {m : Eval α} (h : s.Grounded)
    (hm : ∀ W, Eval.Parallel .even W true R m m) : (s.run m).2.Grounded := by
  rcases (hm _).run List.prefix_rfl h.moved_self with ⟨⟨⟩⟩ | ⟨U, -, -, hmoved, -⟩
  exact hmoved.grounded

theorem Grounded.executeEach (h : s.Grounded) (bound : Nat) (ss : List Stmt) :
    (s.run (Eval.executeEach A bound ss)).2.Grounded := by
  have hparallel : Eval.Parallel.Within .even A bound bound := Eval.parallel A ⟨rfl, rfl⟩
  exact h.run fun W => hparallel.executeEach W ss

/-! ## Names that stay -/

theorem Keeps.holderWithin (h : s.Keeps false t) (hs : s.Grounded) (name : String) (bound : Nat)
    {id : ScopeId} (hid : id < s.scopes.next) :
    t.scopes.holderWithin name bound id = s.scopes.holderWithin name bound id := by
  induction bound generalizing id with
  | zero => rfl
  | succ bound ih =>
    have hscope : s.scopes.all[id]? = some s.scopes.all[id] := Array.getElem?_eq_getElem hid
    have houtline := h.outline id hid (by simp)
    unfold Session.outline at houtline
    rw [hscope] at houtline
    obtain ⟨scope', hscope', heq⟩ := Option.map_eq_some_iff.1 houtline
    obtain ⟨hbinds, hparent⟩ := Prod.mk.inj heq
    simp only [Scopes.holderWithin, hscope, hscope', Option.bind_eq_bind, Option.bind_some]
    rw [hbinds, hparent]
    split
    · rfl
    -- the search goes on outwards, in a scope that was there before as well
    · cases hp : s.scopes.all[id].parent with
      | none => rfl
      | some p => exact ih (Nat.lt_trans (hs.scopes.older hscope p hp) hid)

/-- Every name belongs to the same scope as before where no scope has got further names. -/
theorem Keeps.holder? (h : s.Keeps false t) (hs : s.Grounded) (name : String) :
    t.scopes.holder? name t.active = s.scopes.holder? name s.active := by
  rw [h.active]
  exact h.holderWithin hs name (s.active + 1) hs.active

/-- Statements that declare nothing in the scope that they stand in give no scope further names, except
those that they make. -/
theorem Grounded.keeps (h : s.Grounded) {statement : Stmt} (hstatement : statement.Undeclaring)
    (bound : Nat) : s.Keeps false (s.run (Eval.execute A bound statement)).2 := by
  have hparallel : Eval.Parallel.Within .even A bound bound := Eval.parallel A ⟨rfl, rfl⟩
  -- the same statement could run in an empty scope, and there nothing is ever bound
  have hempty := h.moved_self.enterEmpty
  rcases (hparallel.execute _ (.inr hstatement)).run List.prefix_rfl hempty with
    ⟨⟨⟩⟩ | ⟨_, -, -, -, hkeeps⟩
  exact hkeeps

/-! ## Sessions that hosts can have -/

theorem Grounded.defineNative (h : s.Grounded) (name : String) {native : Native}
    (hnative : native.Oblivious) : (s.defineNative name native).Grounded := by
  have hglobals : globals < s.scopes.next := Nat.lt_of_le_of_lt (Nat.zero_le _) h.active
  -- a native function has no closure
  have hvalue : ∀ closure ∈ (Value.function (.native s.natives.size)).closure?,
      closure < s.scopes.next := by
    intro closure hclosure
    cases hclosure
  refine ⟨h.scopes.define hglobals name hvalue, ?_, ?_⟩
  · show s.active < (s.scopes.define _ _ _).next
    rw [Scopes.next_define]
    exact h.active
  · intro other hother
    rcases Array.mem_push.1 hother with hother | rfl
    · exact h.oblivious other hother
    · exact hnative

theorem bare_grounded (clock : Clock) (sink : Sink) : (bare clock sink).Grounded := by
  -- the one scope there is stands in no other and binds nothing
  have hroot : ∀ {id : ScopeId} {scope : Scope}, Scopes.empty.newRoot.all[id]? = some scope →
      scope = .within none := by
    intro id scope hscope
    rw [Scopes.newRoot, Scopes.getElem?_add] at hscope
    split at hscope <;> cases hscope
    rfl
  refine ⟨⟨fun hscope p hp => ?_, fun hscope binding hbinding => ?_⟩, Nat.zero_lt_one, ?_⟩
  · rw [hroot hscope] at hp
    cases hp
  · rw [hroot hscope] at hbinding
    cases hbinding
  · exact fun native hnative => absurd hnative (Array.not_mem_empty native)

/-- Running a program leaves a grounded session. -/
theorem Grounded.interpret (h : s.Grounded) (bound : Nat) (program : Program) :
    (s.interpret A bound program).2.Grounded := by
  rw [interpret_snd]
  exact h.executeEach bound program

/-- What holds before any native function is defined, and is kept when one with the property `P` is, holds of
every session that a host can have with such functions only, if running a program keeps it. -/
theorem Used.of_natives {P : Native → Prop} {I : Session → Prop} (hclock : P ⟨0, .readClock⟩)
    (hbare : ∀ clock sink, I (bare clock sink))
    (hdefine : ∀ s name native, I s → P native → I (s.defineNative name native))
    (hrun : ∀ s bound program, I s → I (s.interpret A bound program).2)
    (h : Used A s) (hnatives : ∀ native ∈ s.natives, P native) : I s := by
  induction h with
  | start clock sink => exact hdefine _ _ _ (hbare clock sink) hclock
  | @defineNative s _ name native ih =>
    have hothers : ∀ other ∈ s.natives, P other := fun other hother =>
      hnatives other (Array.mem_push_of_mem _ hother)
    exact hdefine s name native (ih hothers) (hnatives native Array.mem_push_self)
  | interpret _ bound program ih =>
    rw [(changes_interpret _ bound program).natives] at hnatives
    exact hrun _ bound program (ih hnatives)
  | runSource _ bound source ih =>
    rw [(changes_runSource _ bound source).natives] at hnatives
    unfold Session.runSource
    split
    · exact hrun _ bound _ (ih hnatives)
    · exact ih hnatives

/-- The sessions that a host can have are grounded, if the native functions do not notice where closures
are. -/
theorem Used.grounded (h : Used A s) (hnatives : ∀ native ∈ s.natives, native.Oblivious) : s.Grounded :=
  h.of_natives (by rintro _ ⟨⟩) bare_grounded (fun _ name _ hs => hs.defineNative name)
    (fun _ bound program hs => hs.interpret bound program) hnatives

end Session

end LoxScript
