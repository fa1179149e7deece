import LoxScript.Proofs.Evaluation.Exact
import LoxScript.Proofs.Evaluation.Simulation

/-!
# Calls are isolated

A call only has to do with the scopes that it can get at: those that the function and the arguments hold
on to, what these lead to, and the scopes that it makes itself. All others it neither changes nor
notices, and it does not notice where it is called from.

The proof compares the run with itself and with a run in a session that differs in the scopes that are
out of reach. Both times the likeness is exact, so that like outcomes are equal outcomes.

## Main definitions

* `Scopes.Reaches`: the scopes that values lead to.
* `Session.AgreesOn`: sessions with the same contents in some scopes.
* `Native.Confined`: a native function makes no closures of its own.

## Main statements

* `Session.run_call_setActive`: a call does not depend on the active scope.
* `Session.call_isolated`: a call stays in its reach.
-/

namespace LoxScript

/-- The scopes that values lead to: their closures, the scopes around those, and the closures of the
values that are bound there. -/
inductive Scopes.Reaches (scopes : Scopes) (values : List Value) : ScopeId → Prop where
  | closure {v : Value} {id : ScopeId} (hv : v ∈ values) (hid : id ∈ v.closure?) :
      Reaches scopes values id
  | parent {id p : ScopeId} {scope : Scope} (hid : Reaches scopes values id)
      (hscope : scopes.all[id]? = some scope) (hp : p ∈ scope.parent) : Reaches scopes values p
  | captured {id c : ScopeId} {scope : Scope} {binding : String × Value}
      (hid : Reaches scopes values id) (hscope : scopes.all[id]? = some scope)
      (hbinding : binding ∈ scope.bindings) (hc : c ∈ binding.2.closure?) : Reaches scopes values c

/-- A native function has closures from its arguments only. -/
def Native.Confined (native : Native) : Prop :=
  ∀ answer, native.action = .compute answer → ∀ arguments v, answer arguments = .ok v →
    ∀ closure ∈ v.closure?, ∃ argument ∈ arguments, closure ∈ argument.closure?

/-- Two sessions are the same but for the active scope and the contents of scopes outside `R`. -/
structure Session.AgreesOn (R : ScopeId → Prop) (s t : Session) : Prop where
  next : t.scopes.next = s.scopes.next
  scope : ∀ id, R id → t.scopes.all[id]? = s.scopes.all[id]?
  natives : t.natives = s.natives
  objects : t.objects = s.objects
  clock : t.clock = s.clock
  readings : t.readings = s.readings
  output : t.output = s.output
  sink : t.sink = s.sink

variable {within : ScopeId → Prop}

/-- What is reached from inside stays inside. -/
theorem Scopes.Reaches.inside {scopes : Scopes} {values : List Value} {id : ScopeId}
    (hvalues : ∀ v ∈ values, ∀ closure ∈ v.closure?, within closure)
    (hscopes : ∀ id, within id → ∀ scope, scopes.all[id]? = some scope → scope.Inside within)
    (h : scopes.Reaches values id) : within id := by
  induction h with
  | closure hv hid => exact hvalues _ hv _ hid
  | parent _ hscope hp ih => exact (hscopes _ ih _ hscope).parent _ hp
  | captured _ hscope hbinding hc ih => exact (hscopes _ ih _ hscope).closures _ hbinding _ hc

theorem Native.Confined.respects {native : Native} (h : native.Confined) :
    native.Respects (.exact within) := by
  intro answer haction arguments arguments' harguments
  obtain ⟨rfl, hclosures⟩ := Value.likeEach_exact_iff.1 harguments
  cases hanswer : answer arguments with
  | error problem => exact .problem problem
  | ok v =>
    refine .value (Value.like_exact_iff.2 ⟨rfl, fun closure hclosure => ?_⟩)
    obtain ⟨argument, hargument, harg⟩ := h answer haction arguments v hanswer closure hclosure
    exact hclosures argument hargument closure harg

/-- Exactly alike outcomes are equal, and a value is inside. -/
theorem Outcome.eq_of_like {r r' : Except Stop Value}
    (h : Outcome.Like (.exact within) (Value.Like (.exact within)) r r') :
    r = r' ∧ ∀ v, r = .ok v → ∀ closure ∈ v.closure?, within closure := by
  cases h with
  | ok h =>
    obtain ⟨rfl, hclosure⟩ := Value.like_exact_iff.1 h
    refine ⟨rfl, ?_⟩
    rintro _ ⟨⟩
    exact hclosure
  | error h =>
    rw [Stop.like_exact_iff.1 h]
    exact ⟨rfl, by rintro _ ⟨⟩⟩

namespace Session

/-- What a native function answers does not depend on the active scope, which it leaves as it is. -/
theorem run_answer_setActive (native : Native) (paren : Token) (arguments : List Value) (s : Session)
    (active : ScopeId) :
    { s with active := active }.run (Eval.answer native paren arguments) =
      ((s.run (Eval.answer native paren arguments)).1,
        { (s.run (Eval.answer native paren arguments)).2 with active := active }) := by
  unfold Eval.answer
  rw [run_bind, run_bind]
  cases native.action with
  | readClock =>
    simp only [run_act_readClock]
    cases s.clock.value s.readings <;> rfl
  | compute answer =>
    simp only [run_act_compute]
    cases answer arguments <;> rfl

/-- A call does not depend on the active scope, and leaves it as it is. -/
theorem run_call_setActive (A : Arithmetic) (bound : Nat) (callee : Value) (paren : Token)
    (arguments : List Value) (s : Session) (active : ScopeId) :
    { s with active := active }.run (Eval.call A bound callee paren arguments) =
      ((s.run (Eval.call A bound callee paren arguments)).1,
        { (s.run (Eval.call A bound callee paren arguments)).2 with active := active }) := by
  cases bound with
  | zero => rfl
  | succ bound =>
    unfold Eval.call
    -- a declared function runs in a scope of its own, a native one in none
    split
    · split
      · rw [run_inNewScope, run_inNewScope]
        rfl
      · rfl
    · rename_i index
      rw [run_callNative, run_callNative]
      dsimp only
      cases s.natives[index]? with
      | none => rfl
      | some native =>
        dsimp only
        split
        · exact run_answer_setActive native paren arguments s active
        · rfl
    · rfl

/-- Sessions that agree on what values lead to are exactly alike in a scope still to be made. -/
theorem AgreesOn.like {s t : Session} {values : List Value}
    (h : s.AgreesOn (s.scopes.Reaches values) t)
    (hnatives : ∀ native ∈ s.natives, native.Confined) :
    Session.Like (.exact fun id => s.scopes.Reaches values id ∨ s.scopes.next ≤ id)
      { s with active := s.scopes.next } { t with active := s.scopes.next } where
  scopes := by
    refine Scopes.like_exact_iff.2 ⟨h.next, fun id hid => .inr hid, fun id hid => ?_⟩
    -- scopes in reach are the same in both sessions, and those still to be made are in neither
    rcases hid with hid | hid
    · exact ⟨h.scope id hid, fun scope hscope =>
        ⟨fun p hp => .inl (.parent hid hscope hp),
          fun binding hbinding c hc => .inl (.captured hid hscope hbinding hc)⟩⟩
    · have hnone : s.scopes.all[id]? = none := Array.getElem?_eq_none hid
      have hnone' : t.scopes.all[id]? = none :=
        Array.getElem?_eq_none (Nat.le_trans (Nat.le_of_eq h.next) hid)
      change t.scopes.all[id]? = s.scopes.all[id]? ∧ ∀ scope, s.scopes.all[id]? = some scope → _
      rw [hnone, hnone']
      exact ⟨rfl, by rintro _ ⟨⟩⟩
  active := rfl
  within := .inr (Nat.le_refl _)
  natives := h.natives
  respects native hnative := (hnatives native hnative).respects
  objects := h.objects
  clock := by
    show Clock.Like _ s.clock t.clock
    rw [h.clock]
    exact Clock.like_self (fun _ => rfl) s.clock
  readings := h.readings
  output := h.output
  sink := h.sink

/-- A call stays in its reach `R`, which is what the function and the arguments lead to: whatever the
bound and however it ends,

* the scopes outside `R` are the same afterwards;
* from any other session that agrees on `R`, it has the same result, the same output, and the same
  scopes in `R` and among the new ones;
* what it gives back leads only to scopes in `R` and to new ones.
-/
theorem call_isolated (A : Arithmetic) (bound : Nat) (f : Function) (paren : Token)
    (arguments : List Value) (s : Session) (hnatives : ∀ native ∈ s.natives, native.Confined) :
    let R := s.scopes.Reaches (.function f :: arguments)
    let call := Eval.call A bound (.function f) paren arguments
    (∀ id, id < s.scopes.next → ¬ R id →
      (s.run call).2.scopes.all[id]? = s.scopes.all[id]?) ∧
    (∀ t, s.AgreesOn R t → (t.run call).1 = (s.run call).1 ∧
      (s.run call).2.AgreesOn (fun id => R id ∨ s.scopes.next ≤ id) (t.run call).2) ∧
    ∀ v, (s.run call).1 = .ok v → ∀ id, (s.run call).2.scopes.Reaches [v] id →
      R id ∨ s.scopes.next ≤ id := by
  intro R call
  have hvalues : ∀ v ∈ Value.function f :: arguments, ∀ closure ∈ v.closure?,
      R closure ∨ s.scopes.next ≤ closure := fun v hv closure hclosure => .inl (.closure hv hclosure)
  obtain ⟨hf, harguments⟩ := List.forall_mem_cons.1 hvalues
  have hparen : (Likeness.exact fun id => R id ∨ s.scopes.next ≤ id).token paren paren := rfl
  have hcall := (Eval.alike (Likeness.exact_lawful A) bound).call
    (Value.like_exact_iff.2 ⟨rfl, hf⟩) hparen (Value.likeEach_exact_iff.2 ⟨rfl, harguments⟩)
  -- both runs from a new scope, where the active scope does not matter
  have hcompare (t : Session) (ht : s.AgreesOn R t) := hcall (ht.like hnatives)
  simp only [run_call_setActive] at hcompare
  have hself : s.AgreesOn R s := ⟨rfl, fun _ _ => rfl, rfl, rfl, rfl, rfl, rfl, rfl⟩
  obtain ⟨houtcome, hsession, hframe⟩ := hcompare s hself
  refine ⟨fun id hid hR => hframe id ?_, fun t ht => ?_, fun v hv id hid => ?_⟩
  · rintro (hin | hnew)
    · exact hR hin
    · exact absurd hid (Nat.not_lt.2 hnew)
  · obtain ⟨houtcome', hsession', -⟩ := hcompare t ht
    obtain ⟨hnext, -, hscope⟩ := Scopes.like_exact_iff.1 hsession'.scopes
    refine ⟨(Outcome.eq_of_like houtcome').1.symm, hnext, fun id hid => (hscope id hid).1,
      hsession'.natives, hsession'.objects, ?_, hsession'.readings, hsession'.output, hsession'.sink⟩
    exact (Clock.eq_of_like hsession'.clock).symm
  · obtain ⟨-, -, hscope⟩ := Scopes.like_exact_iff.1 hsession.scopes
    refine hid.inside ?_ fun id hid => (hscope id hid).2
    simpa using (Outcome.eq_of_like houtcome).2 v hv

/-- A function of a block is called, which changes a variable of the block. A second block is out of its
reach: it may have another value in it, and be the active scope, and the call is the same. -/
theorem call_isolated_block :
    let x : Token := ⟨.identifier, "x", 1⟩
    let z : Token := ⟨.identifier, "z", 1⟩
    let body : List Stmt := [.expression (.assign x (.variable z)), .print (.variable x),
      .result ⟨.keyword .return, "return", 1⟩ (some (.variable x))]
    let f : Function := .declared ⟨0, "f"⟩ [z] body 1
    let block : Scope := ⟨[("x", .string "a"), ("f", .function f)], some globals⟩
    let outermost : Scope := ⟨[("clock", .function (.native 0))], none⟩
    let session (y : Value) (active : ScopeId) : Session :=
      { start (.stopped ⟨0⟩) .unlimited with
        scopes := ⟨#[outermost, block, ⟨[("y", y)], some globals⟩]⟩
        active := active }
    let s := session (.bool true) globals
    let t := session (.string "b") 2
    let arguments : List Value := [.string "c"]
    let call := Eval.call .binary64 9 (.function f) ⟨.rightParen, ")", 1⟩ arguments
    (∀ native ∈ s.natives, native.Confined) ∧
      s.AgreesOn (s.scopes.Reaches (.function f :: arguments)) t ∧
      ¬s.scopes.Reaches (.function f :: arguments) 2 ∧
      (s.run call).1 = .ok (.string "c") ∧ (t.run call).1 = .ok (.string "c") ∧
      (s.run call).2.output = "c\n" ∧ (t.run call).2.output = "c\n" ∧
      ((t.run call).2.scopes.get? 1 "x").map Value.text = some "c" ∧
      (s.run call).2.scopes.all[2]? = s.scopes.all[2]? := by
  intro x z body f block outermost session s t arguments call
  have hnatives : ∀ native ∈ s.natives, native.Confined := by
    have hclock : s.natives = #[⟨0, .readClock⟩] := rfl
    rw [hclock]
    intro native hnative answer haction
    obtain rfl := List.mem_singleton.1 (Array.mem_def.1 hnative)
    cases haction
  -- the function leads to its block and to the global scope
  have hscopes : ∀ id, id < 2 → ∀ scope, s.scopes.all[id]? = some scope → scope.Inside (· < 2) := by
    intro id hid scope hscope
    match id, hid with
    | 0, _ =>
      obtain rfl : outermost = scope := Option.some.inj hscope
      constructor <;> simp [Value.closure?, outermost]
    | 1, _ =>
      obtain rfl : block = scope := Option.some.inj hscope
      constructor <;> simp [Value.closure?, f, block, globals]
  have hvalues : ∀ v ∈ (.function f :: arguments), ∀ closure ∈ v.closure?, closure < 2 := by
    simp [f, arguments, Value.closure?]
  have hreach : ∀ id, s.scopes.Reaches (.function f :: arguments) id → id < 2 :=
    fun id hid => @Scopes.Reaches.inside (· < 2) s.scopes _ id hvalues hscopes hid
  have hagrees : s.AgreesOn (s.scopes.Reaches (.function f :: arguments)) t := by
    refine ⟨rfl, fun id hid => ?_, rfl, rfl, rfl, rfl, rfl, rfl⟩
    match id, hreach id hid with
    | 0, _ | 1, _ => rfl
  have hout : ¬s.scopes.Reaches (.function f :: arguments) 2 :=
    fun h => absurd (hreach 2 h) (Nat.lt_irrefl 2)
  have hisolated := call_isolated .binary64 9 f ⟨.rightParen, ")", 1⟩ arguments s hnatives
  have hcall : Eval.call .binary64 9 (.function f) ⟨.rightParen, ")", 1⟩ arguments = call := rfl
  simp only [hcall] at hisolated
  obtain ⟨hframe, hsame, -⟩ := hisolated
  obtain ⟨hresult, hleft⟩ := hsame t hagrees
  have hvalue : (s.run call).1 = .ok (.string "c") := rfl
  have houtput : (s.run call).2.output = "c\n" := by decide +kernel
  have hassigned : ((t.run call).2.scopes.get? 1 "x").map Value.text = some "c" := by
    decide +kernel
  exact ⟨hnatives, hagrees, hout, hvalue, hresult.trans hvalue, houtput,
    hleft.output.trans houtput, hassigned, hframe 2 (Nat.lt_succ_self 2) hout⟩

end Session

end LoxScript
