import LoxScript.Proofs.Evaluation.Chain

/-!
# The history of scopes

What a name means in a forest of scopes is told by what was done to the scopes: which were made, and inside
which others, and what was written where. This module defines it from that history alone, without any search
from scope to scope, and shows that lookups, assignments and declarations do what the history says.

Scopes may be made inside any others, and outside all of them, so there may be many roots.

## Main definitions

* `Scopes.History`: what was done to scopes, step by step.
* `Scopes.History.chain`: the scopes from one scope outwards.
* `Scopes.History.written`: the value last written to a name in a scope.
* `Scopes.History.holder`: the innermost scope around a scope in which a name was ever written.

## Main statements

* `Scopes.History.scopes_ordered`, `Scopes.History.scopes_chain`, `Scopes.History.scopes_bound?`: the scopes
  that a history leaves.
* `Scopes.History.lookup_assign_define`: lookups, assignments and declarations behind any history.
-/

namespace LoxScript.Scopes

/-- What was done to scopes, from the first step to the last. -/
inductive History where
  /-- Nothing so far. -/
  | start
  /-- A further scope was made that stands in no other. -/
  | newRoot (h : History)
  /-- A further scope was made inside the given one. -/
  | newChild (h : History) (parent : ScopeId)
  /-- A name was bound in a scope. -/
  | define (h : History) (id : ScopeId) (name : String) (value : Value)
  /-- A name was assigned as seen from a scope, which may have failed. -/
  | assign (h : History) (id : ScopeId) (name : String) (value : Value)
  /-- A name was looked up from a scope. -/
  | get (h : History) (id : ScopeId) (name : String)

namespace History

/-- How many scopes were made. -/
def count : History → Nat
  | start => 0
  | newRoot h | newChild h _ => h.count + 1
  | define h .. | assign h .. | get h .. => h.count

/-- Each step concerned scopes that had been made by then. -/
def Valid : History → Prop
  | start => True
  | newRoot h => h.Valid
  | newChild h id | define h id .. | assign h id .. | get h id .. => id < h.count ∧ h.Valid

/-- The scopes that are there after all. An assignment that failed left them as they were. -/
def scopes : History → Scopes
  | start => .empty
  | newRoot h => h.scopes.newRoot
  | newChild h parent => h.scopes.newChild parent
  | define h id name value => h.scopes.define id name value
  | assign h id name value => (h.scopes.assign? id name value).getD h.scopes
  | get h .. => h.scopes

/-- The scopes from one scope outwards, beginning with itself. -/
def chain : History → ScopeId → List ScopeId
  | start, _ => []
  | newRoot h, id => if id = h.count then [id] else h.chain id
  | newChild h parent, id => if id = h.count then id :: h.chain parent else h.chain id
  | define h .., id | assign h .., id | get h .., id => h.chain id

/-- The value last written to a name in a scope, by a declaration there or by an assignment for which this
was the innermost scope in which the name had been written. -/
def written : History → ScopeId → String → Option Value
  | start, _, _ => none
  | define h target name value, id, x =>
    if id = target ∧ x = name then some value else h.written id x
  | assign h origin name value, id, x =>
    if (h.chain origin).find? (fun i => (h.written i name).isSome) = some id ∧ x = name then some value
    else h.written id x
  | newRoot h, id, x | newChild h _, id, x | get h .., id, x => h.written id x

/-- The innermost scope, from one scope outwards, in which a name was ever written. -/
def holder (h : History) (id : ScopeId) (x : String) : Option ScopeId :=
  (h.chain id).find? fun i => (h.written i x).isSome

variable {h : History} {id : ScopeId}

theorem written_assign (h : History) (origin : ScopeId) (name : String) (value : Value) (id : ScopeId)
    (x : String) :
    (h.assign origin name value).written id x =
      if h.holder origin name = some id ∧ x = name then some value else h.written id x := rfl

/-- A name was written in no scope around, or there is an innermost one. -/
theorem holder_eq_none_iff {x : String} :
    h.holder id x = none ↔ ∀ i ∈ h.chain id, h.written i x = none := by
  simp [holder, List.find?_eq_none]

/-- The innermost scope in which a name was written is met first on the way outwards. -/
theorem holder_eq_some_iff {x : String} {target : ScopeId} :
    h.holder id x = some target ↔
      h.written target x ≠ none ∧ Meets (h.written · x) target (h.chain id) :=
  find?_eq_some_iff_meets

/-! ## The scopes that a history leaves -/

theorem next_assign? (s : Scopes) (id : ScopeId) (name : String) (value : Value) :
    ((s.assign? id name value).getD s).next = s.next := by
  unfold assign?
  cases s.holder? name id with
  | none => rfl
  | some target => exact next_define s target name value

theorem scopes_next (h : History) : h.scopes.next = h.count := by
  induction h with
  | start => rfl
  | newRoot h ih | newChild h _ ih => exact (next_add _ _).trans (congrArg Nat.succ ih)
  | define h id name value ih => exact (next_define _ id name value).trans ih
  | assign h id name value ih => exact (next_assign? _ id name value).trans ih
  | get h id name ih => exact ih

/-- Whatever was done, a scope stands inside an older one or in none. -/
theorem scopes_ordered (hvalid : h.Valid) : h.scopes.Ordered := by
  induction h with
  | start => exact fun _ _ hscope => by simp [scopes, empty] at hscope
  | newRoot h ih => exact (ih hvalid).add (by simp [Scope.within])
  | newChild h parent ih =>
    refine (ih hvalid.2).add fun p hp => ?_
    rw [scopes_next, ← Option.some.inj hp]
    exact hvalid.1
  | define h target name value ih => exact (ih hvalid.2).define target name value
  | assign h origin name value ih =>
    show ((h.scopes.assign? origin name value).getD h.scopes).Ordered
    unfold assign?
    cases h.scopes.holder? name origin with
    | none => exact ih hvalid.2
    | some target => exact (ih hvalid.2).define target name value
  | get h id name ih => exact ih hvalid.2

/-- The scopes stand inside one another as they were made. -/
theorem scopes_chain (hvalid : h.Valid) (hid : id < h.count) : h.scopes.Chain id (h.chain id) := by
  -- behind a step that makes a scope there is this one, besides those from before
  have hnew (h : History) (scope : Scope) : (h.scopes.add scope).all[h.count]? = some scope := by
    rw [getElem?_add, if_pos (scopes_next h).symm]
  induction h generalizing id with
  | start => exact absurd hid (Nat.not_lt_zero _)
  | newRoot h ih =>
    by_cases heq : id = h.count
    · rw [chain, if_pos heq, heq]
      exact .outermost (hnew h _) rfl
    · rw [chain, if_neg heq]
      exact (ih hvalid (Nat.lt_of_le_of_ne (Nat.le_of_lt_succ hid) heq)).add _
  | newChild h parent ih =>
    by_cases heq : id = h.count
    · rw [chain, if_pos heq, heq]
      exact .inside (hnew h _) rfl ((ih hvalid.2 hvalid.1).add _)
    · rw [chain, if_neg heq]
      exact (ih hvalid.2 (Nat.lt_of_le_of_ne (Nat.le_of_lt_succ hid) heq)).add _
  | define h target name value ih => exact (ih hvalid.2 hid).define target name value
  | assign h origin name value ih =>
    show ((h.scopes.assign? origin name value).getD h.scopes).Chain id (h.chain id)
    unfold assign?
    cases h.scopes.holder? name origin with
    | none => exact ih hvalid.2 hid
    | some target => exact (ih hvalid.2 hid).define target name value
  | get h _ name ih => exact ih hvalid.2 hid

/-- The search finds the scope that the history says, if the scopes bind what was written. -/
theorem holder?_of_bound? {x : String} (hvalid : h.Valid) (hid : id < h.count)
    (hbound : ∀ i, h.scopes.bound? i x = h.written i x) : h.scopes.holder? x id = h.holder id x := by
  rw [(scopes_chain hvalid hid).holder? (scopes_ordered hvalid), holder]
  simp only [hbound]

/-- A scope binds the names that were written in it, to the values last written. -/
theorem scopes_bound? (hvalid : h.Valid) (id : ScopeId) (x : String) :
    h.scopes.bound? id x = h.written id x := by
  -- for all scopes and names at once: what an assignment does depends on where the name was written before
  induction h generalizing id x with
  | start => rfl
  | newRoot h ih => exact (bound?_add h.scopes none id x).trans (ih hvalid id x)
  | newChild h parent ih => exact (bound?_add h.scopes (some parent) id x).trans (ih hvalid.2 id x)
  | define h target name value ih =>
    have htarget : target < h.scopes.next := (scopes_next h).symm ▸ hvalid.1
    rw [written, ← ih hvalid.2 id x]
    exact bound?_define htarget
  | assign h origin name value ih =>
    rw [scopes, assign?, holder?_of_bound? hvalid.2 hvalid.1 (ih hvalid.2 · name), written_assign]
    cases hfound : h.holder origin name with
    | none => simpa using ih hvalid.2 id x
    | some target =>
      -- the name was written there, so it is bound, and the scope is one that was made
      have hbound : h.scopes.bound? target name ≠ none := by
        rw [ih hvalid.2, ← Option.isSome_iff_ne_none]
        simpa using List.find?_some hfound
      show (h.scopes.define target name value).bound? id x = _
      rw [bound?_define (lt_next_of_bound? hbound), ih hvalid.2 id x]
      simp only [Option.some.injEq, eq_comm]
  | get h _ name ih => exact ih hvalid.2 id x

theorem scopes_holder? (hvalid : h.Valid) (hid : id < h.count) (x : String) :
    h.scopes.holder? x id = h.holder id x :=
  holder?_of_bound? hvalid hid fun i => scopes_bound? hvalid i x

/-- A name has the value last written to it in the innermost scope in which it was ever written. -/
theorem scopes_get? (hvalid : h.Valid) (hid : id < h.count) (x : String) :
    h.scopes.get? id x = (h.holder id x).bind fun target => h.written target x := by
  rw [← scopes_holder? hvalid hid]
  simp only [← scopes_bound? hvalid]
  rfl

theorem scopes_get?_eq_none_iff (hvalid : h.Valid) (hid : id < h.count) (x : String) :
    h.scopes.get? id x = none ↔ ∀ i ∈ h.chain id, h.written i x = none := by
  rw [(scopes_chain hvalid hid).get?_eq_none_iff (scopes_ordered hvalid)]
  simp only [scopes_bound? hvalid]

/-- After another value was bound in a scope, exactly the lookups for which this scope is the first on the way
outwards have this value. -/
theorem scopes_overwrite (hvalid : h.Valid) {target : ScopeId} (htarget : target < h.count) (x : String)
    (v : Value) (hid : id < h.count) (y : String) :
    (y = x ∧ Meets (h.written · x) target (h.chain id) →
        (h.scopes.define target x v).get? id y = some v) ∧
      (¬ (y = x ∧ Meets (h.written · x) target (h.chain id)) →
        (h.scopes.define target x v).get? id y = h.scopes.get? id y) := by
  simp only [← scopes_bound? hvalid]
  exact (scopes_chain hvalid hid).get?_overwrite (scopes_ordered hvalid) (scopes_next h ▸ htarget)

/-- An assignment gives the name its value wherever it belongs to the same scope, and changes no other
lookup, and no scope binds further names. -/
theorem scopes_assign {target : ScopeId} (hvalid : h.Valid) (x : String) (v : Value)
    (htarget : h.holder id x = some target) :
    (∀ t < h.count, ∀ y, (y = x ∧ h.holder t x = h.holder id x →
        (h.scopes.define target x v).get? t y = some v) ∧
      (¬ (y = x ∧ h.holder t x = h.holder id x) →
        (h.scopes.define target x v).get? t y = h.scopes.get? t y)) ∧
    ∀ i y, ((h.scopes.define target x v).bound? i y).isSome = (h.scopes.bound? i y).isSome := by
  have hwritten : h.written target x ≠ none := (holder_eq_some_iff.1 htarget).1
  have hlt : target < h.scopes.next := lt_next_of_bound? ((scopes_bound? hvalid target x).symm ▸ hwritten)
  refine ⟨fun t ht y => ?_, fun i y => ?_⟩
  · -- the scope is the innermost one exactly where it is met first, since the name was written in it
    have hsame : h.holder t x = h.holder id x ↔ Meets (h.written · x) target (h.chain t) := by
      rw [htarget, holder_eq_some_iff]
      exact and_iff_right hwritten
    rw [hsame]
    exact scopes_overwrite hvalid (scopes_next h ▸ hlt) x v ht y
  · -- where the new value stands, the name was bound before
    rw [bound?_define hlt]
    by_cases hboth : i = target ∧ y = x
    · rw [if_pos hboth, hboth.1, hboth.2, scopes_bound? hvalid]
      exact (Option.isSome_iff_ne_none.2 hwritten).symm
    · rw [if_neg hboth]

/-- Behind any history `h`, for every scope `id` that was made and every name `x`:

* a lookup finds the value last written to the name in the innermost scope from `id` outwards in which it
  was ever written, and finds none if and only if it was written in no scope from `id` outwards;
* an assignment succeeds if and only if the lookup does, and then the lookups that change are those of this
  name from where it belongs to the same scope, and no scope binds further names;
* a declaration changes the lookups of this name from where `id` is met, on the way outwards, before any
  scope in which the name was written, and no others;
* a program that looks up or assigns a token in the scope `id` goes on with this value and with these scopes,
  and if there is none it stops at the line of the token, and the session is as before. -/
theorem lookup_assign_define (hvalid : h.Valid) {id : ScopeId} (hid : id < h.count) (x : String) :
    (h.scopes.get? id x = ((h.holder id x).bind fun target => h.written target x) ∧
      (h.scopes.get? id x = none ↔ ∀ i ∈ h.chain id, h.written i x = none)) ∧
    (∀ v, ((h.scopes.assign? id x v).isSome ↔ (h.scopes.get? id x).isSome) ∧
      ∀ s, h.scopes.assign? id x v = some s →
        (∀ t < h.count, ∀ y, (y = x ∧ h.holder t x = h.holder id x → s.get? t y = some v) ∧
          (¬ (y = x ∧ h.holder t x = h.holder id x) → s.get? t y = h.scopes.get? t y)) ∧
        ∀ i y, (s.bound? i y).isSome = (h.scopes.bound? i y).isSome) ∧
    (∀ v, ∀ t < h.count, ∀ y,
      (y = x ∧ Meets (h.written · x) id (h.chain t) → (h.scopes.define id x v).get? t y = some v) ∧
      (¬ (y = x ∧ Meets (h.written · x) id (h.chain t)) →
        (h.scopes.define id x v).get? t y = h.scopes.get? t y)) ∧
    ∀ session : Session, session.scopes = h.scopes → session.active = id →
      ∀ name : Token, name.lexeme = x →
        session.run (Eval.lookup name) =
          ((h.scopes.get? id x).elim (.error (.runtime ⟨.undefinedVariable x, name.line⟩)) .ok,
            session) ∧
        ∀ v, session.run (Eval.assign name v) =
            (h.scopes.assign? id x v).elim
              (.error (.runtime ⟨.undefinedVariable x, name.line⟩), session)
              (fun s => (.ok (), { session with scopes := s })) ∧
          session.run (Eval.define x v) =
            (.ok (), { session with scopes := h.scopes.define id x v }) := by
  have hholder := scopes_holder? hvalid hid x
  refine ⟨⟨scopes_get? hvalid hid x, scopes_get?_eq_none_iff hvalid hid x⟩, fun v => ⟨?_, ?_⟩,
    fun v t ht y => scopes_overwrite hvalid hid x v ht y, ?_⟩
  · rw [Option.isSome_iff_ne_none, Option.isSome_iff_ne_none, ne_eq, ne_eq,
      scopes_get?_eq_none_iff hvalid hid, ← holder_eq_none_iff, assign?, hholder, Option.map_eq_none_iff]
  · intro s hs
    rw [assign?, hholder] at hs
    obtain ⟨target, htarget, rfl⟩ := Option.map_eq_some_iff.1 hs
    exact scopes_assign hvalid x v htarget
  · rintro session hscopes rfl name rfl
    rw [← hscopes]
    refine ⟨?_, fun v => ⟨?_, Session.run_define session name.lexeme v⟩⟩
    · rw [Session.run_lookup]
      cases session.scopes.get? session.active name.lexeme <;> rfl
    · rw [Session.run_assign, assign?]
      cases session.scopes.holder? name.lexeme session.active <;> rfl

/-- Two scopes inside one, the first of which hides a name of the outer scope after it assigned to it. -/
theorem lookup_assign_define_shadowed :
    let h : History := ((((start.newRoot.define 0 "x" .nil).newChild 0).newChild 0).assign 1 "x"
      (.string "outer")).define 1 "x" (.string "inner")
    h.Valid ∧ 1 < h.count ∧ 2 < h.count ∧ h.scopes.get? 1 "x" = some (.string "inner") ∧
      h.scopes.get? 2 "x" = some (.string "outer") ∧ h.scopes.get? 1 "y" = none ∧
      ∃ s, h.scopes.assign? 1 "x" (.bool true) = some s ∧ s.get? 1 "x" = some (.bool true) ∧
        s.get? 2 "x" = some (.string "outer") := by
  intro h
  have hvalid : h.Valid := by simp [h, Valid, count]
  have hchain : h.chain 1 = [1, 0] := rfl
  obtain ⟨⟨hfirst, -⟩, hassign, -, -⟩ := lookup_assign_define hvalid (by decide : 1 < h.count) "x"
  obtain ⟨⟨hsecond, -⟩, -⟩ := lookup_assign_define hvalid (by decide : 2 < h.count) "x"
  obtain ⟨⟨-, hnone⟩, -⟩ := lookup_assign_define hvalid (by decide : 1 < h.count) "y"
  obtain ⟨hiff, hsome⟩ := hassign (.bool true)
  obtain ⟨s, hs⟩ := Option.isSome_iff_exists.1 (hiff.2 (by rw [hfirst]; rfl))
  obtain ⟨hlookups, -⟩ := hsome s hs
  refine ⟨hvalid, by decide, by decide, hfirst, hsecond, hnone.2 ?_, s, hs, ?_, ?_⟩
  · rw [hchain]
    exact List.forall_mem_cons.2 ⟨rfl, List.forall_mem_singleton.2 rfl⟩
  · exact (hlookups 1 (by decide) "x").1 ⟨rfl, rfl⟩
  · rw [(hlookups 2 (by decide) "x").2 fun hsame => absurd hsame.2 (by decide)]
    exact hsecond

end History

end LoxScript.Scopes
