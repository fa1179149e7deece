import LoxScript.Proofs.Evaluation.Grounded

/-!
# Chains of scopes

From every scope there is a way outwards, scope by scope, to one that stands in no other. A name that is
looked up is looked up along this way, and it has the value that the first scope on it binds the name to.

The way is stated as a relation, which holds of finite ways only. Where every scope stands inside an older
one there is such a way from each scope, and it passes no scope twice.

## Main definitions

* `Scopes.bound?`: what a scope itself binds a name to.
* `Scopes.Chain`: the scopes from one scope outwards.
* `Scopes.Extends`: scopes that stay in their places, perhaps with others besides.
* `Scopes.Ordered`: every scope stands inside an older one.

## Main statements

* `Scopes.Ordered.exists_chain`, `Scopes.Chain.decreasing`: there is a way outwards, to older scopes only.
* `Scopes.Chain.holder?`, `Scopes.Chain.get?`: the scope that a name belongs to, and its value.
* `Scopes.Chain.get?_overwrite`: lookups after another value was bound in one scope.
-/

namespace LoxScript.Scopes

/-- The value that a scope itself binds a name to. -/
def bound? (s : Scopes) (id : ScopeId) (name : String) : Option Value :=
  s.all[id]?.bind (·.get? name)

/-- From the scope `id` outwards there are the scopes `ids`, and the last of them stands in no other. -/
inductive Chain (s : Scopes) : ScopeId → List ScopeId → Prop where
  | outermost {id : ScopeId} {scope : Scope} (hscope : s.all[id]? = some scope)
      (hparent : scope.parent = none) : Chain s id [id]
  | inside {id p : ScopeId} {scope : Scope} {ids : List ScopeId} (hscope : s.all[id]? = some scope)
      (hparent : scope.parent = some p) (h : Chain s p ids) : Chain s id (id :: ids)

/-- All scopes of `s` are scopes of `t`, and each of them stands inside the same one. -/
def Extends (s t : Scopes) : Prop :=
  ∀ ⦃id : ScopeId⦄ ⦃scope : Scope⦄, s.all[id]? = some scope →
    ∃ scope', t.all[id]? = some scope' ∧ scope'.parent = scope.parent

/-- Every scope that stands inside another one is younger than that. -/
def Ordered (s : Scopes) : Prop :=
  ∀ ⦃id : ScopeId⦄ ⦃scope : Scope⦄, s.all[id]? = some scope → ∀ p ∈ scope.parent, p < id

/-- On the way `ids`, the scope `target` comes before every other one for which `f` has a value. -/
def Meets (f : ScopeId → Option Value) (target : ScopeId) (ids : List ScopeId) : Prop :=
  ∃ nearer outer, ids = nearer ++ target :: outer ∧ ∀ i ∈ nearer, f i = none

variable {s : Scopes} {id target : ScopeId} {ids : List ScopeId} {name other : String} {v : Value}

/-! ## What scopes bind -/

theorem bound?_of_getElem? {scope : Scope} (h : s.all[id]? = some scope) :
    s.bound? id name = scope.get? name := by
  rw [bound?, h, Option.bind_some]

theorem lt_next_of_bound? (h : s.bound? id name ≠ none) : id < s.next := by
  by_contra hid
  have hnone : s.all[id]? = none := Array.getElem?_eq_none (Nat.le_of_not_lt hid)
  exact h (by rw [bound?, hnone, Option.bind_none])

/-- A new scope binds nothing. -/
@[simp]
theorem bound?_add (s : Scopes) (parent : Option ScopeId) (id : ScopeId) (name : String) :
    (s.add (.within parent)).bound? id name = s.bound? id name := by
  unfold bound?
  rw [getElem?_add]
  by_cases h : id = s.next
  · have hnone : s.all[id]? = none := Array.getElem?_eq_none (Nat.le_of_eq h.symm)
    rw [if_pos h, hnone]
    rfl
  · rw [if_neg h]

/-- After a scope was given a value for a name, it has this value, and all else is as before. -/
theorem bound?_define (hid : target < s.next) :
    (s.define target name v).bound? id other =
      if id = target ∧ other = name then some v else s.bound? id other := by
  unfold bound?
  rw [getElem?_define]
  by_cases h : target = id
  · subst h
    have hscope : s.all[target]? = some s.all[target] := Array.getElem?_eq_getElem hid
    rw [if_pos rfl, hscope, Option.map_some, Option.bind_some, Scope.get?_set, Option.bind_some]
    simp
  · rw [if_neg h, if_neg fun hboth => h hboth.1.symm]

/-! ## Scopes that stay in their places -/

theorem Extends.refl (s : Scopes) : s.Extends s := fun _ scope hscope => ⟨scope, hscope, rfl⟩

theorem Extends.trans {t u : Scopes} (h : s.Extends t) (h' : t.Extends u) : s.Extends u := by
  intro id scope hscope
  obtain ⟨scope', hscope', hparent⟩ := h hscope
  obtain ⟨found, hfound, hparent'⟩ := h' hscope'
  exact ⟨found, hfound, hparent'.trans hparent⟩

theorem Extends.next_le {t : Scopes} (h : s.Extends t) : s.next ≤ t.next := by
  by_contra hnot
  -- otherwise `s` has a scope under the number that would be the next one of `t`
  have hlt : t.next < s.all.size := Nat.lt_of_not_le hnot
  have hscope : s.all[t.next]? = some s.all[t.next] := Array.getElem?_eq_getElem hlt
  obtain ⟨scope', hscope', -⟩ := h hscope
  exact Nat.lt_irrefl _ (lt_next_of_getElem? hscope')

theorem extends_add (s : Scopes) (scope : Scope) : s.Extends (s.add scope) := by
  intro id found hfound
  refine ⟨found, ?_, rfl⟩
  rw [getElem?_add, if_neg (Nat.ne_of_lt (lt_next_of_getElem? hfound)), hfound]

theorem extends_define (s : Scopes) (target : ScopeId) (name : String) (v : Value) :
    s.Extends (s.define target name v) := by
  intro id scope hscope
  rw [getElem?_define, hscope]
  by_cases heq : target = id
  · rw [if_pos heq]
    exact ⟨_, rfl, Scope.parent_set scope name v⟩
  · rw [if_neg heq]
    exact ⟨scope, rfl, rfl⟩

/-! ## Ways outwards -/

namespace Chain

theorem lt_next (h : s.Chain id ids) : id < s.next := by
  cases h with
  | outermost hscope _ => exact lt_next_of_getElem? hscope
  | inside hscope _ _ => exact lt_next_of_getElem? hscope

theorem mem_self (h : s.Chain id ids) : id ∈ ids := by
  cases h <;> exact List.mem_cons_self ..

/-- There is one way outwards only. -/
theorem unique {ids' : List ScopeId} (h : s.Chain id ids) (h' : s.Chain id ids') : ids' = ids := by
  induction h generalizing ids' with
  | outermost hscope hparent =>
    cases h' with
    | outermost => rfl
    | inside hscope' hparent' =>
      obtain rfl := Option.some.inj (hscope.symm.trans hscope')
      simp [hparent] at hparent'
  | inside hscope hparent _ ih =>
    cases h' with
    | outermost hscope' hparent' =>
      obtain rfl := Option.some.inj (hscope.symm.trans hscope')
      simp [hparent] at hparent'
    | inside hscope' hparent' h' =>
      obtain rfl := Option.some.inj (hscope.symm.trans hscope')
      obtain rfl := Option.some.inj (hparent.symm.trans hparent')
      rw [ih h']

/-- The way outwards stays as it is wherever scopes stay in the same places. -/
theorem extend {t : Scopes} (h : s.Chain id ids) (ht : s.Extends t) : t.Chain id ids := by
  induction h with
  | outermost hscope hparent =>
    obtain ⟨scope', hscope', heq⟩ := ht hscope
    exact .outermost hscope' (heq.trans hparent)
  | inside hscope hparent _ ih =>
    obtain ⟨scope', hscope', heq⟩ := ht hscope
    exact .inside hscope' (heq.trans hparent) ih

/-- A new scope is on no way there was. -/
theorem add (h : s.Chain id ids) (scope : Scope) : (s.add scope).Chain id ids :=
  h.extend (s.extends_add scope)

/-- Binding a name moves no scope. -/
theorem define (h : s.Chain id ids) (target : ScopeId) (name : String) (v : Value) :
    (s.define target name v).Chain id ids :=
  h.extend (s.extends_define target name v)

/-- The way outwards leads to older scopes only, so it passes no scope twice. -/
theorem decreasing (h : s.Chain id ids) (hs : s.Ordered) :
    (∀ i ∈ ids, i ≤ id) ∧ ids.Pairwise (· > ·) := by
  induction h with
  | outermost => exact ⟨List.forall_mem_singleton.2 (Nat.le_refl _), List.pairwise_singleton ..⟩
  | inside hscope hparent _ ih =>
    obtain ⟨hle, hpairwise⟩ := ih
    have hlt := hs hscope _ hparent
    -- the first is younger than the second, and so than all others
    have hyounger : ∀ i ∈ _, i < _ := fun i hi => Nat.lt_of_le_of_lt (hle i hi) hlt
    refine ⟨List.forall_mem_cons.2 ⟨Nat.le_refl _, fun i hi => Nat.le_of_lt (hyounger i hi)⟩, ?_⟩
    exact List.pairwise_cons.2 ⟨hyounger, hpairwise⟩

theorem length_le (h : s.Chain id ids) (hs : s.Ordered) : ids.length ≤ id + 1 := by
  induction h with
  | outermost => exact Nat.succ_le_succ (Nat.zero_le _)
  | inside hscope hparent _ ih => exact Nat.succ_le_succ (ih.trans (hs hscope _ hparent))

end Chain

/-- From every scope there is a way outwards if all stand inside older ones. -/
theorem Ordered.exists_chain (hs : s.Ordered) (hid : id < s.next) : ∃ ids, s.Chain id ids := by
  induction id using Nat.strongRecOn with
  | ind id ih =>
    have hscope : s.all[id]? = some s.all[id] := Array.getElem?_eq_getElem hid
    cases hparent : s.all[id].parent with
    | none => exact ⟨_, .outermost hscope hparent⟩
    | some p =>
      have hp : p < id := hs hscope p hparent
      obtain ⟨ids, hids⟩ := ih p hp (hp.trans hid)
      exact ⟨_, .inside hscope hparent hids⟩

theorem Ordered.add (hs : s.Ordered) {scope : Scope} (hscope : ∀ p ∈ scope.parent, p < s.next) :
    (s.add scope).Ordered := by
  intro id found hfound p hp
  rw [getElem?_add] at hfound
  by_cases h : id = s.next
  · rw [if_pos h] at hfound
    cases hfound
    exact h ▸ hscope p hp
  · rw [if_neg h] at hfound
    exact hs hfound p hp

theorem Ordered.define (hs : s.Ordered) (target : ScopeId) (name : String) (v : Value) :
    (s.define target name v).Ordered := by
  intro id found hfound p hp
  rw [getElem?_define] at hfound
  by_cases h : target = id
  · rw [if_pos h] at hfound
    obtain ⟨scope, hscope, rfl⟩ := Option.map_eq_some_iff.1 hfound
    exact hs hscope p hp
  · rw [if_neg h] at hfound
    exact hs hfound p hp

/-! ## Lookups -/

namespace Chain

/-- The search for a name follows the way outwards, if it may go as far as the way does. -/
theorem holderWithin {bound : Nat} (h : s.Chain id ids) (hbound : ids.length ≤ bound) :
    s.holderWithin name bound id = ids.find? fun i => (s.bound? i name).isSome := by
  induction h generalizing bound with
  | outermost hscope hparent =>
    obtain ⟨bound, rfl⟩ := Nat.exists_eq_succ_of_ne_zero (Nat.ne_of_gt hbound)
    simp only [Scopes.holderWithin, hscope, Option.bind_eq_bind, Option.bind_some, hparent,
      Option.bind_none, List.find?_cons, List.find?_nil, bound?_of_getElem? hscope, Scope.binds]
    cases (Scope.get? _ name).isSome <;> rfl
  | inside hscope hparent _ ih =>
    obtain ⟨bound, rfl⟩ := Nat.exists_eq_succ_of_ne_zero (Nat.ne_of_gt (Nat.zero_lt_of_lt hbound))
    simp only [Scopes.holderWithin, hscope, Option.bind_eq_bind, Option.bind_some, hparent,
      List.find?_cons, bound?_of_getElem? hscope, Scope.binds,
      ih (Nat.le_of_succ_le_succ hbound)]
    cases (Scope.get? _ name).isSome <;> rfl

/-- A name belongs to the first scope on the way outwards that binds it. -/
theorem holder? (h : s.Chain id ids) (hs : s.Ordered) (name : String) :
    s.holder? name id = ids.find? fun i => (s.bound? i name).isSome :=
  h.holderWithin (h.length_le hs)

/-- A name has the value that the first scope on the way outwards binds it to. -/
theorem get? (h : s.Chain id ids) (hs : s.Ordered) (name : String) :
    s.get? id name = ids.findSome? fun i => s.bound? i name := by
  have hvalue : s.get? id name = (s.holder? name id).bind fun i => s.bound? i name := rfl
  rw [hvalue, h.holder? hs name]
  clear hvalue h
  induction ids with
  | nil => rfl
  | cons i ids ih =>
    rw [List.find?_cons, List.findSome?_cons]
    cases hbound : s.bound? i name with
    | none => exact ih
    | some v => exact hbound

/-- A lookup fails only because no scope on the way outwards binds the name. -/
theorem get?_eq_none_iff (h : s.Chain id ids) (hs : s.Ordered) (name : String) :
    s.get? id name = none ↔ ∀ i ∈ ids, s.bound? i name = none := by
  rw [h.get? hs, List.findSome?_eq_none_iff]

end Chain

/-- Along a list, the first place with a value is one that is met before any other value. -/
theorem find?_eq_some_iff_meets {f : ScopeId → Option Value} {target : ScopeId} {ids : List ScopeId} :
    ids.find? (fun i => (f i).isSome) = some target ↔ f target ≠ none ∧ Meets f target ids := by
  rw [List.find?_eq_some_iff_append]
  simp only [Meets, Option.isSome_iff_ne_none, Bool.not_eq_true', Option.isSome_eq_false_iff,
    Option.isNone_iff_eq_none]

/-- Along a list, an overwritten value is found exactly if the place is met before any other value. -/
theorem findSome?_overwrite (f : ScopeId → Option Value) (target : ScopeId) (v : Value)
    (ids : List ScopeId) :
    (Meets f target ids → ids.findSome? (fun i => if i = target then some v else f i) = some v) ∧
      (¬ Meets f target ids →
        ids.findSome? (fun i => if i = target then some v else f i) = ids.findSome? f) := by
  induction ids with
  | nil =>
    refine ⟨?_, fun _ => rfl⟩
    rintro ⟨nearer, outer, heq, -⟩
    simp at heq
  | cons i ids ih =>
    by_cases hi : i = target
    · subst hi
      have hmeets : Meets f i (i :: ids) := ⟨[], ids, rfl, List.forall_mem_nil _⟩
      refine ⟨fun _ => ?_, fun hnot => absurd hmeets hnot⟩
      rw [List.findSome?_cons, if_pos rfl]
    · rw [List.findSome?_cons, if_neg hi, List.findSome?_cons]
      cases hf : f i with
      -- a value in front of the place hides it
      | some w =>
        refine ⟨?_, fun _ => rfl⟩
        rintro ⟨- | ⟨j, nearer⟩, outer, heq, hnearer⟩
        · exact absurd (List.cons.inj heq).1 hi
        · obtain ⟨rfl, -⟩ := List.cons.inj heq
          simp [hnearer i (List.mem_cons_self ..)] at hf
      | none =>
        have hiff : Meets f target (i :: ids) ↔ Meets f target ids := by
          constructor
          · rintro ⟨- | ⟨j, nearer⟩, outer, heq, hnearer⟩
            · exact absurd (List.cons.inj heq).1 hi
            · exact ⟨nearer, outer, (List.cons.inj heq).2, (List.forall_mem_cons.1 hnearer).2⟩
          · rintro ⟨nearer, outer, rfl, hnearer⟩
            exact ⟨i :: nearer, outer, rfl, List.forall_mem_cons.2 ⟨hf, hnearer⟩⟩
        rw [hiff]
        exact ih

/-- After a scope was given a value for a name, this is the value of the name from every scope that has
the scope on its way outwards with no binding of the name before it. All other lookups are as before. -/
theorem Chain.get?_overwrite (h : s.Chain id ids) (hs : s.Ordered) (htarget : target < s.next) :
    (other = name ∧ Meets (s.bound? · name) target ids →
        (s.define target name v).get? id other = some v) ∧
      (¬ (other = name ∧ Meets (s.bound? · name) target ids) →
        (s.define target name v).get? id other = s.get? id other) := by
  rw [(h.define target name v).get? (hs.define target name v), h.get? hs]
  simp only [bound?_define htarget]
  by_cases hother : other = name
  · subst hother
    simp only [and_true, true_and]
    exact findSome?_overwrite _ target v ids
  · simp only [hother, and_false, false_and, if_false, not_false_iff, false_implies, true_implies,
      true_and]

end LoxScript.Scopes
