import Mathlib.Data.List.Infix
import LoxScript.Proofs.Evaluation.Exact

/-!
# Layouts

Two runs of the same statements may lay out their scopes differently. The second makes all the scopes that
the first makes, perhaps under other numbers, and it may make empty scopes besides, which enclose what it
does but in which no name is ever bound. A name that is looked up from an empty scope is found where it
is found from the scope around it, so no run can tell.

A layout says for each scope of the second session which scope of the first it stands for, and whether
it is that scope or an empty one inside it. Values, scopes and sessions are compared along a layout.
Layouts only grow while programs run.

## Main definitions

* `Layout`, with `Layout.Leads`: the scopes that stand for a scope.
* `Value.Moved`, `Scopes.Moved`: the same values, and the same scopes, but for their places.

## Main statements

* `Scopes.Moved.holder?`, `Scopes.Moved.get?`: names belong to the same scopes and have the same values.
* `Scopes.Moved.define`, `Scopes.Moved.newChild`, `Scopes.Moved.newEmpty`: how the scopes may change.
-/

namespace LoxScript

/-- What a scope of the second session is in the first. -/
structure Layout.Place where
  /-- The scope that it stands for. -/
  stands : ScopeId
  /-- Whether it is that scope, and not an empty one inside it. -/
  proper : Bool

/-- The places of the scopes of the second session, by number. -/
abbrev Layout : Type := List Layout.Place

namespace Layout

variable {W V : Layout} {id id' : ScopeId} {place new : Place}

/-- The second scope stands for the first one. -/
def Leads (W : Layout) (id id' : ScopeId) : Prop := ∃ proper, W[id']? = some ⟨id, proper⟩

/-- Scopes keep their places. -/
theorem getElem?_of_prefix (h : W <+: V) (hplace : W[id']? = some place) : V[id']? = some place := by
  obtain ⟨more, rfl⟩ := h
  obtain ⟨hlt, -⟩ := List.getElem?_eq_some_iff.1 hplace
  rwa [List.getElem?_append_left hlt]

theorem Leads.mono (hlead : W.Leads id id') (h : W <+: V) : V.Leads id id' := by
  obtain ⟨proper, hplace⟩ := hlead
  exact ⟨proper, getElem?_of_prefix h hplace⟩

theorem getElem?_concat_length : (W ++ [new])[W.length]? = some new := by simp

/-- Some scope of a longer layout stands for a given one. -/
theorem exists_leads (W : Layout) (id : ScopeId) :
    ∃ (V : Layout) (id' : ScopeId), W <+: V ∧ V.Leads id id' :=
  ⟨W ++ [⟨id, true⟩], W.length, List.prefix_append W _, true, getElem?_concat_length⟩

/-- In a longer layout a given scope stands for some scope. -/
theorem exists_leads_of (W : Layout) (id' : ScopeId) :
    ∃ (V : Layout) (id : ScopeId), W <+: V ∧ V.Leads id id' := by
  -- a layout with so many more places has one for the scope
  let V := W ++ List.replicate (id' + 1) ⟨0, true⟩
  have hlt : id' < V.length := by
    rw [List.length_append, List.length_replicate]
    exact Nat.lt_of_lt_of_le (Nat.lt_succ_self id') (Nat.le_add_left _ _)
  exact ⟨V, V[id'].stands, List.prefix_append W _, V[id'].proper, List.getElem?_eq_getElem hlt⟩

theorem getElem?_concat_iff :
    (W ++ [new])[id']? = some place ↔ W[id']? = some place ∨ id' = W.length ∧ new = place := by
  constructor
  · intro h
    rcases Nat.lt_trichotomy id' W.length with hlt | rfl | hgt
    · exact .inl (by rwa [List.getElem?_append_left hlt] at h)
    · exact .inr ⟨rfl, Option.some.inj (getElem?_concat_length.symm.trans h)⟩
    · rw [List.getElem?_eq_none (by simpa using Nat.succ_le_of_lt hgt)] at h
      cases h
  · rintro (h | ⟨rfl, rfl⟩)
    · exact getElem?_of_prefix (List.prefix_append W _) h
    · exact getElem?_concat_length

end Layout

variable {W V : Layout}

/-! ## Values -/

/-- The same value, but for the place of its closure. -/
inductive Value.Moved (W : Layout) : Value → Value → Prop where
  | plain {v : Value} (h : v.closure? = none) : Moved W v v
  | function {object : FunctionObject} {parameters : List Token} {body : List Stmt}
      {closure closure' : ScopeId} (h : W.Leads closure closure') :
      Moved W (.function (.declared object parameters body closure))
        (.function (.declared object parameters body closure'))

namespace Value.Moved

variable {v v' w w' : Value}

theorem mono (h : v.Moved W v') (hV : W <+: V) : v.Moved V v' := by
  cases h with
  | plain h => exact .plain h
  | function h => exact .function (h.mono hV)

theorem truthy (h : v.Moved W v') : v'.truthy = v.truthy := by
  cases h <;> rfl

theorem text (h : v.Moved W v') : v'.text = v.text := by
  cases h <;> rfl

/-- Functions are the same if they are the same object, wherever their closures are. -/
theorem equals (hv : v.Moved W v') (hw : w.Moved W w') : v'.equals w' = v.equals w := by
  cases hv with
  | plain _ =>
    cases hw with
    | plain _ => rfl
    | function _ =>
      cases v with
      | function f => cases f <;> rfl
      | _ => rfl
  | function _ =>
    cases hw with
    | plain _ =>
      cases w with
      | function f => cases f <;> rfl
      | _ => rfl
    | function _ => rfl

end Value.Moved

namespace Operation

variable {A : Arithmetic} {kind : Token.Kind} {v v' w w' r : Value}

theorem onNumbers_moved (compute : Number → Number → Value) (hv : v.Moved W v') (hw : w.Moved W w') :
    onNumbers compute v' w' = onNumbers compute v w := by
  cases hv with
  | function _ => rfl
  | plain _ =>
    cases hw with
    | plain _ => rfl
    | function _ => cases v <;> rfl

theorem plus_moved (hv : v.Moved W v') (hw : w.Moved W w') : plus A v' w' = plus A v w := by
  cases hv with
  | function _ => rfl
  | plain _ =>
    cases hw with
    | plain _ => rfl
    | function _ => cases v <;> rfl

/-- An operator in front of an operand does not notice where a closure is. -/
theorem unary_moved (h : v.Moved W v') : unary A kind v' = unary A kind v := by
  cases h with
  | plain _ => rfl
  | function _ => unfold unary; split <;> rfl

/-- An operator between operands does not notice where closures are. -/
theorem binary_moved (hv : v.Moved W v') (hw : w.Moved W w') :
    binary A kind v' w' = binary A kind v w := by
  unfold binary
  split <;> first | exact plus_moved hv hw | exact onNumbers_moved _ hv hw | rfl | rw [hv.equals hw]

/-- No operator makes a function. -/
theorem closure?_unary (h : unary A kind v = some (.ok r)) : r.closure? = none := by
  unfold unary negative at h
  split at h
  · cases h; rfl
  · split at h <;> cases h; rfl
  · cases h

theorem closure?_onNumbers {compute : Number → Number → Value}
    (hcompute : ∀ a b, (compute a b).closure? = none) (h : onNumbers compute v w = some (.ok r)) :
    r.closure? = none := by
  unfold onNumbers at h
  split at h
  · cases h
    exact hcompute _ _
  · cases h

theorem closure?_binary (h : binary A kind v w = some (.ok r)) : r.closure? = none := by
  unfold binary plus at h
  split at h
  case h_1 =>
    split at h <;> cases h <;> rfl
  all_goals first
    | exact closure?_onNumbers (fun _ _ => rfl) h
    | cases h; rfl
    | cases h

end Operation

/-! ## Scopes -/

/-- Bindings of the same names, in the same order, to the same values but for the places of closures. -/
def Scope.MovedBindings (W : Layout) : List (String × Value) → List (String × Value) → Prop :=
  List.Forall₂ fun binding binding' => binding'.1 = binding.1 ∧ binding.2.Moved W binding'.2

/-- The scope `id` of the first session and the scope `id'` of the second: the same bindings, and around
them scopes made before, of which the one stands for the other. -/
structure Scope.Moved (W : Layout) (id id' : ScopeId) (s s' : Scope) : Prop where
  bindings : Scope.MovedBindings W s.bindings s'.bindings
  parent : Option.Rel (fun p p' => p < id ∧ p' < id' ∧ W.Leads p p') s.parent s'.parent

/-- The scopes of the second session are laid out as `W` says: each scope of the first is one of them,
under one number, and all others are empty and inside what they stand for. -/
structure Scopes.Moved (W : Layout) (s s' : Scopes) : Prop where
  length : W.length = s'.next
  inside : ∀ {id id' : ScopeId}, W.Leads id id' → id < s.next
  proper : ∀ {id id' : ScopeId}, W[id']? = some ⟨id, true⟩ → ∃ scope scope',
    s.all[id]? = some scope ∧ s'.all[id']? = some scope' ∧ Scope.Moved W id id' scope scope'
  empty : ∀ {id id' : ScopeId}, W[id']? = some ⟨id, false⟩ → ∃ p',
    s'.all[id']? = some (.within (some p')) ∧ p' < id' ∧ W.Leads id p'
  covers : ∀ {id : ScopeId}, id < s.next → ∃ id' : ScopeId, W[id']? = some ⟨id, true⟩
  unique : ∀ {id a b : ScopeId}, W[a]? = some ⟨id, true⟩ → W[b]? = some ⟨id, true⟩ → a = b

namespace Scope

variable {s s' : Scope} {v v' : Value} {id id' : ScopeId}

namespace MovedBindings

variable {bs bs' : List (String × Value)}

theorem mono (h : MovedBindings W bs bs') (hV : W <+: V) : MovedBindings V bs bs' :=
  List.Forall₂.imp (fun _ _ hbinding => ⟨hbinding.1, hbinding.2.mono hV⟩) h

theorem lookup (h : MovedBindings W bs bs') (name : String) :
    Option.Rel (Value.Moved W) (bs.lookup name) (bs'.lookup name) := by
  induction h with
  | nil => exact .none
  | @cons binding binding' _ _ hhead _ ih =>
    obtain ⟨key, value⟩ := binding
    obtain ⟨key', value'⟩ := binding'
    obtain ⟨rfl, hvalue⟩ := hhead
    rw [lookup_cons, lookup_cons]
    split
    · exact .some hvalue
    · exact ih

theorem bind (h : MovedBindings W bs bs') (name : String) (hv : v.Moved W v') :
    MovedBindings W (Scope.bind name v bs) (Scope.bind name v' bs') := by
  induction h with
  | nil => exact .cons ⟨rfl, hv⟩ .nil
  | @cons binding binding' _ _ hhead htail ih =>
    obtain ⟨key, value⟩ := binding
    obtain ⟨key', value'⟩ := binding'
    obtain ⟨rfl, hvalue⟩ := hhead
    unfold Scope.bind
    split
    · exact .cons ⟨rfl, hv⟩ htail
    · exact .cons ⟨rfl, hvalue⟩ ih

end MovedBindings

theorem Moved.mono (h : Moved W id id' s s') (hV : W <+: V) : Moved V id id' s s' := by
  refine ⟨h.bindings.mono hV, ?_⟩
  obtain ⟨bindings, parent⟩ := s
  obtain ⟨bindings', parent'⟩ := s'
  cases h.parent with
  | none => exact .none
  | some hparent => exact .some ⟨hparent.1, hparent.2.1, hparent.2.2.mono hV⟩

theorem Moved.set (h : Moved W id id' s s') (name : String) (hv : v.Moved W v') :
    Moved W id id' (s.set name v) (s'.set name v') :=
  ⟨h.bindings.bind name hv, h.parent⟩

theorem Moved.binds (h : Moved W id id' s s') (name : String) : s'.binds name = s.binds name := by
  unfold Scope.binds Scope.get?
  have hvalue := h.bindings.lookup name
  generalize s.bindings.lookup name = a at hvalue ⊢
  generalize s'.bindings.lookup name = b at hvalue ⊢
  cases hvalue <;> rfl

end Scope

namespace Scopes

variable {s s' : Scopes} {v v' : Value} {id id' p p' : ScopeId}

theorem lt_next_of_getElem? {scope : Scope} (h : s.all[id]? = some scope) : id < s.next :=
  (Array.getElem?_eq_some_iff.1 h).1

/-- The scopes around two scopes, of which one stands for the other, hold a name together. -/
theorem Moved.holderWithin (h : Moved W s s') (name : String) {bound bound' : Nat}
    (hlead : W.Leads id id') (hbound : id < bound) (hbound' : id' < bound') :
    Option.Rel (fun holder holder' => W[holder']? = some ⟨holder, true⟩)
      (s.holderWithin name bound id) (s'.holderWithin name bound' id') := by
  -- outwards in the second session, where each step goes to an older scope
  induction bound' generalizing bound id id' with
  | zero => exact absurd hbound' (Nat.not_lt_zero _)
  | succ bound' ih =>
    obtain ⟨proper, hplace⟩ := hlead
    cases proper with
    | true =>
      obtain ⟨scope, scope', hscope, hscope', hmoved⟩ := h.proper hplace
      cases bound with
      | zero => exact absurd hbound (Nat.not_lt_zero _)
      | succ bound =>
        simp only [Scopes.holderWithin, hscope, hscope', Option.bind_eq_bind, Option.bind_some]
        rw [hmoved.binds name]
        split
        · exact .some hplace
        · have hparent := hmoved.parent
          generalize scope.parent = parent at hparent ⊢
          generalize scope'.parent = parent' at hparent ⊢
          cases hparent with
          | none => exact .none
          | some hparent =>
            exact ih hparent.2.2 (Nat.lt_of_lt_of_le hparent.1 (Nat.le_of_lt_succ hbound))
              (Nat.lt_of_lt_of_le hparent.2.1 (Nat.le_of_lt_succ hbound'))
    -- an empty scope binds nothing, and only the second session has it
    | false =>
      obtain ⟨p', hscope', hlt, hlead⟩ := h.empty hplace
      simp only [Scopes.holderWithin, hscope', Option.bind_eq_bind, Option.bind_some]
      exact ih hlead hbound (Nat.lt_of_lt_of_le hlt (Nat.le_of_lt_succ hbound'))

theorem Moved.holder? (h : Moved W s s') (name : String) (hlead : W.Leads id id') :
    Option.Rel (fun holder holder' => W[holder']? = some ⟨holder, true⟩)
      (s.holder? name id) (s'.holder? name id') :=
  h.holderWithin name hlead (Nat.lt_succ_self id) (Nat.lt_succ_self id')

/-- A name has the same value seen from a scope and from one that stands for it. -/
theorem Moved.get? (h : Moved W s s') (name : String) (hlead : W.Leads id id') :
    Option.Rel (Value.Moved W) (s.get? id name) (s'.get? id' name) := by
  unfold Scopes.get?
  have hholder := h.holder? name hlead
  generalize s.holder? name id = a at hholder ⊢
  generalize s'.holder? name id' = b at hholder ⊢
  cases hholder with
  | none => exact .none
  | some hplace =>
    obtain ⟨scope, scope', hscope, hscope', hmoved⟩ := h.proper hplace
    simp only [Option.bind_eq_bind, Option.bind_some, hscope, hscope']
    exact hmoved.bindings.lookup name

/-- A name may be bound in a scope and in the one that is that scope. -/
theorem Moved.define (h : Moved W s s') (hplace : W[id']? = some ⟨id, true⟩) (name : String)
    (hv : v.Moved W v') : Moved W (s.define id name v) (s'.define id' name v') where
  length := by simpa using h.length
  inside hlead := by simpa using h.inside hlead
  proper := by
    intro j j' hj
    obtain ⟨scope, scope', hscope, hscope', hmoved⟩ := h.proper hj
    -- each session changes the scope exactly if the other one does
    have hsame : id = j ↔ id' = j' := by
      constructor
      · rintro rfl
        exact h.unique hplace hj
      · rintro rfl
        exact congrArg Layout.Place.stands (Option.some.inj (hplace.symm.trans hj))
    rw [getElem?_define, getElem?_define, hscope, hscope']
    by_cases heq : id = j
    · rw [if_pos heq, if_pos (hsame.1 heq)]
      exact ⟨_, _, rfl, rfl, hmoved.set name hv⟩
    · rw [if_neg heq, if_neg fun heq' => heq (hsame.2 heq')]
      exact ⟨_, _, rfl, rfl, hmoved⟩
  empty := by
    intro j j' hj
    have hne : id' ≠ j' := by
      rintro rfl
      cases hplace.symm.trans hj
    rw [getElem?_define, if_neg hne]
    exact h.empty hj
  covers hid := h.covers (by simpa using hid)
  unique := h.unique

theorem getElem?_newChild_of_lt (h : id < s.next) : (s.newChild p).all[id]? = s.all[id]? := by
  rw [newChild, getElem?_add, if_neg (Nat.ne_of_lt h)]

theorem getElem?_newChild_next : (s.newChild p).all[s.next]? = some (.within (some p)) := by
  rw [newChild, getElem?_add, if_pos rfl]

theorem next_newChild : (s.newChild p).next = s.next + 1 := next_add s _

/-- The scopes there were are laid out as before when both sessions have more. -/
theorem Moved.proper_of_prefix (h : Moved W s s') {t t' : Scopes} (hV : W <+: V)
    (ht : ∀ id, id < s.next → t.all[id]? = s.all[id]?)
    (ht' : ∀ id, id < s'.next → t'.all[id]? = s'.all[id]?) (hplace : W[id']? = some ⟨id, true⟩) :
    ∃ scope scope', t.all[id]? = some scope ∧ t'.all[id']? = some scope' ∧
      Scope.Moved V id id' scope scope' := by
  obtain ⟨scope, scope', hscope, hscope', hmoved⟩ := h.proper hplace
  rw [ht id (lt_next_of_getElem? hscope), ht' id' (lt_next_of_getElem? hscope')]
  exact ⟨scope, scope', hscope, hscope', hmoved.mono hV⟩

theorem Moved.empty_of_prefix (h : Moved W s s') {t' : Scopes} (hV : W <+: V)
    (ht' : ∀ id, id < s'.next → t'.all[id]? = s'.all[id]?) (hplace : W[id']? = some ⟨id, false⟩) :
    ∃ p', t'.all[id']? = some (.within (some p')) ∧ p' < id' ∧ V.Leads id p' := by
  obtain ⟨p', hscope', hlt, hlead⟩ := h.empty hplace
  rw [ht' id' (lt_next_of_getElem? hscope')]
  exact ⟨p', hscope', hlt, hlead.mono hV⟩

theorem Moved.lt_next (h : Moved W s s') (hlead : W.Leads id id') : id' < s'.next := by
  obtain ⟨proper, hplace⟩ := hlead
  obtain ⟨hlt, -⟩ := List.getElem?_eq_some_iff.1 hplace
  exact h.length ▸ hlt

/-- Both sessions may make a scope, inside scopes of which one stands for the other. -/
theorem Moved.newChild (h : Moved W s s') (hlead : W.Leads p p') :
    Moved (W ++ [⟨s.next, true⟩]) (s.newChild p) (s'.newChild p') := by
  have hgrow := List.prefix_append W [⟨s.next, true⟩]
  have hne : ∀ {id id' : ScopeId}, W[id']? = some ⟨id, true⟩ → id ≠ s.next := fun hplace =>
    Nat.ne_of_lt (h.inside ⟨true, hplace⟩)
  have hs := fun id => @getElem?_newChild_of_lt s id p
  have hs' := fun id => @getElem?_newChild_of_lt s' id p'
  -- each condition is asked for the scopes that there were, and for the pair of new ones
  constructor
  · rw [next_newChild, List.length_append, h.length, List.length_singleton]
  · rintro id id' ⟨proper, hplace⟩
    rw [next_newChild]
    rcases Layout.getElem?_concat_iff.1 hplace with hold | ⟨-, hnew⟩
    · exact Nat.lt_succ_of_lt (h.inside ⟨proper, hold⟩)
    · cases hnew
      exact Nat.lt_succ_self _
  · intro id id' hplace
    rcases Layout.getElem?_concat_iff.1 hplace with hold | ⟨rfl, hnew⟩
    · exact h.proper_of_prefix hgrow hs hs' hold
    · cases hnew
      rw [h.length, getElem?_newChild_next, getElem?_newChild_next]
      exact ⟨_, _, rfl, rfl, .nil, .some ⟨h.inside hlead, h.lt_next hlead, hlead.mono hgrow⟩⟩
  · intro id id' hplace
    rcases Layout.getElem?_concat_iff.1 hplace with hold | ⟨-, hnew⟩
    · exact h.empty_of_prefix hgrow hs' hold
    · cases hnew
  · intro id hid
    rw [next_newChild] at hid
    rcases Nat.lt_succ_iff_lt_or_eq.1 hid with hid | rfl
    · obtain ⟨id', hplace⟩ := h.covers hid
      exact ⟨id', Layout.getElem?_of_prefix hgrow hplace⟩
    · exact ⟨W.length, Layout.getElem?_concat_length⟩
  · intro id a b ha hb
    rcases Layout.getElem?_concat_iff.1 ha with ha | ⟨rfl, hnew⟩ <;>
      rcases Layout.getElem?_concat_iff.1 hb with hb | ⟨rfl, hnew'⟩
    · exact h.unique ha hb
    · cases hnew'
      exact absurd rfl (hne ha)
    · cases hnew
      exact absurd rfl (hne hb)
    · rfl

/-- The second session may make an empty scope of its own, which stands for what is around it. -/
theorem Moved.newEmpty (h : Moved W s s') (hlead : W.Leads id p') :
    Moved (W ++ [⟨id, false⟩]) s (s'.newChild p') := by
  have hgrow := List.prefix_append W [⟨id, false⟩]
  have hs' := fun id => @getElem?_newChild_of_lt s' id p'
  -- the first session has no scope for the new place, so only what is asked of empty scopes is new
  constructor
  · rw [next_newChild, List.length_append, h.length, List.length_singleton]
  · rintro j j' ⟨proper, hplace⟩
    rcases Layout.getElem?_concat_iff.1 hplace with hold | ⟨-, hnew⟩
    · exact h.inside ⟨proper, hold⟩
    · cases hnew
      exact h.inside hlead
  · intro j j' hplace
    rcases Layout.getElem?_concat_iff.1 hplace with hold | ⟨-, hnew⟩
    · exact h.proper_of_prefix hgrow (fun _ _ => rfl) hs' hold
    · cases hnew
  · intro j j' hplace
    rcases Layout.getElem?_concat_iff.1 hplace with hold | ⟨rfl, hnew⟩
    · exact h.empty_of_prefix hgrow hs' hold
    · cases hnew
      rw [h.length, getElem?_newChild_next]
      exact ⟨p', rfl, h.lt_next hlead, hlead.mono hgrow⟩
  · intro j hj
    obtain ⟨j', hplace⟩ := h.covers hj
    exact ⟨j', Layout.getElem?_of_prefix hgrow hplace⟩
  · intro j a b ha hb
    rcases Layout.getElem?_concat_iff.1 ha with ha | ⟨-, hnew⟩
    · rcases Layout.getElem?_concat_iff.1 hb with hb | ⟨-, hnew'⟩
      · exact h.unique ha hb
      · cases hnew'
    · cases hnew

end Scopes

end LoxScript
