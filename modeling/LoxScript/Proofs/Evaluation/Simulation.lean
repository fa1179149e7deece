import LoxScript.Proofs.Evaluation.Comparison
import LoxScript.Proofs.Evaluation.Elementary

/-!
# Like runs

Like trees run in like sessions have like results: they end in the same way, with like values or for the
same reason, and leave like sessions. On the way scopes out of reach are left alone. This is a
comparison of evaluations, so that only the elementary ones are looked at here.

## Main definitions

* `Eval.Alike`: two evaluations that like sessions cannot tell apart.

## Main statements

* `Eval.alike`: like trees are evaluated alike.
-/

namespace LoxScript

/-- The scopes that are out of reach are in `t` what they are in `s`. -/
def Session.Frames (K : Likeness) (s t : Session) : Prop :=
  ∀ id, ¬ K.within id → t.scopes.all[id]? = s.scopes.all[id]?

theorem Session.Frames.trans {K : Likeness} {s t u : Session} (h : s.Frames K t) (h' : t.Frames K u) :
    s.Frames K u :=
  fun id hid => (h' id hid).trans (h id hid)

theorem Session.frames_define {K : Likeness} {s : Session} {id : ScopeId} (hid : K.within id)
    (name : String) (v : Value) : s.Frames K { s with scopes := s.scopes.define id name v } := by
  intro other hother
  change (s.scopes.define id name v).all[other]? = _
  rw [Scopes.getElem?_define, if_neg]
  rintro rfl
  exact hother hid

/-- Binding a name to like values keeps sessions alike. -/
theorem Session.Like.define {K : Likeness} {s s' : Session} {v v' : Value} {id id' : ScopeId}
    (hs : Session.Like K s s') (hid : id' = id) (name : String) (hv : Value.Like K v v') :
    Session.Like K { s with scopes := s.scopes.define id name v }
      { s' with scopes := s'.scopes.define id' name v' } :=
  { hs with scopes := hid ▸ hs.scopes.define id' name hv }

namespace Eval

open Session

variable {K : Likeness} {A A' : Arithmetic} {α β γ δ : Type} {bound : Nat}

/-- In like sessions both end alike and leave like sessions, and the first leaves the scopes out of
reach alone. -/
def Alike (K : Likeness) (R : α → β → Prop) (m : Eval α) (m' : Eval β) : Prop :=
  ∀ ⦃s s' : Session⦄, Session.Like K s s' →
    Outcome.Like K R (s.run m).1 (s'.run m').1 ∧ Session.Like K (s.run m).2 (s'.run m').2 ∧
      s.Frames K (s.run m).2

theorem alike_pure {R : α → β → Prop} {a : α} {b : β} (h : R a b) :
    Alike K R (pure a) (pure b) :=
  fun _ _ hs => ⟨.ok h, hs, fun _ _ => rfl⟩

theorem alike_throw {R : α → β → Prop} {stop stop' : Stop} (h : Stop.Like K stop stop') :
    Alike K R (throw stop) (throw stop') :=
  fun _ _ hs => ⟨.error h, hs, fun _ _ => rfl⟩

theorem alike_raise {R : α → β → Prop} (problem : RuntimeError.Problem) {t u : Token}
    (h : K.token t u) : Alike K R (raise problem t) (raise problem u) :=
  alike_throw (.runtime problem h)

theorem Alike.bind {R : α → β → Prop} {S : γ → δ → Prop} {m : Eval α} {m' : Eval β}
    {next : α → Eval γ} {next' : β → Eval δ} (hm : Alike K R m m')
    (hnext : ∀ a b, R a b → Alike K S (next a) (next' b)) :
    Alike K S (m >>= next) (m' >>= next') := by
  intro s s' hs
  obtain ⟨houtcome, hlike, hframe⟩ := hm hs
  rw [run_bind, run_bind]
  generalize s.run m = o at houtcome hlike hframe ⊢
  generalize s'.run m' = o' at houtcome hlike ⊢
  obtain ⟨r, t⟩ := o
  obtain ⟨r', t'⟩ := o'
  cases houtcome with
  | ok h =>
    obtain ⟨houtcome', hlike', hframe'⟩ := hnext _ _ h hlike
    exact ⟨houtcome', hlike', hframe.trans hframe'⟩
  | error h => exact ⟨.error h, hlike, hframe⟩

/-- A new scope comes and goes on both sides. -/
theorem Alike.inNewScope {R : α → β → Prop} {m : Eval α} {m' : Eval β} (hm : Alike K R m m')
    {s s' : Session} (hs : Session.Like K s s') {parent parent' : ScopeId}
    (hparent : K.within parent) (hsame : parent' = parent) :
    Outcome.Like K R (s.run (inNewScope parent m)).1 (s'.run (inNewScope parent' m')).1 ∧
      Session.Like K (s.run (inNewScope parent m)).2 (s'.run (inNewScope parent' m')).2 ∧
      s.Frames K (s.run (inNewScope parent m)).2 := by
  subst hsame
  have hfresh := hs.scopes.fresh _ (Nat.le_refl _)
  have henter : Session.Like K (s.enter parent') (s'.enter parent') :=
    { hs with
      scopes := hs.scopes.newChild hparent
      active := hs.scopes.next
      within := hfresh }
  -- both enter a scope with the same number, which is in reach like all that are to come
  obtain ⟨houtcome, hlike, hframe⟩ := hm henter
  rw [run_inNewScope, run_inNewScope]
  refine ⟨houtcome, { hlike with active := hs.active, within := hs.within }, fun id hid => ?_⟩
  refine (hframe id hid).trans ?_
  -- a scope out of reach is not the new one
  change (s.scopes.add _).all[id]? = _
  rw [Scopes.getElem?_add, if_neg]
  rintro rfl
  exact hid hfresh

theorem alike_lookup (hK : K.Lawful A A') {name name' : Token} (hname : K.token name name') :
    Alike K (Value.Like K) (lookup name) (lookup name') := by
  intro s s' hs
  have hvalue := hs.scopes.get? name.lexeme hs.within
  rw [run_lookup, run_lookup, hK.lexeme hname, hs.active]
  generalize s.scopes.get? s.active name.lexeme = a at hvalue
  generalize s'.scopes.get? s.active name.lexeme = b at hvalue
  cases hvalue with
  | none => exact ⟨.error (.runtime _ hname), hs, fun _ _ => rfl⟩
  | some h => exact ⟨.ok h, hs, fun _ _ => rfl⟩

theorem alike_assign (hK : K.Lawful A A') {name name' : Token} {v v' : Value}
    (hname : K.token name name') (hv : Value.Like K v v') :
    Alike K (fun _ _ => True) (assign name v) (assign name' v') := by
  intro s s' hs
  obtain ⟨hholder, hwithin⟩ := hs.scopes.holder? name.lexeme hs.within
  have hsame : s'.scopes.holder? name.lexeme s'.active = s.scopes.holder? name.lexeme s.active := by
    rw [hs.active, hholder]
  rw [run_assign, run_assign, hK.lexeme hname, hsame]
  cases h : s.scopes.holder? name.lexeme s.active with
  | none => exact ⟨.error (.runtime _ hname), hs, fun _ _ => rfl⟩
  | some holder =>
    exact ⟨.ok trivial, hs.define rfl name.lexeme hv, Session.frames_define (hwithin holder h) _ _⟩

theorem alike_define (name : String) {v v' : Value} (hv : Value.Like K v v') :
    Alike K (fun _ _ => True) (define name v) (define name v') :=
  fun _ _ hs =>
    ⟨.ok trivial, hs.define hs.active _ hv, Session.frames_define hs.within _ _⟩

theorem alike_makeFunction (hK : K.Lawful A A') {name name' : Token}
    {parameters parameters' : List Token} {body body' : List Stmt} (hname : K.token name name')
    (hparameters : List.Forall₂ K.token parameters parameters')
    (hbody : List.Forall₂ (Stmt.Like K) body body') :
    Alike K (Function.Like K) (makeFunction name parameters body)
      (makeFunction name' parameters' body') := by
  intro s s' hs
  -- objects are told apart by number, and both runs have made equally many
  have hobject : (⟨s'.objects, name'.lexeme⟩ : FunctionObject) = ⟨s.objects, name.lexeme⟩ := by
    rw [hK.lexeme hname, hs.objects]
  refine ⟨?_, { hs with objects := congrArg (· + 1) hs.objects }, fun _ _ => rfl⟩
  rw [run_makeFunction, run_makeFunction, hobject, hs.active]
  exact .ok (.declared hparameters hbody hs.within)

theorem alike_write (text : String) : Alike K (fun _ _ => True) (write text) (write text) := by
  intro s s' hs
  have htake : s'.sink.take s'.output text = s.sink.take s.output text := by
    rw [hs.sink, hs.output]
  have hrefusal : s'.sink.refusal = s.sink.refusal := by rw [hs.sink]
  rw [run_write, run_write, htake, hrefusal]
  refine ⟨?_, { hs with output := congrArg (· ++ s.sink.take s.output text) hs.output },
    fun _ _ => rfl⟩
  split
  · exact .ok trivial
  · exact .error (.outputRefused _)

theorem alike_printLine (hK : K.Lawful A A') {v v' : Value} (hv : Value.Like K v v') :
    Alike K (fun _ _ => True) (printLine v) (printLine v') := by
  unfold printLine
  rw [hv.text hK]
  exact (alike_write _).bind fun _ _ _ => alike_write _

theorem alike_act {native : Native} {arguments arguments' : List Value}
    (hrespects : native.Respects K) (harguments : List.Forall₂ (Value.Like K) arguments arguments') :
    Alike K (fun a b => Operation.Like K (some a) (some b)) (act native.action arguments)
      (act native.action arguments') := by
  intro s s' hs
  cases haction : native.action with
  | readClock =>
    refine ⟨?_, { hs with readings := congrArg (· + 1) hs.readings }, fun _ _ => rfl⟩
    rw [run_act_readClock, run_act_readClock, hs.readings]
    exact .ok (hs.clock.value s.readings)
  | compute answer =>
    -- what the host computes is not known, but it answers like arguments alike
    exact ⟨.ok (hrespects answer haction arguments arguments' harguments), hs, fun _ _ => rfl⟩

theorem alike_answer {native : Native} {paren paren' : Token} {arguments arguments' : List Value}
    (hparen : K.token paren paren') (hrespects : native.Respects K)
    (harguments : List.Forall₂ (Value.Like K) arguments arguments') :
    Alike K (Value.Like K) (answer native paren arguments) (answer native paren' arguments') := by
  refine Alike.bind (alike_act hrespects harguments) fun a b h => ?_
  cases h with
  | value h => exact alike_pure h
  | problem problem => exact alike_raise problem hparen

theorem alike_callNative (index : Nat) {paren paren' : Token} {arguments arguments' : List Value}
    (hparen : K.token paren paren') (harguments : List.Forall₂ (Value.Like K) arguments arguments') :
    Alike K (Value.Like K) (callNative index paren arguments)
      (callNative index paren' arguments') := by
  intro s s' hs
  rw [run_callNative, run_callNative, hs.natives]
  cases hnative : s.natives[index]? with
  | none => exact ⟨.error .malformed, hs, fun _ _ => rfl⟩
  | some native =>
    dsimp only
    rw [← harguments.length_eq]
    split
    · exact alike_answer hparen (hs.respects native (Array.mem_of_getElem? hnative)) harguments hs
    · exact ⟨.error (.runtime _ hparen), hs, fun _ _ => rfl⟩

/-- Running alike is a comparison. -/
def Comparison.alike (hK : K.Lawful A A') : Comparison K where
  Rel := Alike K
  pure := alike_pure
  bind := Alike.bind
  raise := alike_raise
  malformed hs := alike_throw .malformed hs
  lookup := alike_lookup hK
  assign := alike_assign hK
  define := alike_define
  makeFunction := alike_makeFunction hK
  printLine := alike_printLine hK
  callNative := alike_callNative
  inNewScope hm hparent _ _ hs := hm.inNewScope hs hparent rfl
  inActiveScope hm _ _ hs := hm.inNewScope hs hs.within hs.active

/-- Like trees are evaluated alike. -/
theorem alike (hK : K.Lawful A A') (bound : Nat) : (Comparison.alike hK).Within A A' bound 0 := by
  refine Comparison.within _ hK ?_ bound
  constructor <;>
  · intros
    intro s s' hs
    exact ⟨.error .exhausted, hs, fun _ _ => rfl⟩

end Eval

end LoxScript
