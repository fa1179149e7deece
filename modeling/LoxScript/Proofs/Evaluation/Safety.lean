import LoxScript.Proofs.Evaluation.Join
import LoxScript.Proofs.Syntax.WellFormed

/-!
# Evaluation of well formed trees

An evaluation stops as malformed at a node that no program has: an operator that is none, or a native
function that the session does not have. Well formed trees have no such node. But a call runs a tree that
an earlier script may have left in a scope, so what is carried through an evaluation is that all function
values of the session, and those on the way, have well formed bodies.

## Main definitions

* `Value.WellFormed`, `Session.WellFormed`: no function value has a body that is not well formed.
* `Eval.Safe`: an evaluation that keeps sessions well formed and never stops as malformed.
* `Session.Completes`: every statement of a program was executed to its end, one after the other.

## Main statements

* `Eval.safe`: well formed trees are evaluated safely.
* `Session.Ran.wellFormed`: scripts leave well formed sessions behind.
* `Session.runSource_safe`: no script ever stops as malformed, and one that ends well has been executed
  to its end.
-/

namespace LoxScript

/-! ## Values and sessions -/

/-- A native function that the session has, of `count` ones, or a declared function with a well formed
body and parameter list. -/
def Function.WellFormed (count : Nat) : Function → Prop
  | .native index => index < count
  | .declared _ parameters body _ =>
    (∀ t ∈ parameters, t.kind = .identifier) ∧ parameters.length ≤ maxArity ∧
      ∀ s ∈ body, s.WellFormed true

/-- A value that is no function, or a well formed function. -/
def Value.WellFormed (count : Nat) : Value → Prop
  | .function f => f.WellFormed count
  | _ => True

/-- A well formed result, or none. -/
def Completion.WellFormed (count : Nat) : Completion → Prop
  | .normal => True
  | .returned v => v.WellFormed count

/-- A native function makes well formed values of well formed arguments. -/
def Native.KeepsWellFormed (count : Nat) (native : Native) : Prop :=
  ∀ answer, native.action = .compute answer → ∀ arguments v,
    (∀ a ∈ arguments, a.WellFormed count) → answer arguments = .ok v → v.WellFormed count

/-- The scopes bind well formed values only. -/
def Scopes.WellFormed (count : Nat) (scopes : Scopes) : Prop :=
  ∀ (id : ScopeId) (scope : Scope), scopes.all[id]? = some scope → ∀ binding ∈ scope.bindings,
    binding.2.WellFormed count

/-- A session with the native functions `natives`, the values of which are all well formed. -/
structure Session.WellFormed (natives : Array Native) (s : Session) : Prop where
  scopes : s.scopes.WellFormed natives.size
  natives : s.natives = natives

variable {count : Nat}

theorem Literal.value_wellFormed (a : Literal) : a.value.WellFormed count := by
  cases a <;> trivial

theorem Completion.WellFormed.value {c : Completion} (h : c.WellFormed count) :
    c.value.WellFormed count := by
  cases c with
  | normal => trivial
  | returned v => exact h

theorem Scope.mem_bind {name : String} {v : Value} {bindings : List (String × Value)}
    {binding : String × Value} (h : binding ∈ bind name v bindings) :
    binding = (name, v) ∨ binding ∈ bindings := by
  induction bindings with
  | nil => exact .inl (List.mem_singleton.1 h)
  | cons other bindings ih =>
    obtain ⟨key, old⟩ := other
    unfold bind at h
    split at h
    · exact (List.mem_cons.1 h).imp_right (List.mem_cons_of_mem _)
    · rcases List.mem_cons.1 h with rfl | h
      · exact .inr (List.mem_cons_self ..)
      · exact (ih h).imp_right (List.mem_cons_of_mem _)

/-- Everything that the scopes bind is in `P`. -/
def Scopes.AllValues (P : Value → Prop) (scopes : Scopes) : Prop :=
  ∀ (id : ScopeId) (scope : Scope), scopes.all[id]? = some scope → ∀ binding ∈ scope.bindings,
    P binding.2

namespace Scopes.AllValues

variable {P : Value → Prop} {scopes : Scopes}

/-- Scopes with no bindings in them bind nothing that is not in `P`. -/
theorem newRoot_empty : Scopes.empty.newRoot.AllValues P := by
  intro id scope hscope binding hbinding
  rw [Scopes.newRoot, Scopes.getElem?_add] at hscope
  split at hscope <;> cases hscope
  cases hbinding

theorem imp {R : Value → Prop} (h : scopes.AllValues P) (hPR : ∀ v, P v → R v) :
    scopes.AllValues R :=
  fun id scope hscope binding hbinding => hPR _ (h id scope hscope binding hbinding)

variable (h : scopes.AllValues P)

include h

theorem define {v : Value} (hv : P v) (target : ScopeId) (name : String) :
    (scopes.define target name v).AllValues P := by
  intro id scope hscope binding hbinding
  rw [getElem?_define] at hscope
  split at hscope
  · obtain ⟨old, hold, rfl⟩ := Option.map_eq_some_iff.1 hscope
    rcases Scope.mem_bind hbinding with rfl | hbinding
    · exact hv
    · exact h id old hold binding hbinding
  · exact h id scope hscope binding hbinding

theorem newChild (parent : ScopeId) : (scopes.newChild parent).AllValues P := by
  intro id scope hscope binding hbinding
  rw [Scopes.newChild, getElem?_add] at hscope
  split at hscope
  -- the new scope binds nothing
  · cases hscope
    cases hbinding
  · exact h id scope hscope binding hbinding

theorem get? {id : ScopeId} {name : String} {v : Value} (hv : scopes.get? id name = some v) :
    P v := by
  unfold Scopes.get? at hv
  obtain ⟨holder, -, hv⟩ := Option.bind_eq_some_iff.1 hv
  obtain ⟨scope, hscope, hv⟩ := Option.bind_eq_some_iff.1 hv
  obtain ⟨before, after, hbindings, -⟩ := List.lookup_eq_some_iff.1 hv
  exact h holder scope hscope (name, v) (by simp [hbindings])

end Scopes.AllValues

namespace Scopes.WellFormed

variable {scopes : Scopes} (h : scopes.WellFormed count)

include h

theorem define {v : Value} (hv : v.WellFormed count) (target : ScopeId) (name : String) :
    (scopes.define target name v).WellFormed count :=
  AllValues.define h hv target name

theorem newChild (parent : ScopeId) : (scopes.newChild parent).WellFormed count :=
  AllValues.newChild h parent

theorem get? {id : ScopeId} {name : String} {v : Value} (hv : scopes.get? id name = some v) :
    v.WellFormed count :=
  AllValues.get? (P := Value.WellFormed count) h hv

end Scopes.WellFormed

/-! ## Elementary evaluations -/

namespace Eval

open Session

variable {α β : Type} {natives : Array Native}

/-- In a well formed session `m` never stops as malformed, leaves a well formed session, and ends with a
value in `Q` if it ends with one. -/
def Safe (natives : Array Native) (Q : α → Prop) (m : Eval α) : Prop :=
  ∀ s : Session, s.WellFormed natives → (s.run m).1 ≠ .error .malformed ∧
    (s.run m).2.WellFormed natives ∧ ∀ a, (s.run m).1 = .ok a → Q a

theorem safe_pure {Q : α → Prop} {a : α} (h : Q a) : Safe natives Q (pure a) := by
  refine fun s hs => ⟨by simp, hs, ?_⟩
  rintro _ ⟨⟩
  exact h

theorem safe_throw {Q : α → Prop} {stop : Stop} (h : stop ≠ .malformed) :
    Safe natives Q (throw stop) :=
  fun s hs => ⟨by simpa using h, hs, by rintro _ ⟨⟩⟩

theorem safe_raise {Q : α → Prop} (problem : RuntimeError.Problem) (t : Token) :
    Safe natives Q (raise problem t) :=
  safe_throw (by simp)

theorem Safe.bind {Q : α → Prop} {P : β → Prop} {m : Eval α} {next : α → Eval β}
    (hm : Safe natives Q m) (hnext : ∀ a, Q a → Safe natives P (next a)) :
    Safe natives P (m >>= next) := by
  intro s hs
  obtain ⟨hstop, hleft, hvalue⟩ := hm s hs
  rcases h : s.run m with ⟨stop | a, t⟩ <;> rw [h] at hstop hleft hvalue
  · rw [run_bind_of_error next h]
    exact ⟨by simpa using hstop, hleft, by rintro _ ⟨⟩⟩
  · rw [run_bind_of_ok next h]
    exact hnext a (hvalue a rfl) t hleft

theorem Safe.inNewScope {Q : α → Prop} {m : Eval α} (hm : Safe natives Q m) (parent : ScopeId) :
    Safe natives Q (inNewScope parent m) := by
  intro s hs
  obtain ⟨hstop, hleft, hvalue⟩ := hm (s.enter parent) ⟨hs.scopes.newChild parent, hs.natives⟩
  rw [run_inNewScope]
  exact ⟨hstop, ⟨hleft.scopes, hleft.natives⟩, hvalue⟩

theorem safe_lookup (name : Token) : Safe natives (Value.WellFormed natives.size) (lookup name) := by
  intro s hs
  rw [run_lookup]
  cases h : s.scopes.get? s.active name.lexeme with
  | none => exact ⟨by simp, hs, by rintro _ ⟨⟩⟩
  | some v =>
    refine ⟨by simp, hs, ?_⟩
    rintro _ ⟨⟩
    exact hs.scopes.get? h

theorem safe_define (name : String) {v : Value} (hv : v.WellFormed natives.size) :
    Safe natives (fun _ => True) (define name v) :=
  fun s hs => ⟨by simp, ⟨hs.scopes.define hv s.active name, hs.natives⟩, fun _ _ => trivial⟩

theorem safe_assign (name : Token) {v : Value} (hv : v.WellFormed natives.size) :
    Safe natives (fun _ => True) (assign name v) := by
  intro s hs
  rw [run_assign]
  cases s.scopes.holder? name.lexeme s.active with
  | none => exact ⟨by simp, hs, fun _ _ => trivial⟩
  | some holder =>
    exact ⟨by simp, ⟨hs.scopes.define hv holder name.lexeme, hs.natives⟩, fun _ _ => trivial⟩

theorem safe_makeFunction (name : Token) {parameters : List Token} {body : List Stmt}
    (hparameters : ∀ t ∈ parameters, t.kind = .identifier) (hcount : parameters.length ≤ maxArity)
    (hbody : ∀ s ∈ body, s.WellFormed true) :
    Safe natives (Function.WellFormed natives.size) (makeFunction name parameters body) := by
  refine fun s hs => ⟨by simp, ⟨hs.scopes, hs.natives⟩, ?_⟩
  rintro _ ⟨⟩
  exact ⟨hparameters, hcount, hbody⟩

theorem safe_write (text : String) : Safe natives (fun _ => True) (write text) := by
  intro s hs
  rw [run_write]
  refine ⟨?_, ⟨hs.scopes, hs.natives⟩, fun _ _ => trivial⟩
  split <;> simp

theorem safe_printLine (v : Value) : Safe natives (fun _ => True) (printLine v) :=
  (safe_write _).bind fun _ _ => safe_write _

theorem safe_bindAll {parameters : List Token} {arguments : List Value}
    (harguments : ∀ a ∈ arguments, a.WellFormed natives.size) :
    Safe natives (fun _ => True) (bindAll parameters arguments) := by
  induction parameters generalizing arguments with
  | nil =>
    unfold bindAll
    exact safe_pure trivial
  | cons parameter parameters ih =>
    cases arguments with
    | nil => exact safe_pure trivial
    | cons a arguments =>
      obtain ⟨ha, harguments⟩ := List.forall_mem_cons.1 harguments
      exact (safe_define parameter.lexeme ha).bind fun _ _ => ih harguments

/-! ## Operators -/

/-- An operation that has a meaning, and one that makes well formed values. -/
def Meaningful (count : Nat) (operation : Operation) : Prop :=
  operation ≠ none ∧ ∀ v, operation = some (.ok v) → v.WellFormed count

theorem meaningful_unary (A : Arithmetic) {kind : Token.Kind} (hkind : kind ∈ [.minus, .bang])
    (v : Value) : Meaningful count (.unary A kind v) := by
  simp only [List.mem_cons, List.not_mem_nil, or_false] at hkind
  rcases hkind with rfl | rfl
  · unfold Meaningful Operation.unary
    dsimp only
    cases v <;> simp [Operation.negative, Value.WellFormed]
  · simp [Meaningful, Operation.unary, Value.WellFormed]

theorem meaningful_onNumbers {compute : Number → Number → Value}
    (hcompute : ∀ a b, (compute a b).WellFormed count) (v w : Value) :
    Meaningful count (.onNumbers compute v w) := by
  unfold Meaningful Operation.onNumbers
  cases v <;> cases w <;> simp [hcompute]

theorem meaningful_plus (A : Arithmetic) (v w : Value) : Meaningful count (.plus A v w) := by
  unfold Meaningful Operation.plus
  cases v <;> cases w <;> simp [Value.WellFormed]

theorem meaningful_binary (A : Arithmetic) {kind : Token.Kind} (hkind : kind ∈ Expr.binaryOperators)
    (v w : Value) : Meaningful count (.binary A kind v w) := by
  have hbool (b : Bool) : Meaningful count (some (.ok (.bool b))) := by
    simp [Meaningful, Value.WellFormed]
  simp only [Expr.binaryOperators, List.mem_cons, List.not_mem_nil, or_false] at hkind
  -- arithmetic, order and equality, operator by operator
  rcases hkind with rfl | rfl | rfl | rfl | rfl | rfl | rfl | rfl | rfl | rfl
  · exact meaningful_plus A v w
  · exact meaningful_onNumbers (fun _ _ => by trivial) v w
  · exact meaningful_onNumbers (fun _ _ => by trivial) v w
  · exact meaningful_onNumbers (fun _ _ => by trivial) v w
  · exact meaningful_onNumbers (fun _ _ => by trivial) v w
  · exact meaningful_onNumbers (fun _ _ => by trivial) v w
  · exact meaningful_onNumbers (fun _ _ => by trivial) v w
  · exact meaningful_onNumbers (fun _ _ => by trivial) v w
  · exact hbool _
  · exact hbool _

theorem safe_ofOperation {operation : Operation} (h : Meaningful natives.size operation)
    (operator : Token) :
    Safe natives (Value.WellFormed natives.size) (ofOperation operator operation) := by
  rcases operation with - | problem | v
  · exact absurd rfl h.1
  · exact safe_raise problem operator
  · exact safe_pure (h.2 v rfl)

/-! ## Native functions -/

theorem safe_act {native : Native} (hnative : native.KeepsWellFormed natives.size)
    {arguments : List Value} (harguments : ∀ a ∈ arguments, a.WellFormed natives.size) :
    Safe natives (fun answer => Meaningful natives.size (some answer))
      (act native.action arguments) := by
  intro s hs
  cases haction : native.action with
  | readClock =>
    refine ⟨by simp, ⟨hs.scopes, hs.natives⟩, ?_⟩
    rintro _ ⟨⟩
    refine ⟨by simp, fun v hv => ?_⟩
    obtain ⟨time, rfl⟩ := Clock.eq_number_of_value (Option.some.inj hv)
    trivial
  | compute answer =>
    refine ⟨by simp, hs, ?_⟩
    rintro _ ⟨⟩
    exact ⟨by simp, fun v hv => hnative answer haction arguments v harguments (Option.some.inj hv)⟩

theorem safe_callNative (hnatives : ∀ native ∈ natives, native.KeepsWellFormed natives.size)
    {index : Nat} (hindex : index < natives.size) (paren : Token) {arguments : List Value}
    (harguments : ∀ a ∈ arguments, a.WellFormed natives.size) :
    Safe natives (Value.WellFormed natives.size) (callNative index paren arguments) := by
  intro s hs
  -- the index is one of a native function that the session has
  rw [run_callNative, hs.natives, Array.getElem?_eq_getElem hindex]
  dsimp only
  split
  · have hnative := hnatives _ (Array.getElem_mem hindex)
    exact ((safe_act hnative harguments).bind fun _ h => safe_ofOperation h paren) s hs
  · exact ⟨by simp, hs, by rintro _ ⟨⟩⟩

/-! ## All evaluations -/

/-- Well formed trees under a bound are evaluated safely, and well formed functions called safely. -/
structure EvaluatesSafely (A : Arithmetic) (natives : Array Native) (bound : Nat) : Prop where
  evaluate : ∀ {e : Expr}, e.WellFormed →
    Safe natives (Value.WellFormed natives.size) (evaluate A bound e)
  evaluateEach : ∀ {es : List Expr}, (∀ e ∈ es, e.WellFormed) →
    Safe natives (fun vs => ∀ v ∈ vs, v.WellFormed natives.size) (evaluateEach A bound es)
  call : ∀ {callee : Value} {paren : Token} {arguments : List Value},
    callee.WellFormed natives.size → (∀ a ∈ arguments, a.WellFormed natives.size) →
    Safe natives (Value.WellFormed natives.size) (call A bound callee paren arguments)
  execute : ∀ {f : Bool} {s : Stmt}, s.WellFormed f →
    Safe natives (Completion.WellFormed natives.size) (execute A bound s)
  executeEach : ∀ {f : Bool} {ss : List Stmt}, (∀ s ∈ ss, s.WellFormed f) →
    Safe natives (Completion.WellFormed natives.size) (executeEach A bound ss)

namespace EvaluatesSafely

variable {A : Arithmetic} {bound : Nat} (h : EvaluatesSafely A natives bound)

include h

theorem evaluate_succ {e : Expr} (he : e.WellFormed) :
    Safe natives (Value.WellFormed natives.size) (Eval.evaluate A (bound + 1) e) := by
  cases he with
  | literal value => exact safe_pure value.value_wellFormed
  | grouping hinner => exact h.evaluate hinner
  | unary hop hoperand =>
    exact (h.evaluate hoperand).bind fun v _ => safe_ofOperation (meaningful_unary A hop v) _
  | binary hop hleft hright =>
    exact (h.evaluate hleft).bind fun v _ => (h.evaluate hright).bind fun w _ =>
      safe_ofOperation (meaningful_binary A hop v w) _
  | @logical op _ _ _ hleft hright =>
    refine (h.evaluate hleft).bind fun v hv => ?_
    dsimp only
    generalize (if op.kind = .keyword .or then v.truthy else !v.truthy) = decided
    cases decided with
    | true => exact safe_pure hv
    | false => exact h.evaluate hright
  | «variable» _ => exact safe_lookup _
  | assign _ hvalue =>
    exact (h.evaluate hvalue).bind fun v hv => (safe_assign _ hv).bind fun _ _ => safe_pure hv
  | call hcallee _ harguments _ =>
    exact (h.evaluate hcallee).bind fun _ hf => (h.evaluateEach harguments).bind fun _ hargs =>
      h.call hf hargs

theorem evaluateEach_succ {es : List Expr} (hes : ∀ e ∈ es, e.WellFormed) :
    Safe natives (fun vs => ∀ v ∈ vs, v.WellFormed natives.size)
      (Eval.evaluateEach A (bound + 1) es) := by
  cases es with
  | nil => exact safe_pure (List.forall_mem_nil _)
  | cons e es =>
    obtain ⟨he, hes⟩ := List.forall_mem_cons.1 hes
    exact (h.evaluate he).bind fun _ hv => (h.evaluateEach hes).bind fun _ hvs =>
      safe_pure (List.forall_mem_cons.2 ⟨hv, hvs⟩)

theorem call_succ (hnatives : ∀ native ∈ natives, native.KeepsWellFormed natives.size)
    {callee : Value} {paren : Token} {arguments : List Value} (hcallee : callee.WellFormed natives.size)
    (harguments : ∀ a ∈ arguments, a.WellFormed natives.size) :
    Safe natives (Value.WellFormed natives.size)
      (Eval.call A (bound + 1) callee paren arguments) := by
  unfold Eval.call
  split
  · obtain ⟨-, -, hbody⟩ := hcallee
    split
    -- the body was well formed when its function was declared, and still is
    · refine Safe.inNewScope ?_ _
      exact (safe_bindAll harguments).bind fun _ _ => (h.executeEach hbody).bind fun _ hc =>
        safe_pure hc.value
    · exact safe_raise _ _
  · exact safe_callNative hnatives hcallee paren harguments
  · exact safe_raise _ _

theorem execute_succ {f : Bool} {s : Stmt} (hs : s.WellFormed f) :
    Safe natives (Completion.WellFormed natives.size) (Eval.execute A (bound + 1) s) := by
  cases hs with
  | expression hvalue => exact (h.evaluate hvalue).bind fun _ _ => safe_pure trivial
  | print hvalue =>
    exact (h.evaluate hvalue).bind fun v _ => (safe_printLine v).bind fun _ _ => safe_pure trivial
  | @var _ name initial _ hinitial =>
    cases initial with
    | none => exact (safe_define name.lexeme (v := .nil) trivial).bind fun _ _ => safe_pure trivial
    | some e =>
      exact (h.evaluate (hinitial e rfl)).bind fun _ hv =>
        (safe_define name.lexeme hv).bind fun _ _ => safe_pure trivial
  | block hbody => exact fun s hs => (h.executeEach hbody).inNewScope s.active s hs
  | ifThen hcondition hbody =>
    refine (h.evaluate hcondition).bind fun v _ => ?_
    split
    · exact h.execute hbody
    · exact safe_pure trivial
  | ifElse hcondition hbody hotherwise =>
    refine (h.evaluate hcondition).bind fun v _ => ?_
    split
    · exact h.execute hbody
    · exact h.execute hotherwise
  -- the next turn is the loop itself, under the bound that is left
  | loop hcondition hbody =>
    refine (h.evaluate hcondition).bind fun v _ => ?_
    split
    · refine (h.execute hbody).bind fun c hc => ?_
      cases c with
      | normal => exact h.execute (.loop hcondition hbody)
      | returned v => exact safe_pure hc
    · exact safe_pure trivial
  | function _ hparameters hcount hbody =>
    exact (safe_makeFunction _ hparameters hcount hbody).bind fun f hf =>
      (safe_define _ (v := .function f) hf).bind fun _ _ => safe_pure trivial
  | @result _ value _ hvalue =>
    cases value with
    | none => exact safe_pure (a := Completion.returned .nil) trivial
    | some e =>
      exact (h.evaluate (hvalue e rfl)).bind fun v hv => safe_pure (a := Completion.returned v) hv

theorem executeEach_succ {f : Bool} {ss : List Stmt} (hss : ∀ s ∈ ss, s.WellFormed f) :
    Safe natives (Completion.WellFormed natives.size) (Eval.executeEach A (bound + 1) ss) := by
  cases ss with
  | nil => exact safe_pure (a := Completion.normal) trivial
  | cons s ss =>
    obtain ⟨hs, hss⟩ := List.forall_mem_cons.1 hss
    refine (h.execute hs).bind fun c hc => ?_
    cases c with
    | normal => exact h.executeEach hss
    | returned v => exact safe_pure hc

end EvaluatesSafely

/-- Well formed trees are evaluated safely, whatever the bound. -/
theorem safe (A : Arithmetic) (hnatives : ∀ native ∈ natives, native.KeepsWellFormed natives.size)
    (bound : Nat) : EvaluatesSafely A natives bound := by
  induction bound with
  | zero => constructor <;> intros <;> exact safe_throw (by simp)
  | succ bound ih =>
    exact ⟨ih.evaluate_succ, ih.evaluateEach_succ, ih.call_succ hnatives, ih.execute_succ,
      ih.executeEach_succ⟩

end Eval

/-! ## Scripts -/

namespace Session

variable {A : Arithmetic} {sources : List String} {s : Session}

/-- The native functions of a session that is given none. -/
def builtins : Array Native := #[⟨0, .readClock⟩]

theorem builtins_keepWellFormed : ∀ native ∈ builtins, native.KeepsWellFormed builtins.size := by
  intro native hnative answer haction
  obtain rfl := List.mem_singleton.1 (Array.mem_def.1 hnative)
  cases haction

theorem start_wellFormed (clock : Clock) (sink : Sink) :
    (start clock sink).WellFormed builtins := by
  have hroot : Scopes.empty.newRoot.WellFormed builtins.size := Scopes.AllValues.newRoot_empty
  have hclock : (Value.function (.native 0)).WellFormed builtins.size := Nat.zero_lt_one
  exact ⟨hroot.define hclock globals "clock", rfl⟩

/-- A program with well formed statements is safe to run in a well formed session. -/
theorem WellFormed.executeEach (hs : s.WellFormed builtins) {p : Program}
    (hp : ∀ statement ∈ p, statement.WellFormed false) (bound : Nat) :
    (s.run (Eval.executeEach A bound p)).1 ≠ .error .malformed ∧
      (s.run (Eval.executeEach A bound p)).2.WellFormed builtins := by
  obtain ⟨hstop, hleft, -⟩ := (Eval.safe A builtins_keepWellFormed bound).executeEach hp s hs
  exact ⟨hstop, hleft⟩

/-- A script leaves a well formed session behind, and does not stop as malformed. -/
theorem WellFormed.runSource (hs : s.WellFormed builtins) (bound : Nat) (source : String) :
    (s.runSource A bound source).1 ≠ .error (.stopped .malformed) ∧
      (s.runSource A bound source).2.WellFormed builtins := by
  unfold Session.runSource
  cases hp : Program.ofSource A source with
  | error reason => exact ⟨by simp, hs⟩
  | ok p =>
    obtain ⟨hstop, hleft⟩ := hs.executeEach (A := A) (Program.wellFormed_of_ofSource hp) bound
    dsimp only
    rw [interpret_eq]
    refine ⟨?_, hleft⟩
    generalize (s.run (Eval.executeEach A bound p)).1 = o at hstop
    cases o with
    | ok c => simp [ended]
    | error stop => simpa [ended] using hstop

/-- All function values of a session that scripts have left behind have well formed bodies. -/
theorem Ran.wellFormed (h : Ran A sources s) : s.WellFormed builtins := by
  induction h with
  | start clock sink => exact start_wellFormed clock sink
  | runSource _ bound source ih => exact (ih.runSource bound source).2

/-- `s.Completes A p t`: the statements of `p` are executed one after the other from `s` on, each to its
end, and the last one leaves `t`. -/
inductive Completes (A : Arithmetic) : Session → Program → Session → Prop where
  | nil (s : Session) : Completes A s [] s
  | cons {s t u : Session} {statement : Stmt} {p : Program} (bound : Nat)
      (h : s.run (Eval.execute A bound statement) = (.ok .normal, t)) (hp : Completes A t p u) :
      Completes A s (statement :: p) u

/-- Statements that end at their end have all been executed. -/
theorem completes_of_run {bound : Nat} {p : Program} {t : Session}
    (h : s.run (Eval.executeEach A bound p) = (.ok .normal, t)) : s.Completes A p t := by
  induction p generalizing s bound with
  | nil =>
    cases bound with
    | zero => cases h
    | succ bound =>
      cases h
      exact .nil _
  | cons statement p ih =>
    cases bound with
    | zero => cases h
    | succ bound =>
      rw [run_executeEach_cons] at h
      rcases hfirst : s.run (Eval.execute A bound statement) with ⟨_ | _ | _, u⟩ <;> rw [hfirst] at h
      · cases h
      · exact .cons bound hfirst (ih h)
      · cases h

/-- The trees that are read from tokens are well formed. Therefore, in a session that scripts have left
behind, a further script

* never stops at a node that no program has;
* does not end at a result of its own;
* has been executed to its end, statement by statement, if it ends well. -/
theorem runSource_safe (A : Arithmetic) :
    (∀ (ts : List Token) (p : Program), Program.ofTokens ts = .ok p →
      ∀ statement ∈ p, statement.WellFormed false) ∧
    ∀ (sources : List String) (s : Session), Ran A sources s → ∀ (bound : Nat) (source : String),
      (s.runSource A bound source).1 ≠ .error (.stopped .malformed) ∧
      (∀ p c, Program.ofSource A source = .ok p →
        (s.run (Eval.executeEach A bound p)).1 = .ok c → c = .normal) ∧
      ∀ t, s.runSource A bound source = (.ok (), t) →
        ∃ p, Program.ofSource A source = .ok p ∧ s.Completes A p t := by
  refine ⟨fun ts p => Program.wellFormed_of_ofTokens, fun sources s hs bound source => ?_⟩
  -- at the top no statement gives a result, since none is a `return` outside of functions
  have hnormal : ∀ p c, Program.ofSource A source = .ok p →
      (s.run (Eval.executeEach A bound p)).1 = .ok c → c = .normal := fun p c hp =>
    Eval.executeEach_only_normal (Program.ofSource_eq_ok_iff.1 hp).2.resultFree s c
  refine ⟨(hs.wellFormed.runSource bound source).1, hnormal, fun t h => ?_⟩
  unfold Session.runSource at h
  cases hp : Program.ofSource A source with
  | error reason => simp [hp] at h
  | ok p =>
    simp only [hp, interpret_eq] at h
    rcases hrun : s.run (Eval.executeEach A bound p) with ⟨stop | c, u⟩ <;> rw [hrun] at h
    · cases h
    · obtain ⟨-, rfl⟩ := Prod.mk.inj h
      rw [hnormal p c hp (by rw [hrun])] at hrun
      exact ⟨p, rfl, completes_of_run hrun⟩

/-- A script with a function that returns from its body, in the session that scripts begin in. -/
theorem runSource_safe_start :
    let s := start (.stopped ⟨0⟩) .unlimited
    let source := "fun f() { return nil; } print f();"
    let p : Program :=
      [.function ⟨.identifier, "f", 1⟩ [] [.result ⟨.keyword .return, "return", 1⟩ (some (.literal .nil))],
        .print (.call (.variable ⟨.identifier, "f", 1⟩) ⟨.rightParen, ")", 1⟩ [])]
    Ran .binary64 [] s ∧ Program.ofSource .binary64 source = .ok p ∧
      (∀ statement ∈ p, statement.WellFormed false) ∧
      ∃ t, s.runSource .binary64 9 source = (.ok (), t) ∧ s.Completes .binary64 p t ∧
        t.output = "nil\n" := by
  intro s source p
  have hscan : Scan.ofSource .binary64 source =
      ⟨[⟨.keyword .fun, "fun", 1⟩, ⟨.identifier, "f", 1⟩, ⟨.leftParen, "(", 1⟩,
        ⟨.rightParen, ")", 1⟩, ⟨.leftBrace, "\x7b", 1⟩, ⟨.keyword .return, "return", 1⟩,
        ⟨.keyword .nil, "nil", 1⟩, ⟨.semicolon, ";", 1⟩, ⟨.rightBrace, "\x7d", 1⟩,
        ⟨.keyword .print, "print", 1⟩, ⟨.identifier, "f", 1⟩, ⟨.leftParen, "(", 1⟩,
        ⟨.rightParen, ")", 1⟩, ⟨.semicolon, ";", 1⟩, Token.ending 1], []⟩ := by decide +kernel
  have hread : Program.ofSource .binary64 source = .ok p := by
    rw [Program.ofSource, hscan]
    rfl
  obtain ⟨htrees, hruns⟩ := runSource_safe .binary64
  obtain ⟨-, -, hends⟩ := hruns [] s (.start _ _) 9 source
  let t := (s.run (Eval.executeEach .binary64 9 p)).2
  have hrun : s.runSource .binary64 9 source = (.ok (), t) := by
    simp only [Session.runSource, hread]
    rfl
  obtain ⟨p', hread', hcompletes⟩ := hends t hrun
  obtain rfl : p' = p := Except.ok.inj (hread'.symm.trans hread)
  have htokens : Program.ofTokens (Scan.ofSource .binary64 source).tokens = .ok p := by
    rw [hscan]
    rfl
  exact ⟨.start _ _, hread, htrees _ p htokens, t, hrun, hcompletes, rfl⟩

end Session

end LoxScript
