import Mathlib.Data.List.Forall2
import LoxScript.Evaluation.Run

/-!
# Likeness

Two runs are compared although what they run on is not the same: trees may keep other tokens, numbers
may have other bit patterns, and scopes that are out of reach may have other contents. A likeness says
how far tokens and numbers may differ and which scopes are in reach. It extends to trees, values, scopes
and sessions part by part.

Values in reach only hold closures in reach, and so do the scopes in reach. All scopes that are still to
be made are in reach.

## Main definitions

* `Likeness`, and `Likeness.Lawful` for those that no operation can tell.
* `Expr.Like`, `Stmt.Like`: trees with the same shape and like tokens.
* `Value.Like`, `Scope.Like`, `Session.Like`: like values, like scopes in reach, like sessions.

## Main statements

* `Operation.unary_like`, `Operation.binary_like`: operators make like values of like operands.
-/

namespace LoxScript

/-- How two runs may differ. -/
structure Likeness where
  /-- The tokens that may stand for each other. -/
  token : Token → Token → Prop
  /-- The numbers that may stand for each other. -/
  number : Number → Number → Prop
  /-- The scopes in reach. -/
  within : ScopeId → Prop

variable (K : Likeness)

/-- Kinds of token that are equal, but for the number in them. -/
inductive Token.Kind.Like : Token.Kind → Token.Kind → Prop where
  | same {kind : Token.Kind} (h : ∀ value, kind ≠ .number value) : Like kind kind
  | number {a b : Number} (h : K.number a b) : Like (.number a) (.number b)

/-- Like kinds agree about every kind that has no number in it. -/
theorem Token.Kind.Like.eq_iff {K : Likeness} {kind kind' other : Token.Kind} (h : Like K kind kind')
    (hother : ∀ value, other ≠ .number value) : kind' = other ↔ kind = other := by
  cases h with
  | same => exact Iff.rfl
  | number =>
    exact ⟨fun heq => absurd heq.symm (hother _), fun heq => absurd heq.symm (hother _)⟩

/-- A likeness that no operation can tell, where the two runs compute with `A` and with `A'`. -/
structure Likeness.Lawful (A A' : Arithmetic) : Prop where
  kind : ∀ {t u}, K.token t u → Token.Kind.Like K t.kind u.kind
  lexeme : ∀ {t u}, K.token t u → u.lexeme = t.lexeme
  neg : ∀ {a b}, K.number a b → K.number (A.neg a) (A'.neg b)
  add : ∀ {a b c d}, K.number a b → K.number c d → K.number (A.add a c) (A'.add b d)
  sub : ∀ {a b c d}, K.number a b → K.number c d → K.number (A.sub a c) (A'.sub b d)
  mul : ∀ {a b c d}, K.number a b → K.number c d → K.number (A.mul a c) (A'.mul b d)
  div : ∀ {a b c d}, K.number a b → K.number c d → K.number (A.div a c) (A'.div b d)
  less : ∀ {a b c d}, K.number a b → K.number c d → b.less d = a.less c
  atMost : ∀ {a b c d}, K.number a b → K.number c d → b.atMost d = a.atMost c
  same : ∀ {a b c d}, K.number a b → K.number c d → b.same d = a.same c
  text : ∀ {a b}, K.number a b → b.text "Infinity" = a.text "Infinity"

/-! ## Trees -/

inductive Literal.Like : Literal → Literal → Prop where
  | nil : Like .nil .nil
  | bool (value : Bool) : Like (.bool value) (.bool value)
  | number {a b : Number} (h : K.number a b) : Like (.number a) (.number b)
  | string (text : String) : Like (.string text) (.string text)

inductive Expr.Like : Expr → Expr → Prop where
  | literal {a b : Literal} (h : Literal.Like K a b) : Like (.literal a) (.literal b)
  | grouping {a b : Expr} (h : Like a b) : Like (.grouping a) (.grouping b)
  | unary {op op' : Token} {a b : Expr} (hop : K.token op op') (h : Like a b) :
      Like (.unary op a) (.unary op' b)
  | binary {op op' : Token} {a b c d : Expr} (hop : K.token op op') (hleft : Like a b)
      (hright : Like c d) : Like (.binary op a c) (.binary op' b d)
  | logical {op op' : Token} {a b c d : Expr} (hop : K.token op op') (hleft : Like a b)
      (hright : Like c d) : Like (.logical op a c) (.logical op' b d)
  | variable {name name' : Token} (hname : K.token name name') :
      Like (.variable name) (.variable name')
  | assign {name name' : Token} {a b : Expr} (hname : K.token name name') (h : Like a b) :
      Like (.assign name a) (.assign name' b)
  | call {callee callee' : Expr} {paren paren' : Token} {arguments arguments' : List Expr}
      (hcallee : Like callee callee') (hparen : K.token paren paren')
      (harguments : List.Forall₂ Like arguments arguments') :
      Like (.call callee paren arguments) (.call callee' paren' arguments')

inductive Stmt.Like : Stmt → Stmt → Prop where
  | expression {a b : Expr} (h : Expr.Like K a b) : Like (.expression a) (.expression b)
  | print {a b : Expr} (h : Expr.Like K a b) : Like (.print a) (.print b)
  | var {name name' : Token} {initial initial' : Option Expr} (hname : K.token name name')
      (hinitial : Option.Rel (Expr.Like K) initial initial') :
      Like (.var name initial) (.var name' initial')
  | block {body body' : List Stmt} (hbody : List.Forall₂ Like body body') :
      Like (.block body) (.block body')
  | ifThen {condition condition' : Expr} {body body' : Stmt}
      (hcondition : Expr.Like K condition condition') (hbody : Like body body') :
      Like (.ifThen condition body) (.ifThen condition' body')
  | ifElse {condition condition' : Expr} {body body' otherwise otherwise' : Stmt}
      (hcondition : Expr.Like K condition condition') (hbody : Like body body')
      (hotherwise : Like otherwise otherwise') :
      Like (.ifElse condition body otherwise) (.ifElse condition' body' otherwise')
  | loop {condition condition' : Expr} {body body' : Stmt}
      (hcondition : Expr.Like K condition condition') (hbody : Like body body') :
      Like (.loop condition body) (.loop condition' body')
  | function {name name' : Token} {parameters parameters' : List Token} {body body' : List Stmt}
      (hname : K.token name name') (hparameters : List.Forall₂ K.token parameters parameters')
      (hbody : List.Forall₂ Like body body') :
      Like (.function name parameters body) (.function name' parameters' body')
  | result {keyword keyword' : Token} {value value' : Option Expr} (hkeyword : K.token keyword keyword')
      (hvalue : Option.Rel (Expr.Like K) value value') :
      Like (.result keyword value) (.result keyword' value')

/-! ## Values -/

/-- Functions of like declarations that are the same object, with the same closure in reach. -/
inductive Function.Like : Function → Function → Prop where
  | native (index : Nat) : Like (.native index) (.native index)
  | declared {object : FunctionObject} {parameters parameters' : List Token}
      {body body' : List Stmt} {closure : ScopeId}
      (hparameters : List.Forall₂ K.token parameters parameters')
      (hbody : List.Forall₂ (Stmt.Like K) body body') (hclosure : K.within closure) :
      Like (.declared object parameters body closure) (.declared object parameters' body' closure)

inductive Value.Like : Value → Value → Prop where
  | nil : Like .nil .nil
  | bool (value : Bool) : Like (.bool value) (.bool value)
  | number {a b : Number} (h : K.number a b) : Like (.number a) (.number b)
  | string (text : String) : Like (.string text) (.string text)
  | function {f g : Function} (h : Function.Like K f g) : Like (.function f) (.function g)

section Values

variable {K}

theorem Literal.Like.value {a b : Literal} (h : Literal.Like K a b) :
    Value.Like K a.value b.value := by
  cases h with
  | nil => exact .nil
  | bool value => exact .bool value
  | number h => exact .number h
  | string text => exact .string text

theorem Value.Like.truthy {a b : Value} (h : Value.Like K a b) : b.truthy = a.truthy := by
  cases h <;> rfl

theorem Function.Like.same {f g f' g' : Function} (h : Function.Like K f g)
    (h' : Function.Like K f' g') : g.same g' = f.same f' := by
  cases h <;> cases h' <;> rfl

theorem Function.Like.text {f g : Function} (h : Function.Like K f g) : g.text = f.text := by
  cases h <;> rfl

variable {A A' : Arithmetic} (hK : K.Lawful A A')

include hK

theorem Value.Like.equals {a b c d : Value} (h : Value.Like K a b) (h' : Value.Like K c d) :
    b.equals d = a.equals c := by
  cases h <;> cases h' <;> try rfl
  -- numbers are compared by value, functions by identity; all else is the same on both sides
  · rename_i h _ _ h'
    exact hK.same h h'
  · rename_i h _ _ h'
    exact h.same h'

theorem Value.Like.text {a b : Value} (h : Value.Like K a b) : b.text = a.text := by
  cases h with
  | number h => exact hK.text h
  | function h => exact h.text
  | nil | bool | string => rfl

end Values

/-! ## Operators -/

/-- Operations with like values, or with the same problem, or both without a meaning. -/
inductive Operation.Like : Operation → Operation → Prop where
  | value {a b : Value} (h : Value.Like K a b) : Like (some (.ok a)) (some (.ok b))
  | problem (problem : RuntimeError.Problem) : Like (some (.error problem)) (some (.error problem))
  | none : Like none none

namespace Operation

variable {K} {A A' : Arithmetic} {a b c d : Value}

theorem onNumbers_like {compute compute' : Number → Number → Value}
    (hcompute : ∀ {m n k l}, K.number m n → K.number k l →
      Value.Like K (compute m k) (compute' n l))
    (h : Value.Like K a b) (h' : Value.Like K c d) :
    Operation.Like K (onNumbers compute a c) (onNumbers compute' b d) := by
  cases h <;> cases h' <;> try exact .problem _
  rename_i h _ _ h'
  exact .value (hcompute h h')

theorem plus_like (hK : K.Lawful A A') (h : Value.Like K a b) (h' : Value.Like K c d) :
    Operation.Like K (plus A a c) (plus A' b d) := by
  cases h <;> cases h' <;> try exact .problem _
  · rename_i h _ _ h'
    exact .value (.number (hK.add h h'))
  · exact .value (.string _)

theorem negative_like (hK : K.Lawful A A') (h : Value.Like K a b) :
    Operation.Like K (negative A a) (negative A' b) := by
  cases h <;> try exact .problem _
  rename_i h
  exact .value (.number (hK.neg h))

/-- Operators in front make like values of like operands. -/
theorem unary_like (hK : K.Lawful A A') {kind kind' : Token.Kind} (hkind : Token.Kind.Like K kind kind')
    (h : Value.Like K a b) : Operation.Like K (unary A kind a) (unary A' kind' b) := by
  cases hkind with
  | number h => exact .none
  | same hnumber =>
    unfold unary
    -- the operators, one by one
    split
    · rw [h.truthy]
      exact .value (.bool _)
    · exact negative_like hK h
    · exact .none

/-- Operators between operands make like values of like operands. -/
theorem binary_like (hK : K.Lawful A A') {kind kind' : Token.Kind}
    (hkind : Token.Kind.Like K kind kind') (h : Value.Like K a b) (h' : Value.Like K c d) :
    Operation.Like K (binary A kind a c) (binary A' kind' b d) := by
  cases hkind with
  | number h => exact .none
  | same hnumber =>
    unfold binary
    split
    · exact plus_like hK h h'
    · exact onNumbers_like (fun hm hk => .number (hK.sub hm hk)) h h'
    · exact onNumbers_like (fun hm hk => .number (hK.mul hm hk)) h h'
    · exact onNumbers_like (fun hm hk => .number (hK.div hm hk)) h h'
    · exact onNumbers_like (fun hm hk => hK.less hk hm ▸ .bool _) h h'
    · exact onNumbers_like (fun hm hk => hK.atMost hk hm ▸ .bool _) h h'
    · exact onNumbers_like (fun hm hk => hK.less hm hk ▸ .bool _) h h'
    · exact onNumbers_like (fun hm hk => hK.atMost hm hk ▸ .bool _) h h'
    · rw [h.equals hK h']
      exact .value (.bool _)
    · rw [h.equals hK h']
      exact .value (.bool _)
    · exact .none

end Operation

/-! ## Scopes -/

/-- Bindings of the same names, in the same order, to like values. -/
def Scope.LikeBindings : List (String × Value) → List (String × Value) → Prop :=
  List.Forall₂ fun binding binding' => binding'.1 = binding.1 ∧ Value.Like K binding.2 binding'.2

/-- Scopes with like bindings, in the same place, which is in reach. -/
structure Scope.Like (s s' : Scope) : Prop where
  bindings : Scope.LikeBindings K s.bindings s'.bindings
  parent : s'.parent = s.parent
  within : ∀ p ∈ s.parent, K.within p

/-- Equally many scopes, which are alike where they are in reach. All scopes to come are in reach. -/
structure Scopes.Like (s s' : Scopes) : Prop where
  next : s'.next = s.next
  fresh : ∀ id, s.next ≤ id → K.within id
  scope : ∀ id, K.within id → Option.Rel (Scope.Like K) s.all[id]? s'.all[id]?

namespace Scope

variable {K} {s s' : Scope} {v v' : Value}

theorem LikeBindings.lookup {bs bs' : List (String × Value)} (h : LikeBindings K bs bs')
    (name : String) : Option.Rel (Value.Like K) (bs.lookup name) (bs'.lookup name) := by
  induction h with
  | nil => exact .none
  | @cons binding binding' _ _ hhead _ ih =>
    obtain ⟨key, value⟩ := binding
    obtain ⟨key', value'⟩ := binding'
    -- both lists bind the same names, so both stop at the same place
    obtain ⟨rfl, hvalue⟩ := hhead
    rw [lookup_cons, lookup_cons]
    split
    · exact .some hvalue
    · exact ih

theorem LikeBindings.bind {bs bs' : List (String × Value)} (h : LikeBindings K bs bs')
    (name : String) (hv : Value.Like K v v') :
    LikeBindings K (Scope.bind name v bs) (Scope.bind name v' bs') := by
  induction h with
  | nil => exact .cons ⟨rfl, hv⟩ .nil
  | @cons binding binding' _ _ hhead htail ih =>
    obtain ⟨key, value⟩ := binding
    obtain ⟨key', value'⟩ := binding'
    obtain ⟨rfl, hvalue⟩ := hhead
    unfold Scope.bind
    split
    · exact .cons ⟨rfl, hv⟩ htail
    · exact .cons ⟨rfl, hvalue⟩ ih

theorem Like.set (h : Like K s s') (name : String) (hv : Value.Like K v v') :
    Like K (s.set name v) (s'.set name v') :=
  ⟨h.bindings.bind name hv, h.parent, h.within⟩

theorem Like.binds (h : Like K s s') (name : String) : s'.binds name = s.binds name := by
  unfold Scope.binds Scope.get?
  have hvalue := h.bindings.lookup name
  generalize s.bindings.lookup name = a at hvalue ⊢
  generalize s'.bindings.lookup name = b at hvalue ⊢
  cases hvalue <;> rfl

end Scope

namespace Scopes

variable {K} {s s' : Scopes} {v v' : Value}

theorem getElem?_add (s : Scopes) (scope : Scope) (id : ScopeId) :
    (s.add scope).all[id]? = if id = s.next then some scope else s.all[id]? :=
  Array.getElem?_push

@[simp]
theorem next_add (s : Scopes) (scope : Scope) : (s.add scope).next = s.next + 1 :=
  Array.size_push _

theorem getElem?_define (s : Scopes) (target : ScopeId) (name : String) (v : Value) (id : ScopeId) :
    (s.define target name v).all[id]? =
      if target = id then s.all[id]?.map (·.set name v) else s.all[id]? :=
  Array.getElem?_modify

@[simp]
theorem next_define (s : Scopes) (target : ScopeId) (name : String) (v : Value) :
    (s.define target name v).next = s.next :=
  Array.size_modify

theorem Like.define (h : Like K s s') (id : ScopeId) (name : String) (hv : Value.Like K v v') :
    Like K (s.define id name v) (s'.define id name v') := by
  refine ⟨by simpa using h.next, by simpa using h.fresh, fun other hother => ?_⟩
  -- whether the scope is the one that changes is the same question on both sides
  rw [getElem?_define, getElem?_define]
  have hscope := h.scope other hother
  split
  · generalize s.all[other]? = a at hscope
    generalize s'.all[other]? = b at hscope
    cases hscope with
    | none => exact .none
    | some hlike => exact .some (hlike.set name hv)
  · exact hscope

theorem Like.newChild (h : Like K s s') {parent : ScopeId} (hparent : K.within parent) :
    Like K (s.newChild parent) (s'.newChild parent) := by
  have hnew : Scope.Like K (.within (some parent)) (.within (some parent)) :=
    ⟨.nil, rfl, by rintro _ ⟨⟩; exact hparent⟩
  refine ⟨?_, ?_, fun id hid => ?_⟩
  · simp [Scopes.newChild, h.next]
  -- a scope still to be made was still to be made before
  · intro id hid
    refine h.fresh id (Nat.le_trans (Nat.le_succ _) ?_)
    simpa [Scopes.newChild] using hid
  · rw [Scopes.newChild, Scopes.newChild, getElem?_add, getElem?_add, h.next]
    split
    · exact .some hnew
    · exact h.scope id hid

theorem Like.holderWithin (h : Like K s s') (name : String) (bound : Nat) {id : ScopeId}
    (hid : K.within id) :
    s'.holderWithin name bound id = s.holderWithin name bound id ∧
      ∀ holder ∈ s.holderWithin name bound id, K.within holder := by
  induction bound generalizing id with
  | zero => exact ⟨rfl, by simp [Scopes.holderWithin]⟩
  -- outwards, scope by scope: each is in reach, and so is the one around it
  | succ bound ih =>
    have hscope := h.scope id hid
    unfold Scopes.holderWithin
    generalize s.all[id]? = a at hscope
    generalize s'.all[id]? = b at hscope
    cases hscope with
    | none => exact ⟨rfl, by simp⟩
    | @some scope scope' hlike =>
      simp only [Option.bind_eq_bind, Option.bind_some]
      rw [hlike.binds name, hlike.parent]
      split
      · exact ⟨rfl, by rintro _ ⟨⟩; exact hid⟩
      · cases hparent : scope.parent with
        | none => exact ⟨rfl, by simp⟩
        | some parent => exact ih (hlike.within parent hparent)

theorem Like.holder? (h : Like K s s') (name : String) {id : ScopeId} (hid : K.within id) :
    s'.holder? name id = s.holder? name id ∧ ∀ holder ∈ s.holder? name id, K.within holder :=
  h.holderWithin name (id + 1) hid

theorem Like.get? (h : Like K s s') (name : String) {id : ScopeId} (hid : K.within id) :
    Option.Rel (Value.Like K) (s.get? id name) (s'.get? id name) := by
  unfold Scopes.get?
  obtain ⟨heq, hwithin⟩ := h.holder? name hid
  rw [heq]
  cases hholder : s.holder? name id with
  | none => exact .none
  | some holder =>
    simp only [Option.bind_eq_bind, Option.bind_some]
    have hscope := h.scope holder (hwithin holder hholder)
    generalize s.all[holder]? = a at hscope
    generalize s'.all[holder]? = b at hscope
    cases hscope with
    | none => exact .none
    | some hlike => exact hlike.bindings.lookup name

end Scopes

/-! ## Sessions -/

/-- A native function answers like arguments with like values. -/
def Native.Respects (native : Native) : Prop :=
  ∀ answer, native.action = .compute answer → ∀ arguments arguments' : List Value,
    List.Forall₂ (Value.Like K) arguments arguments' →
      Operation.Like K (some (answer arguments)) (some (answer arguments'))

/-- Readings of like times, or readings that fail for the same reason. -/
inductive Clock.LikeReading : Except String Number → Except String Number → Prop where
  | time {x y : Number} (h : K.number x y) : LikeReading (.ok x) (.ok y)
  | failure (reason : String) : LikeReading (.error reason) (.error reason)

/-- Clocks with like readings. -/
def Clock.Like (clock clock' : Clock) : Prop :=
  ∀ reading, Clock.LikeReading K (clock.read reading) (clock'.read reading)

/-- Sessions that a run cannot tell. -/
structure Session.Like (s s' : Session) : Prop where
  scopes : Scopes.Like K s.scopes s'.scopes
  active : s'.active = s.active
  within : K.within s.active
  natives : s'.natives = s.natives
  respects : ∀ native ∈ s.natives, native.Respects K
  objects : s'.objects = s.objects
  clock : Clock.Like K s.clock s'.clock
  readings : s'.readings = s.readings
  output : s'.output = s.output
  sink : s'.sink = s.sink

/-- The same reason to stop, at like tokens. -/
inductive Stop.Like : Stop → Stop → Prop where
  | runtime (problem : RuntimeError.Problem) {t u : Token} (h : K.token t u) :
      Like (.runtime ⟨problem, t.line⟩) (.runtime ⟨problem, u.line⟩)
  | outputRefused (reason : String) : Like (.outputRefused reason) (.outputRefused reason)
  | malformed : Like .malformed .malformed
  | exhausted : Like .exhausted .exhausted

/-- Ends with like values, or for the same reason. -/
inductive Outcome.Like {α β : Type} (R : α → β → Prop) : Except Stop α → Except Stop β → Prop where
  | ok {a : α} {b : β} (h : R a b) : Like R (.ok a) (.ok b)
  | error {stop stop' : Stop} (h : Stop.Like K stop stop') : Like R (.error stop) (.error stop')

/-- Statements that end alike: both at their end, or both at a result, with like values. -/
inductive Completion.Like : Completion → Completion → Prop where
  | normal : Like .normal .normal
  | returned {v v' : Value} (h : Value.Like K v v') : Like (.returned v) (.returned v')

theorem Clock.like_self {K : Likeness} (hnumber : ∀ x, K.number x x) (clock : Clock) :
    Clock.Like K clock clock := by
  intro reading
  cases clock.read reading with
  | ok time => exact .time (hnumber time)
  | error reason => exact .failure reason

/-- Like clocks give like values, or the same problem. -/
theorem Clock.Like.value {K : Likeness} {clock clock' : Clock} (h : Clock.Like K clock clock')
    (reading : Nat) : Operation.Like K (some (clock.value reading)) (some (clock'.value reading)) := by
  have hread := h reading
  unfold Clock.value
  generalize clock.read reading = a at hread
  generalize clock'.read reading = b at hread
  cases hread with
  | time h => exact .value (.number h)
  | failure reason => exact .problem _

theorem Completion.Like.value {K : Likeness} {c c' : Completion} (h : Completion.Like K c c') :
    Value.Like K c.value c'.value := by
  cases h with
  | normal => exact .nil
  | returned h => exact h

end LoxScript
