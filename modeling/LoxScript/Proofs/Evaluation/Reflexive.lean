import LoxScript.Proofs.Evaluation.Likeness

/-!
# What is like itself

Where every token and every number may stand for itself, so may every tree, and, if all scopes are in
reach, every value and every scope. A session is like itself then as far as its native functions cannot
tell like arguments.

## Main definitions

* `Likeness.Reflexive`: tokens and numbers may stand for themselves.

## Main statements

* `Likeness.Reflexive.stmts`, `Likeness.Reflexive.session`: programs and sessions are like themselves.
-/

namespace LoxScript

/-- Every token and every number may stand for itself. -/
structure Likeness.Reflexive (K : Likeness) : Prop where
  token : ∀ t, K.token t t
  number : ∀ x, K.number x x

namespace Likeness.Reflexive

variable {K : Likeness}

theorem tokens (hK : K.Reflexive) (ts : List Token) : List.Forall₂ K.token ts ts :=
  List.forall₂_same.2 fun t _ => hK.token t

/-! ## Trees -/

theorem literal (hK : K.Reflexive) (a : Literal) : Literal.Like K a a := by
  cases a with
  | nil => exact .nil
  | bool value => exact .bool value
  | number value => exact .number (hK.number value)
  | string text => exact .string text

mutual

theorem expr (hK : K.Reflexive) : ∀ e : Expr, Expr.Like K e e
  | .literal a => .literal (hK.literal a)
  | .grouping inner => .grouping (hK.expr inner)
  | .unary operator operand => .unary (hK.token operator) (hK.expr operand)
  | .binary operator left right => .binary (hK.token operator) (hK.expr left) (hK.expr right)
  | .logical operator left right => .logical (hK.token operator) (hK.expr left) (hK.expr right)
  | .variable name => .variable (hK.token name)
  | .assign name value => .assign (hK.token name) (hK.expr value)
  | .call callee paren arguments => .call (hK.expr callee) (hK.token paren) (hK.exprs arguments)

theorem exprs (hK : K.Reflexive) : ∀ es : List Expr, List.Forall₂ (Expr.Like K) es es
  | [] => .nil
  | e :: es => .cons (hK.expr e) (hK.exprs es)

end

theorem optional (hK : K.Reflexive) (value : Option Expr) : Option.Rel (Expr.Like K) value value := by
  cases value with
  | none => exact .none
  | some e => exact .some (hK.expr e)

mutual

theorem stmt (hK : K.Reflexive) : ∀ s : Stmt, Stmt.Like K s s
  | .expression value => .expression (hK.expr value)
  | .print value => .print (hK.expr value)
  | .var name initial => .var (hK.token name) (hK.optional initial)
  | .block body => .block (hK.stmts body)
  | .ifThen condition body => .ifThen (hK.expr condition) (hK.stmt body)
  | .ifElse condition body otherwise => .ifElse (hK.expr condition) (hK.stmt body) (hK.stmt otherwise)
  | .loop condition body => .loop (hK.expr condition) (hK.stmt body)
  | .function name parameters body => .function (hK.token name) (hK.tokens parameters) (hK.stmts body)
  | .result keyword value => .result (hK.token keyword) (hK.optional value)

theorem stmts (hK : K.Reflexive) : ∀ ss : List Stmt, List.Forall₂ (Stmt.Like K) ss ss
  | [] => .nil
  | s :: ss => .cons (hK.stmt s) (hK.stmts ss)

end

/-! ## Sessions -/

variable (hK : K.Reflexive) (hwithin : ∀ id, K.within id)

include hK hwithin

theorem value (v : Value) : Value.Like K v v := by
  cases v with
  | nil => exact .nil
  | bool value => exact .bool value
  | number value => exact .number (hK.number value)
  | string text => exact .string text
  | function f =>
    cases f with
    | native index => exact .function (.native index)
    | declared object parameters body closure =>
      exact .function (.declared (hK.tokens parameters) (hK.stmts body) (hwithin closure))

theorem scope (s : Scope) : Scope.Like K s s :=
  ⟨List.forall₂_same.2 fun _ _ => ⟨rfl, hK.value hwithin _⟩, rfl, fun p _ => hwithin p⟩

theorem scopes (s : Scopes) : Scopes.Like K s s := by
  refine ⟨rfl, fun id _ => hwithin id, fun id _ => ?_⟩
  cases s.all[id]? with
  | none => exact .none
  | some scope => exact .some (hK.scope hwithin scope)

/-- A session is like itself if its native functions tell no like arguments apart. -/
theorem session {s : Session} (hnatives : ∀ native ∈ s.natives, native.Respects K) :
    Session.Like K s s where
  scopes := hK.scopes hwithin s.scopes
  active := rfl
  within := hwithin s.active
  natives := rfl
  respects := hnatives
  objects := rfl
  clock := Clock.like_self hK.number s.clock
  readings := rfl
  output := rfl
  sink := rfl

end Likeness.Reflexive

end LoxScript
