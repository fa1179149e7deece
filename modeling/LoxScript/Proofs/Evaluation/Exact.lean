import LoxScript.Proofs.Evaluation.Reflexive

/-!
# Exact likeness

A likeness under which no token and no number may differ. Like trees are then equal, and so are like
values and like scopes, as far as they are in reach; what is left of likeness is that nothing in reach
leads out of it.

## Main definitions

* `Likeness.exact`: everything in reach is the same.
* `Value.closure?`: the scope that a value holds on to.

## Main statements

* `Value.like_exact_iff`, `Scope.like_exact_iff`: what exact likeness of values and of scopes means.
-/

namespace LoxScript

/-- The likeness under which what is in reach is the same. -/
def Likeness.exact (within : ScopeId → Prop) : Likeness := ⟨Eq, Eq, within⟩

variable {within : ScopeId → Prop}

/-- No operation looks at the line of a token, or tells a number from itself. -/
theorem Likeness.lawful_of_lines (A : Arithmetic) {token : Token → Token → Prop}
    (htoken : ∀ t u, token t u → u.kind = t.kind ∧ u.lexeme = t.lexeme) :
    (Likeness.mk token Eq within).Lawful A A := by
  constructor
  -- a number is like itself, and no other kind has anything to compare
  case kind =>
    intro t u h
    rw [(htoken t u h).1]
    cases hkind : t.kind with
    | number value => exact .number rfl
    | _ => exact .same (by simp)
  case lexeme =>
    intro t u h
    exact (htoken t u h).2
  case neg | text =>
    rintro a _ rfl
    rfl
  case add | sub | mul | div | less | atMost | same =>
    rintro a _ c _ rfl rfl
    rfl

/-- Nothing can tell what is the same. -/
theorem Likeness.exact_lawful (A : Arithmetic) : (Likeness.exact within).Lawful A A :=
  Likeness.lawful_of_lines A (by rintro t _ rfl; exact ⟨rfl, rfl⟩)

/-- What is the same may stand for itself. -/
theorem Likeness.exact_reflexive : (Likeness.exact within).Reflexive := ⟨fun _ => rfl, fun _ => rfl⟩

/-! ## Trees -/

theorem Literal.like_exact_iff {a b : Literal} : Literal.Like (.exact within) a b ↔ a = b := by
  constructor
  · rintro (_ | _ | ⟨⟨⟩⟩ | _) <;> rfl
  · rintro rfl
    exact Likeness.exact_reflexive.literal a

theorem Expr.like_refl (e : Expr) : Expr.Like (.exact within) e e := Likeness.exact_reflexive.expr e

theorem Expr.likeEach_refl (es : List Expr) : List.Forall₂ (Expr.Like (.exact within)) es es :=
  Likeness.exact_reflexive.exprs es

mutual

theorem Expr.eq_of_like : ∀ {e e' : Expr}, Expr.Like (.exact within) e e' → e = e'
  | .literal _, _, h => by
    cases h with | literal h => rw [Literal.like_exact_iff.1 h]
  | .grouping _, _, h => by
    cases h with | grouping h => rw [Expr.eq_of_like h]
  | .unary _ _, _, h => by
    cases h with | unary hop h => rw [show _ = _ from hop, Expr.eq_of_like h]
  | .binary _ _ _, _, h => by
    cases h with
    | binary hop h h' => rw [show _ = _ from hop, Expr.eq_of_like h, Expr.eq_of_like h']
  | .logical _ _ _, _, h => by
    cases h with
    | logical hop h h' => rw [show _ = _ from hop, Expr.eq_of_like h, Expr.eq_of_like h']
  | .variable _, _, h => by
    cases h with | «variable» hname => rw [show _ = _ from hname]
  | .assign _ _, _, h => by
    cases h with | assign hname h => rw [show _ = _ from hname, Expr.eq_of_like h]
  | .call _ _ _, _, h => by
    cases h with
    | call h hparen hs => rw [Expr.eq_of_like h, show _ = _ from hparen, Expr.eq_of_likeEach hs]

theorem Expr.eq_of_likeEach :
    ∀ {es es' : List Expr}, List.Forall₂ (Expr.Like (.exact within)) es es' → es = es'
  | [], _, h => by cases h; rfl
  | _ :: _, _, h => by
    cases h with | cons h hs => rw [Expr.eq_of_like h, Expr.eq_of_likeEach hs]

end

theorem Likeness.optional_exact_iff {a b : Option Expr} :
    Option.Rel (Expr.Like (.exact within)) a b ↔ a = b := by
  constructor
  · rintro (⟨h⟩ | _)
    · rw [Expr.eq_of_like h]
    · rfl
  · rintro rfl
    exact Likeness.exact_reflexive.optional a

theorem Likeness.tokens_exact_iff {a b : List Token} :
    List.Forall₂ (Likeness.exact within).token a b ↔ a = b :=
  List.forall₂_eq_eq_eq ▸ Iff.rfl

theorem Stmt.like_refl (s : Stmt) : Stmt.Like (.exact within) s s := Likeness.exact_reflexive.stmt s

theorem Stmt.likeEach_refl (ss : List Stmt) : List.Forall₂ (Stmt.Like (.exact within)) ss ss :=
  Likeness.exact_reflexive.stmts ss

mutual

theorem Stmt.eq_of_like : ∀ {s s' : Stmt}, Stmt.Like (.exact within) s s' → s = s'
  | .expression _, _, h => by
    cases h with | expression h => rw [Expr.eq_of_like h]
  | .print _, _, h => by
    cases h with | print h => rw [Expr.eq_of_like h]
  | .var _ _, _, h => by
    cases h with
    | var hname h => rw [show _ = _ from hname, Likeness.optional_exact_iff.1 h]
  | .block _, _, h => by
    cases h with | block hs => rw [Stmt.eq_of_likeEach hs]
  | .ifThen _ _, _, h => by
    cases h with | ifThen hc h => rw [Expr.eq_of_like hc, Stmt.eq_of_like h]
  | .ifElse _ _ _, _, h => by
    cases h with
    | ifElse hc h h' => rw [Expr.eq_of_like hc, Stmt.eq_of_like h, Stmt.eq_of_like h']
  | .loop _ _, _, h => by
    cases h with | loop hc h => rw [Expr.eq_of_like hc, Stmt.eq_of_like h]
  | .function _ _ _, _, h => by
    cases h with
    | function hname hparameters hs =>
      rw [show _ = _ from hname, Likeness.tokens_exact_iff.1 hparameters, Stmt.eq_of_likeEach hs]
  | .result _ _, _, h => by
    cases h with
    | result hkeyword h => rw [show _ = _ from hkeyword, Likeness.optional_exact_iff.1 h]

theorem Stmt.eq_of_likeEach :
    ∀ {ss ss' : List Stmt}, List.Forall₂ (Stmt.Like (.exact within)) ss ss' → ss = ss'
  | [], _, h => by cases h; rfl
  | _ :: _, _, h => by
    cases h with | cons h hs => rw [Stmt.eq_of_like h, Stmt.eq_of_likeEach hs]

end

/-! ## Values and scopes -/

/-- The scope that a value holds on to. -/
def Value.closure? : Value → Option ScopeId
  | .function (.declared _ _ _ closure) => some closure
  | _ => none

/-- Values are exactly alike if they are the same and their closure is in reach. -/
theorem Value.like_exact_iff {a b : Value} :
    Value.Like (.exact within) a b ↔ a = b ∧ ∀ closure ∈ a.closure?, within closure := by
  constructor
  · intro h
    cases h with
    | nil | bool | string => exact ⟨rfl, by rintro _ ⟨⟩⟩
    | number h => exact ⟨congrArg Value.number h, by rintro _ ⟨⟩⟩
    | function h =>
      cases h with
      | native index => exact ⟨rfl, by rintro _ ⟨⟩⟩
      | declared hparameters hbody hclosure =>
        rw [Likeness.tokens_exact_iff.1 hparameters, Stmt.eq_of_likeEach hbody]
        refine ⟨rfl, ?_⟩
        rintro _ ⟨⟩
        exact hclosure
  · rintro ⟨rfl, hwithin⟩
    cases a with
    | nil => exact .nil
    | bool value => exact .bool value
    | number value => exact .number rfl
    | string text => exact .string text
    | function f =>
      cases f with
      | native index => exact .function (.native index)
      | declared object parameters body closure =>
        exact .function (.declared (Likeness.tokens_exact_iff.2 rfl) (Stmt.likeEach_refl body)
          (hwithin closure rfl))

theorem Value.likeEach_exact_iff {as bs : List Value} :
    List.Forall₂ (Value.Like (.exact within)) as bs ↔
      as = bs ∧ ∀ a ∈ as, ∀ closure ∈ a.closure?, within closure := by
  constructor
  · intro h
    induction h with
    | nil => exact ⟨rfl, by simp⟩
    | cons h _ ih =>
      obtain ⟨rfl, hclosure⟩ := Value.like_exact_iff.1 h
      obtain ⟨rfl, hrest⟩ := ih
      exact ⟨rfl, List.forall_mem_cons.2 ⟨hclosure, hrest⟩⟩
  · rintro ⟨rfl, hclosures⟩
    exact List.forall₂_same.2 fun a ha => Value.like_exact_iff.2 ⟨rfl, hclosures a ha⟩

/-- Nothing in a scope leads out of reach. -/
structure Scope.Inside (within : ScopeId → Prop) (s : Scope) : Prop where
  parent : ∀ p ∈ s.parent, within p
  closures : ∀ binding ∈ s.bindings, ∀ closure ∈ binding.2.closure?, within closure

theorem Scope.likeBindings_exact_iff {bs bs' : List (String × Value)} :
    Scope.LikeBindings (.exact within) bs bs' ↔
      bs = bs' ∧ ∀ binding ∈ bs, ∀ closure ∈ binding.2.closure?, within closure := by
  constructor
  · intro h
    induction h with
    | nil => exact ⟨rfl, by simp⟩
    | @cons binding binding' _ _ hhead _ ih =>
      obtain ⟨hname, hvalue⟩ := hhead
      obtain ⟨heq, hclosure⟩ := Value.like_exact_iff.1 hvalue
      obtain ⟨rfl, hrest⟩ := ih
      exact ⟨by rw [Prod.ext hname.symm heq], List.forall_mem_cons.2 ⟨hclosure, hrest⟩⟩
  · rintro ⟨rfl, hclosures⟩
    exact List.forall₂_same.2 fun binding hbinding =>
      ⟨rfl, Value.like_exact_iff.2 ⟨rfl, hclosures binding hbinding⟩⟩

/-- Scopes are exactly alike if they are the same and nothing in them leads out of reach. -/
theorem Scope.like_exact_iff {s s' : Scope} :
    Scope.Like (.exact within) s s' ↔ s = s' ∧ s.Inside within := by
  constructor
  · rintro ⟨hbindings, hparent, hwithin⟩
    obtain ⟨bindings, parent⟩ := s
    obtain ⟨bindings', parent'⟩ := s'
    obtain ⟨rfl, hclosures⟩ := Scope.likeBindings_exact_iff.1 hbindings
    obtain rfl : parent' = parent := hparent
    exact ⟨rfl, hwithin, hclosures⟩
  · rintro ⟨rfl, hparent, hclosures⟩
    exact ⟨Scope.likeBindings_exact_iff.2 ⟨rfl, hclosures⟩, rfl, hparent⟩

/-- Scopes are exactly alike if there are equally many, and those in reach are the same and nothing in
them leads out of reach. -/
theorem Scopes.like_exact_iff {s s' : Scopes} :
    Scopes.Like (.exact within) s s' ↔ s'.next = s.next ∧ (∀ id, s.next ≤ id → within id) ∧
      ∀ id, within id → s'.all[id]? = s.all[id]? ∧
        ∀ scope, s.all[id]? = some scope → scope.Inside within := by
  constructor
  · rintro ⟨hnext, hfresh, hscope⟩
    refine ⟨hnext, hfresh, fun id hid => ?_⟩
    have h := hscope id hid
    generalize s.all[id]? = a at h
    generalize s'.all[id]? = b at h
    cases h with
    | none => exact ⟨rfl, by rintro _ ⟨⟩⟩
    | some h =>
      -- a scope that is there is the same, and leads to scopes in reach
      obtain ⟨rfl, hinside⟩ := Scope.like_exact_iff.1 h
      refine ⟨rfl, ?_⟩
      rintro _ ⟨⟩
      exact hinside
  · rintro ⟨hnext, hfresh, hscope⟩
    refine ⟨hnext, hfresh, fun id hid => ?_⟩
    obtain ⟨heq, hinside⟩ := hscope id hid
    rw [heq]
    cases h : s.all[id]? with
    | none => exact .none
    | some scope => exact .some (Scope.like_exact_iff.2 ⟨rfl, hinside scope h⟩)

/-! ## Endings -/

theorem Stop.like_exact_iff {stop stop' : Stop} :
    Stop.Like (.exact within) stop stop' ↔ stop = stop' := by
  constructor
  · intro h
    cases h with
    | runtime problem h => rw [show _ = _ from h]
    | outputRefused | malformed | exhausted => rfl
  · rintro rfl
    cases stop with
    | runtime error =>
      exact Stop.Like.runtime (K := .exact within) error.problem (t := Token.ending error.line)
        (u := Token.ending error.line) rfl
    | outputRefused reason => exact .outputRefused reason
    | malformed => exact .malformed
    | exhausted => exact .exhausted

theorem Clock.eq_of_like {clock clock' : Clock} (h : Clock.Like (.exact within) clock clock') :
    clock = clock' := by
  refine congrArg Clock.mk (funext fun reading => ?_)
  have hread := h reading
  generalize clock.read reading = a at hread
  generalize clock'.read reading = b at hread
  cases hread with
  | time h => rw [show _ = _ from h]
  | failure reason => rfl

section Everywhere

/-- With everything in reach, a value is exactly like itself. -/
theorem Value.like_self (v : Value) : Value.Like (.exact fun _ => True) v v :=
  Value.like_exact_iff.2 ⟨rfl, fun _ _ => trivial⟩

theorem Value.likeEach_self (vs : List Value) :
    List.Forall₂ (Value.Like (.exact fun _ => True)) vs vs :=
  Value.likeEach_exact_iff.2 ⟨rfl, fun _ _ _ _ => trivial⟩

theorem Function.like_self (f : Function) : Function.Like (.exact fun _ => True) f f := by
  cases Value.like_self (.function f) with
  | function h => exact h

theorem Completion.like_self (c : Completion) : Completion.Like (.exact fun _ => True) c c := by
  cases c with
  | normal => exact .normal
  | returned v => exact .returned v.like_self

theorem Completion.eq_of_like {c c' : Completion} (h : Completion.Like (.exact within) c c') :
    c = c' := by
  cases h with
  | normal => rfl
  | returned h => rw [(Value.like_exact_iff.1 h).1]

/-- Statements that end in exactly like ways end in the same way. -/
theorem Completion.outcome_eq_of_like {o o' : Except Stop Completion}
    (h : Outcome.Like (.exact within) (Completion.Like (.exact within)) o o') : o' = o := by
  cases h with
  | ok hcompletion => rw [Completion.eq_of_like hcompletion]
  | error hstop => rw [Stop.like_exact_iff.1 hstop]

end Everywhere

end LoxScript
