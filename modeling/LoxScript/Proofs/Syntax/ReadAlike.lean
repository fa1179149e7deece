import LoxScript.Proofs.Syntax.Alike
import LoxScript.Proofs.Syntax.Order

/-!
# Reading like tokens

Parsers decide by the kinds of tokens, and never by the number in one. Two lists of like tokens are therefore
read in the same way, also where they are no programs: the trees are alike, and the same problems are found at
tokens in the same places. Recovery goes on at the same places as well.

## Main definitions

* `Parser.Reply.Like`: like answers.
* `Parser.ReadsAlike`: parsers that answer alike to like tokens.

## Main statements

* `Parser.readsAlike_expression`, `Parser.readsAlike_item`: expressions, statements and declarations.
* `Parser.read_like`: whole lists of tokens, with all their errors.
* `Program.ofSource_alike`: scripts with like tokens.
-/

namespace LoxScript

namespace Parser

open Grammar

variable {K : Likeness} {A A' : Arithmetic} {α β γ δ : Type}

/-- Related values, or like errors. -/
inductive Reply.LikeOutcome (K : Likeness) (R : α → β → Prop) :
    Except SyntaxError α → Except SyntaxError β → Prop where
  | ok {a : α} {b : β} (h : R a b) : LikeOutcome K R (.ok a) (.ok b)
  | error {e e' : SyntaxError} (h : SyntaxError.Like K e e') : LikeOutcome K R (.error e) (.error e')

/-- Answers with like reports that leave like tokens. -/
structure Reply.Like (K : Likeness) (R : α → β → Prop) (reply : Reply α) (reply' : Reply β) : Prop where
  reports : List.Forall₂ (SyntaxError.Like K) reply.reports reply'.reports
  rest : List.Forall₂ K.token reply.rest reply'.rest
  outcome : Reply.LikeOutcome K R reply.outcome reply'.outcome

/-- Reading with like tokens behind the last ones, in or out of functions on both sides. -/
structure Context.Like (K : Likeness) (ctx ctx' : Context) : Prop where
  ending : K.token ctx.ending ctx'.ending
  inFunction : ctx'.inFunction = ctx.inFunction

/-- Parsers that answer alike to like tokens. -/
def ReadsAlike (K : Likeness) (R : α → β → Prop) (p : Parser α) (p' : Parser β) : Prop :=
  ∀ ⦃ctx ctx' ts ts'⦄, Context.Like K ctx ctx' → List.Forall₂ K.token ts ts' →
    Reply.Like K R (p ctx ts) (p' ctx' ts')

/-! ## Parsers in a row -/

section Rules

variable {R : α → β → Prop} {S : γ → δ → Prop} {p q : Parser α} {p' q' : Parser β}

theorem readsAlike_pure {a : α} {b : β} (h : R a b) : ReadsAlike K R (pure a) (pure b) :=
  fun _ _ _ _ _ hts => ⟨.nil, hts, .ok h⟩

theorem ReadsAlike.bind {f : α → Parser γ} {f' : β → Parser δ} (hp : ReadsAlike K R p p')
    (hf : ∀ a b, R a b → ReadsAlike K S (f a) (f' b)) : ReadsAlike K S (p >>= f) (p' >>= f') := by
  intro ctx ctx' ts ts' hctx hts
  have h := hp hctx hts
  change Reply.Like K S (Parser.bind p f ctx ts) (Parser.bind p' f' ctx' ts')
  unfold Parser.bind
  generalize p ctx ts = reply at h
  generalize p' ctx' ts' = reply' at h
  obtain ⟨reports, rest, outcome⟩ := reply
  obtain ⟨reports', rest', outcome'⟩ := reply'
  obtain ⟨hreports, hrest, houtcome⟩ := h
  cases houtcome with
  | ok hab =>
    -- the second parser reads what the first left, and reports behind it
    have hnext := hf _ _ hab hctx hrest
    exact ⟨List.rel_append hreports hnext.reports, hnext.rest, hnext.outcome⟩
  | error he => exact ⟨hreports, hrest, .error he⟩

theorem ReadsAlike.map {f : α → γ} {f' : β → δ} (hp : ReadsAlike K R p p')
    (hf : ∀ a b, R a b → S (f a) (f' b)) : ReadsAlike K S (f <$> p) (f' <$> p') :=
  hp.bind fun a b hab => readsAlike_pure (hf a b hab)

/-- Both sides take the same branch. -/
theorem readsAlike_ite {c c' : Prop} [Decidable c] [Decidable c'] (hc : c' ↔ c)
    (hp : ReadsAlike K R p p') (hq : ReadsAlike K R q q') :
    ReadsAlike K R (if c then p else q) (if c' then p' else q') := by
  simp only [hc]
  split
  · exact hp
  · exact hq

theorem ReadsAlike.insideFunction (hp : ReadsAlike K R p p') :
    ReadsAlike K R (insideFunction p) (insideFunction p') :=
  fun _ _ _ _ hctx hts => hp ⟨hctx.ending, rfl⟩ hts

theorem head_like {ctx ctx' : Context} {ts ts' : List Token} (hctx : Context.Like K ctx ctx')
    (hts : List.Forall₂ K.token ts ts') :
    K.token (ts.head?.getD ctx.ending) (ts'.head?.getD ctx'.ending) := by
  cases hts with
  | nil => exact hctx.ending
  | cons h _ => exact h

theorem readsAlike_peek : ReadsAlike K K.token peek peek :=
  fun _ _ _ _ hctx hts => ⟨.nil, hts, .ok (head_like hctx hts)⟩

theorem readsAlike_skip : ReadsAlike K (fun _ _ => True) skip skip := by
  refine fun _ _ _ _ _ hts => ⟨.nil, ?_, .ok trivial⟩
  cases hts with
  | nil => exact .nil
  | cons _ hts => exact hts

theorem readsAlike_fail (what : Expectation) : ReadsAlike K R (fail what) (fail what) :=
  fun _ _ _ _ hctx hts => ⟨.nil, hts, .error (.mk _ (head_like hctx hts))⟩

theorem readsAlike_report (problem : SyntaxError.Problem) {t u : Token} (h : K.token t u) :
    ReadsAlike K (fun _ _ => True) (report problem t) (report problem u) :=
  fun _ _ _ _ _ hts => ⟨.cons (.mk problem h) .nil, hts, .ok trivial⟩

theorem readsAlike_inFunction : ReadsAlike K (fun a b => b = a) inFunction inFunction :=
  fun _ _ _ _ hctx hts => ⟨.nil, hts, .ok hctx.inFunction⟩

end Rules

/-! ## Single tokens -/

section Tokens

variable (hK : K.Lawful A A')

include hK

/-- No parser asks for a number. -/
theorem accepts_like {accepts : Token.Kind → Bool} (haccepts : ∀ value, accepts (.number value) = false)
    {t u : Token} (h : K.token t u) : accepts u.kind = accepts t.kind := by
  have hkind := hK.kind h
  generalize t.kind = kind at hkind
  generalize u.kind = kind' at hkind
  cases hkind with
  | same => rfl
  | number => rw [haccepts, haccepts]

theorem readsAlike_take? {accepts : Token.Kind → Bool}
    (haccepts : ∀ value, accepts (.number value) = false) :
    ReadsAlike K (Option.Rel K.token) (take? accepts) (take? accepts) := by
  intro ctx ctx' ts ts' _ hts
  cases hts with
  | nil => exact ⟨.nil, .nil, .ok .none⟩
  | @cons t u ts ts' h hts =>
    rw [take?_cons, take?_cons, accepts_like hK haccepts h]
    split
    · exact ⟨.nil, hts, .ok (.some h)⟩
    · exact ⟨.nil, .cons h hts, .ok .none⟩

variable {kind : Token.Kind} (hkind : ∀ value, kind ≠ .number value)

include hkind

theorem readsAlike_expect (what : Expectation) :
    ReadsAlike K K.token (expect kind what) (expect kind what) := by
  refine (readsAlike_take? hK fun value => by simpa using (hkind value).symm).bind fun a b hab => ?_
  cases hab with
  | none => exact readsAlike_fail what
  | some h => exact readsAlike_pure h

theorem readsAlike_passes : ReadsAlike K (fun a b => b = a) (passes kind) (passes kind) := by
  refine (readsAlike_take? hK fun value => by simpa using (hkind value).symm).bind fun a b hab => ?_
  cases hab <;> exact readsAlike_pure rfl

end Tokens

section Parts

variable (hK : K.Lawful A A')

include hK

theorem readsAlike_semicolon (what : Expectation) :
    ReadsAlike K (fun _ _ => True) (semicolon what) (semicolon what) :=
  (readsAlike_expect hK (by simp) what).bind fun _ _ _ => readsAlike_pure trivial

/-- The test of the next token for a kind. -/
theorem kind_eq_iff_of_like (kind : Token.Kind) (hkind : ∀ value, kind ≠ .number value) {t u : Token}
    (h : K.token t u) : u.kind = kind ↔ t.kind = kind :=
  (hK.kind h).eq_iff hkind

omit hK

/-- The check before an argument or a parameter. -/
theorem readsAlike_check {R : α → β → Prop} (problem : SyntaxError.Problem) {count : Nat}
    {next : Unit → Parser α} {next' : Unit → Parser β} (hnext : ReadsAlike K R (next ()) (next' ())) :
    ReadsAlike K R
      (if maxArity ≤ count then peek >>= fun t => report problem t >>= next else next ())
      (if maxArity ≤ count then peek >>= fun t => report problem t >>= next' else next' ()) :=
  readsAlike_ite Iff.rfl
    (readsAlike_peek.bind fun _ _ h => (readsAlike_report problem h).bind fun _ _ _ => hnext) hnext

end Parts

/-! ## Expressions -/

section Expressions

variable (hK : K.Lawful A A') {nested nested' : Parser Expr}
  (hnested : ReadsAlike K (Expr.Like K) nested nested')

include hK hnested

theorem readsAlike_primary : ReadsAlike K (Expr.Like K) (primary nested) (primary nested') := by
  refine readsAlike_peek.bind fun t u h => ?_
  have hkind := hK.kind h
  generalize t.kind = kind at hkind
  generalize u.kind = kind' at hkind
  -- only for a number may the kinds differ
  cases hkind with
  | number hvalue =>
    exact readsAlike_skip.bind fun _ _ _ => readsAlike_pure (.literal (.number hvalue))
  | same hnumber =>
    split
    · exact readsAlike_skip.bind fun _ _ _ => readsAlike_pure (.literal (.bool false))
    · exact readsAlike_skip.bind fun _ _ _ => readsAlike_pure (.literal (.bool true))
    · exact readsAlike_skip.bind fun _ _ _ => readsAlike_pure (.literal .nil)
    · exact absurd rfl (hnumber _)
    · exact readsAlike_skip.bind fun _ _ _ => readsAlike_pure (.literal (.string _))
    · exact readsAlike_skip.bind fun _ _ _ => readsAlike_pure (.variable h)
    · exact readsAlike_skip.bind fun _ _ _ => hnested.bind fun _ _ hinner =>
        (readsAlike_expect hK (by simp) _).bind fun _ _ _ => readsAlike_pure (.grouping hinner)
    · exact readsAlike_fail _

theorem readsAlike_arguments (bound count : Nat) :
    ReadsAlike K (List.Forall₂ (Expr.Like K)) (arguments nested bound count)
      (arguments nested' bound count) := by
  induction bound generalizing count with
  | zero => exact readsAlike_fail _
  | succ bound ih =>
    unfold arguments
    refine readsAlike_check .tooManyArguments (hnested.bind fun _ _ hargument => ?_)
    refine (readsAlike_take? hK (by simp)).bind fun _ _ hfound => ?_
    cases hfound with
    | none => exact readsAlike_pure (.cons hargument .nil)
    | some _ => exact (ih (count + 1)).bind fun _ _ hothers => readsAlike_pure (.cons hargument hothers)

theorem readsAlike_argumentList (bound : Nat) :
    ReadsAlike K (List.Forall₂ (Expr.Like K)) (argumentList nested bound)
      (argumentList nested' bound) :=
  readsAlike_peek.bind fun _ _ h => readsAlike_ite (kind_eq_iff_of_like hK _ (by simp) h)
    (readsAlike_pure .nil) (readsAlike_arguments hK hnested bound 0)

theorem readsAlike_calls (bound : Nat) {callee callee' : Expr} (h : Expr.Like K callee callee') :
    ReadsAlike K (Expr.Like K) (calls nested bound callee) (calls nested' bound callee') := by
  induction bound generalizing callee callee' with
  | zero => exact readsAlike_pure h
  | succ bound ih =>
    refine (readsAlike_take? hK (by simp)).bind fun _ _ hfound => ?_
    cases hfound with
    | none => exact readsAlike_pure h
    | some _ =>
      exact (readsAlike_argumentList hK hnested bound).bind fun _ _ harguments =>
        (readsAlike_expect hK (by simp) _).bind fun _ _ hparen => ih (.call h hparen harguments)

theorem readsAlike_unary (bound : Nat) :
    ReadsAlike K (Expr.Like K) (unary nested bound) (unary nested' bound) := by
  induction bound with
  | zero => exact readsAlike_fail _
  | succ bound ih =>
    refine (readsAlike_take? hK (by simp [isUnaryOperator])).bind fun _ _ hfound => ?_
    cases hfound with
    | none =>
      exact (readsAlike_primary hK hnested).bind fun _ _ hcallee =>
        readsAlike_calls hK hnested bound hcallee
    | some hoperator => exact ih.bind fun _ _ hoperand => readsAlike_pure (.unary hoperator hoperand)

section Chains

omit hnested

variable {isOperator : Token.Kind → Bool} (hoperator : ∀ value, isOperator (.number value) = false)
  {node : Token → Expr → Expr → Expr}
  (hnode : ∀ {op op' a a' b b'}, K.token op op' → Expr.Like K a a' → Expr.Like K b b' →
    Expr.Like K (node op a b) (node op' a' b'))
  {operand operand' : Parser Expr} (hoperand : ReadsAlike K (Expr.Like K) operand operand')

include hoperator hnode hoperand

theorem readsAlike_chainFrom (bound : Nat) {left left' : Expr} (h : Expr.Like K left left') :
    ReadsAlike K (Expr.Like K) (chainFrom isOperator node operand bound left)
      (chainFrom isOperator node operand' bound left') := by
  induction bound generalizing left left' with
  | zero => exact readsAlike_pure h
  | succ bound ih =>
    refine (readsAlike_take? hK hoperator).bind fun _ _ hfound => ?_
    cases hfound with
    | none => exact readsAlike_pure h
    | some hop => exact hoperand.bind fun _ _ hright => ih (hnode hop h hright)

theorem readsAlike_chain (bound : Nat) :
    ReadsAlike K (Expr.Like K) (chain isOperator node operand bound)
      (chain isOperator node operand' bound) :=
  hoperand.bind fun _ _ h => readsAlike_chainFrom hK hoperator hnode hoperand bound h

end Chains

theorem readsAlike_disjunction (bound : Nat) :
    ReadsAlike K (Expr.Like K) (disjunction nested bound) (disjunction nested' bound) := by
  have hfactor : ReadsAlike K (Expr.Like K) (factor nested bound) (factor nested' bound) :=
    readsAlike_chain hK (by simp [isFactorOperator]) .binary (readsAlike_unary hK hnested bound) bound
  have hterm : ReadsAlike K (Expr.Like K) (term nested bound) (term nested' bound) :=
    readsAlike_chain hK (by simp [isTermOperator]) .binary hfactor bound
  have hcomparison : ReadsAlike K (Expr.Like K) (comparison nested bound) (comparison nested' bound) :=
    readsAlike_chain hK (by simp [isComparisonOperator]) .binary hterm bound
  have hequality : ReadsAlike K (Expr.Like K) (equality nested bound) (equality nested' bound) :=
    readsAlike_chain hK (by simp [isEqualityOperator]) .binary hcomparison bound
  have hconjunction : ReadsAlike K (Expr.Like K) (conjunction nested bound) (conjunction nested' bound) :=
    readsAlike_chain hK (by simp) .logical hequality bound
  exact readsAlike_chain hK (by simp) .logical hconjunction bound

theorem readsAlike_assignment (bound : Nat) :
    ReadsAlike K (Expr.Like K) (assignment nested bound) (assignment nested' bound) := by
  refine (readsAlike_disjunction hK hnested bound).bind fun _ _ htarget => ?_
  refine (readsAlike_take? hK (by simp)).bind fun _ _ hfound => ?_
  cases hfound with
  | none => exact readsAlike_pure htarget
  | some hequals =>
    refine hnested.bind fun _ _ hvalue => ?_
    have hreported := (readsAlike_report .invalidAssignmentTarget hequals).bind fun _ _ _ =>
      readsAlike_pure htarget
    -- like trees are variables together
    cases htarget with
    | «variable» hname => exact readsAlike_pure (.assign hname hvalue)
    | _ => exact hreported

omit hnested

theorem readsAlike_expression (bound : Nat) :
    ReadsAlike K (Expr.Like K) (expression bound) (expression bound) := by
  induction bound with
  | zero => exact readsAlike_fail _
  | succ bound ih => exact readsAlike_assignment hK ih (bound + 1)

end Expressions

/-! ## Statements -/

section Statements

/-- An expression that may be left out. -/
theorem readsAlike_optional {c c' : Prop} [Decidable c] [Decidable c'] (hc : c' ↔ c)
    {p p' : Parser Expr} (hp : ReadsAlike K (Expr.Like K) p p') {R : α → β → Prop}
    {next : Option Expr → Parser α} {next' : Option Expr → Parser β}
    (hnext : ∀ value value', Option.Rel (Expr.Like K) value value' →
      ReadsAlike K R (next value) (next' value')) :
    ReadsAlike K R (if c then pure none >>= next else (some <$> p) >>= next)
      (if c' then pure none >>= next' else (some <$> p') >>= next') :=
  readsAlike_ite hc ((readsAlike_pure .none).bind hnext)
    ((hp.map fun _ _ h => .some h).bind hnext)

variable (hK : K.Lawful A A')

include hK

theorem readsAlike_block {declaration declaration' : Parser Stmt}
    (h : ReadsAlike K (Stmt.Like K) declaration declaration') (bound : Nat) :
    ReadsAlike K (List.Forall₂ (Stmt.Like K)) (block declaration bound) (block declaration' bound) := by
  induction bound with
  | zero => exact readsAlike_fail _
  | succ bound ih =>
    refine readsAlike_peek.bind fun t u ht => readsAlike_ite ?_
      ((readsAlike_expect hK (by simp) _).bind fun _ _ _ => readsAlike_pure .nil)
      (h.bind fun _ _ hfirst => ih.bind fun _ _ hothers => readsAlike_pure (.cons hfirst hothers))
    have hbrace := kind_eq_iff_of_like hK .rightBrace (by simp) ht
    have hend := kind_eq_iff_of_like hK .endOfInput (by simp) ht
    simp [hbrace, hend]

theorem readsAlike_parameters (bound count : Nat) :
    ReadsAlike K (List.Forall₂ K.token) (parameters bound count) (parameters bound count) := by
  induction bound generalizing count with
  | zero => exact readsAlike_fail _
  | succ bound ih =>
    unfold parameters
    refine readsAlike_check .tooManyParameters
      ((readsAlike_expect hK (by simp) _).bind fun _ _ hparameter => ?_)
    refine (readsAlike_take? hK (by simp)).bind fun _ _ hfound => ?_
    cases hfound with
    | none => exact readsAlike_pure (.cons hparameter .nil)
    | some _ =>
      exact (ih (count + 1)).bind fun _ _ hothers => readsAlike_pure (.cons hparameter hothers)

theorem readsAlike_parameterList (bound : Nat) :
    ReadsAlike K (List.Forall₂ K.token) (parameterList bound) (parameterList bound) :=
  readsAlike_peek.bind fun _ _ h => readsAlike_ite (kind_eq_iff_of_like hK _ (by simp) h)
    (readsAlike_pure .nil) (readsAlike_parameters hK bound 0)

omit hK in
/-- What is nested in statements is read alike. -/
structure Nested.Alike (K : Likeness) (nested nested' : Nested) : Prop where
  expression : ReadsAlike K (Expr.Like K) nested.expression nested'.expression
  statement : ReadsAlike K (Stmt.Like K) nested.statement nested'.statement
  declaration : ReadsAlike K (Stmt.Like K) nested.declaration nested'.declaration

variable {nested nested' : Nested} (h : Nested.Alike K nested nested')

include h

theorem readsAlike_functionDeclaration (bound : Nat) :
    ReadsAlike K (Stmt.Like K) (functionDeclaration nested bound) (functionDeclaration nested' bound) :=
  (readsAlike_expect hK (by simp) _).bind fun _ _ hname =>
    (readsAlike_expect hK (by simp) _).bind fun _ _ _ =>
      (readsAlike_parameterList hK bound).bind fun _ _ hparameters =>
        (readsAlike_expect hK (by simp) _).bind fun _ _ _ =>
          (readsAlike_expect hK (by simp) _).bind fun _ _ _ =>
            (readsAlike_block hK h.declaration bound).insideFunction.bind fun _ _ hbody =>
              readsAlike_pure (.function hname hparameters hbody)

theorem readsAlike_variableDeclaration :
    ReadsAlike K (Stmt.Like K) (variableDeclaration nested) (variableDeclaration nested') := by
  refine (readsAlike_expect hK (by simp) _).bind fun _ _ hname =>
    (readsAlike_passes hK (by simp)).bind fun _ found heq => ?_
  subst heq
  cases found with
  | false =>
    exact (readsAlike_semicolon hK _).bind fun _ _ _ => readsAlike_pure (.var hname .none)
  | true =>
    exact (h.expression.map fun _ _ h => .some h).bind fun _ _ hvalue =>
      (readsAlike_semicolon hK _).bind fun _ _ _ => readsAlike_pure (.var hname hvalue)

theorem readsAlike_expressionStatement :
    ReadsAlike K (Stmt.Like K) (expressionStatement nested) (expressionStatement nested') :=
  h.expression.bind fun _ _ hvalue =>
    (readsAlike_semicolon hK _).bind fun _ _ _ => readsAlike_pure (.expression hvalue)

theorem readsAlike_printed : ReadsAlike K (Stmt.Like K) (printed nested) (printed nested') :=
  h.expression.bind fun _ _ hvalue =>
    (readsAlike_semicolon hK _).bind fun _ _ _ => readsAlike_pure (.print hvalue)

/-- A `return` is reported on both sides or on none. -/
theorem readsAlike_result {keyword keyword' : Token} (hkeyword : K.token keyword keyword') :
    ReadsAlike K (Stmt.Like K) (result nested keyword) (result nested' keyword') := by
  refine readsAlike_inFunction.bind fun _ placed heq => ?_
  subst heq
  have hnext := readsAlike_peek.bind fun _ _ ht =>
    readsAlike_optional (kind_eq_iff_of_like hK .semicolon (by simp) ht) h.expression
      fun _ _ hvalue => (readsAlike_semicolon hK .semicolonAfterResult).bind fun _ _ _ =>
        readsAlike_pure (Stmt.Like.result hkeyword hvalue)
  exact readsAlike_ite Iff.rfl ((readsAlike_report _ hkeyword).bind fun _ _ _ => hnext) hnext

theorem readsAlike_conditional :
    ReadsAlike K (Stmt.Like K) (conditional nested) (conditional nested') := by
  refine (readsAlike_expect hK (by simp) _).bind fun _ _ _ => h.expression.bind fun _ _ hcondition =>
    (readsAlike_expect hK (by simp) _).bind fun _ _ _ => h.statement.bind fun _ _ hbody =>
      (readsAlike_passes hK (by simp)).bind fun _ found heq => ?_
  subst heq
  cases found with
  | false => exact readsAlike_pure (.ifThen hcondition hbody)
  | true =>
    exact h.statement.bind fun _ _ hotherwise => readsAlike_pure (.ifElse hcondition hbody hotherwise)

theorem readsAlike_whileLoop : ReadsAlike K (Stmt.Like K) (whileLoop nested) (whileLoop nested') :=
  (readsAlike_expect hK (by simp) _).bind fun _ _ _ => h.expression.bind fun _ _ hcondition =>
    (readsAlike_expect hK (by simp) _).bind fun _ _ _ => h.statement.bind fun _ _ hbody =>
      readsAlike_pure (.loop hcondition hbody)

theorem readsAlike_initializer :
    ReadsAlike K (Option.Rel (Stmt.Like K)) (initializer nested) (initializer nested') := by
  refine (readsAlike_passes hK (by simp)).bind fun empty _ hempty => readsAlike_ite (by rw [hempty])
    (readsAlike_pure .none) ?_
  exact (readsAlike_passes hK (by simp)).bind fun declared _ hdeclared => readsAlike_ite
    (by rw [hdeclared]) ((readsAlike_variableDeclaration hK h).map fun _ _ h => .some h)
    ((readsAlike_expressionStatement hK h).map fun _ _ h => .some h)

theorem readsAlike_forLoop : ReadsAlike K (Stmt.Like K) (forLoop nested) (forLoop nested') := by
  refine (readsAlike_expect hK (by simp) _).bind fun _ _ _ =>
    (readsAlike_initializer hK h).bind fun initial initial' hinitial =>
      readsAlike_peek.bind fun t u ht => ?_
  -- the condition and the increment are told by the token behind the clause
  refine readsAlike_optional (kind_eq_iff_of_like hK _ (by simp) ht) h.expression
    fun _ _ hcondition => (readsAlike_semicolon hK _).bind fun _ _ _ =>
      readsAlike_peek.bind fun t u ht => ?_
  refine readsAlike_optional (kind_eq_iff_of_like hK _ (by simp) ht) h.expression
    fun _ _ hincrement => (readsAlike_expect hK (by simp) _).bind fun _ _ _ =>
      h.statement.bind fun _ _ hbody => readsAlike_pure ?_
  rw [forTree_eq_loopTree, forTree_eq_loopTree]
  exact loopTree_like hinitial hcondition hincrement hbody

theorem readsAlike_statementWith (bound : Nat) :
    ReadsAlike K (Stmt.Like K) (statementWith nested bound) (statementWith nested' bound) := by
  refine readsAlike_peek.bind fun t u ht => ?_
  have hkind := hK.kind ht
  generalize t.kind = kind at hkind
  generalize u.kind = kind' at hkind
  cases hkind with
  | number => exact readsAlike_expressionStatement hK h
  | same =>
    split
    · exact readsAlike_skip.bind fun _ _ _ => readsAlike_printed hK h
    · exact readsAlike_skip.bind fun _ _ _ =>
        (readsAlike_block hK h.declaration bound).map fun _ _ hbody => .block hbody
    · exact readsAlike_skip.bind fun _ _ _ => readsAlike_conditional hK h
    · exact readsAlike_skip.bind fun _ _ _ => readsAlike_whileLoop hK h
    · exact readsAlike_skip.bind fun _ _ _ => readsAlike_forLoop hK h
    · exact readsAlike_skip.bind fun _ _ _ => readsAlike_result hK h ht
    · exact readsAlike_expressionStatement hK h

theorem readsAlike_declarationWith (bound : Nat) :
    ReadsAlike K (Stmt.Like K) (declarationWith nested bound) (declarationWith nested' bound) := by
  refine readsAlike_peek.bind fun t u ht => ?_
  have hkind := hK.kind ht
  generalize t.kind = kind at hkind
  generalize u.kind = kind' at hkind
  cases hkind with
  | number => exact readsAlike_statementWith hK h bound
  | same =>
    split
    · exact readsAlike_skip.bind fun _ _ _ => readsAlike_variableDeclaration hK h
    · exact readsAlike_skip.bind fun _ _ _ => readsAlike_functionDeclaration hK h bound
    · exact readsAlike_statementWith hK h bound

omit h

theorem readsAlike_item (bound : Nat) (declarations : Bool) :
    ReadsAlike K (Stmt.Like K) (item bound declarations) (item bound declarations) := by
  induction bound generalizing declarations with
  | zero => exact readsAlike_fail _
  | succ bound ih =>
    have hnested : Nested.Alike K ⟨expression (bound + 1), item bound false, item bound true⟩
        ⟨expression (bound + 1), item bound false, item bound true⟩ :=
      ⟨readsAlike_expression hK _, ih false, ih true⟩
    exact readsAlike_ite Iff.rfl (readsAlike_declarationWith hK hnested _)
      (readsAlike_statementWith hK hnested _)

end Statements

/-! ## Whole scripts -/

section Scripts

variable (hK : K.Lawful A A')

include hK

theorem startsStatement_like {t u : Token} (h : K.token t u) :
    startsStatement u.kind = startsStatement t.kind :=
  accepts_like hK (by simp [startsStatement]) h

theorem nextStatement_like {ts ts' : List Token} (hts : List.Forall₂ K.token ts ts') :
    List.Forall₂ K.token (nextStatement ts) (nextStatement ts') := by
  induction hts with
  | nil => exact .nil
  | cons h hts ih =>
    unfold nextStatement
    simp only [startsStatement_like hK h, kind_eq_iff_of_like hK .semicolon (by simp) h]
    split
    · exact .cons h hts
    · split
      · exact hts
      · exact ih

theorem resume_like {ts ts' : List Token} (hts : List.Forall₂ K.token ts ts') :
    List.Forall₂ K.token (resume ts) (resume ts') := by
  cases hts with
  | nil => exact .nil
  | cons h hts =>
    unfold resume
    simp only [kind_eq_iff_of_like hK .semicolon (by simp) h]
    split
    · exact hts
    · exact nextStatement_like hK hts

/-- Like trees, and the same problems at like tokens, in the same order. -/
structure Reading.Like (K : Likeness) (reading reading' : Reading) : Prop where
  program : List.Forall₂ (Stmt.Like K) reading.program reading'.program
  errors : List.Forall₂ (SyntaxError.Like K) reading.errors reading'.errors

variable {ending ending' : Token} (hending : K.token ending ending')

include hending

theorem readWithin_like (bound : Nat) {ts ts' : List Token} (hts : List.Forall₂ K.token ts ts') :
    Reading.Like K (readWithin ending bound ts) (readWithin ending' bound ts') := by
  induction bound generalizing ts ts' with
  | zero => exact ⟨.nil, .nil⟩
  | succ bound ih =>
    cases hts with
    | nil => exact ⟨.nil, .nil⟩
    | @cons t u ts ts' h hts =>
      have hctx : Context.Like K ⟨ending, false⟩ ⟨ending', false⟩ := ⟨hending, rfl⟩
      have hreply := readsAlike_item hK (t :: ts).length true hctx (.cons h hts)
      -- the declarations are read within as many tokens as are left, which are as many on both sides
      have hlength : (u :: ts').length = (t :: ts).length := by simp [hts.length_eq]
      unfold readWithin declaration
      rw [hlength]
      generalize item (t :: ts).length true ⟨ending, false⟩ (t :: ts) = reply at hreply
      generalize item (t :: ts).length true ⟨ending', false⟩ (u :: ts') = reply' at hreply
      obtain ⟨reports, rest, outcome⟩ := reply
      obtain ⟨reports', rest', outcome'⟩ := reply'
      obtain ⟨hreports, hrest, houtcome⟩ := hreply
      cases houtcome with
      | ok hstmt =>
        have hothers := ih hrest
        exact ⟨.cons hstmt hothers.program, List.rel_append hreports hothers.errors⟩
      | error he =>
        -- recovery stops at the same place, so the turns stay in step
        have hothers := ih (resume_like hK hrest)
        exact ⟨hothers.program, List.rel_append hreports (.cons he hothers.errors)⟩

theorem read_like {ts ts' : List Token} (hts : List.Forall₂ K.token ts ts') :
    Reading.Like K (read ending ts) (read ending' ts') := by
  unfold read
  rw [← hts.length_eq]
  exact readWithin_like hK hending _ hts

end Scripts

end Parser

/-- The same errors in the characters, and the same problems at like tokens, in the same order. -/
structure Rejection.Like (K : Likeness) (r r' : Rejection) : Prop where
  lexical : r'.lexical = r.lexical
  syntactic : List.Forall₂ (SyntaxError.Like K) r.syntactic r'.syntactic

/-- Like tokens up to the end of the script are like tokens before it, with like ends. -/
theorem Scan.content_like {K : Likeness} {A A' : Arithmetic} {a b : String}
    (htokens : List.Forall₂ K.token (ofSource A a).tokens (ofSource A' b).tokens) :
    List.Forall₂ K.token (Token.content (ofSource A a).tokens) (Token.content (ofSource A' b).tokens) ∧
      K.token (Token.endingOf (ofSource A a).tokens) (Token.endingOf (ofSource A' b).tokens) := by
  have hsplit := tokens_ofSource A' b
  have hlikes := htokens
  rw [tokens_ofSource A a] at hlikes
  obtain ⟨w, t, heq, hw, ht⟩ := exists_concat_of_forall₂ hlikes
  obtain ⟨hcontent, hending⟩ := List.append_inj' (hsplit.symm.trans heq) rfl
  rw [hcontent, List.singleton_inj.1 hending]
  exact ⟨hw, ht⟩

/-- Scripts with like tokens are both programs, with like trees, or both rejected, with like errors. -/
theorem Program.ofSource_alike {K : Likeness} {A A' : Arithmetic} (hK : K.Lawful A A') {a b : String}
    (htokens : List.Forall₂ K.token (Scan.ofSource A a).tokens (Scan.ofSource A' b).tokens)
    (herrors : (Scan.ofSource A' b).errors = (Scan.ofSource A a).errors) :
    (∃ p q, ofSource A a = .ok p ∧ ofSource A' b = .ok q ∧ List.Forall₂ (Stmt.Like K) p q) ∨
      ∃ r r', ofSource A a = .error r ∧ ofSource A' b = .error r' ∧ Rejection.Like K r r' := by
  obtain ⟨hcontent, hending⟩ := Scan.content_like htokens
  obtain ⟨hprogram, hsyntactic⟩ := Parser.read_like hK hending hcontent
  unfold ofSource ofTokens
  dsimp only
  rw [herrors]
  generalize (Scan.ofSource A a).errors = lexical
  generalize Parser.read _ (Token.content (Scan.ofSource A a).tokens) = reading at *
  generalize Parser.read _ (Token.content (Scan.ofSource A' b).tokens) = reading' at *
  obtain ⟨program, errors⟩ := reading
  obtain ⟨program', errors'⟩ := reading'
  -- only where there is no error at all is the script a program
  rcases lexical with - | ⟨e, lexical⟩ <;> rcases hsyntactic with - | ⟨h, hs⟩
  · exact .inl ⟨_, _, rfl, rfl, hprogram⟩
  · exact .inr ⟨_, _, rfl, rfl, rfl, .cons h hs⟩
  · exact .inr ⟨_, _, rfl, rfl, rfl, .nil⟩
  · exact .inr ⟨_, _, rfl, rfl, rfl, .cons h hs⟩

end LoxScript
