import LoxScript.Proofs.Syntax.Language
import LoxScript.Proofs.Token.Lines
import Mathlib.Data.List.TakeWhile

/-!
# The order of errors

Errors are found while tokens are passed from the first to the last, and nearly all blame the next token
or the one just passed. They come in the order of the script for that reason. The exception is the target
of an assignment: it is blamed at the equals sign, but only after the value has been read, and the value
may have faults of its own.

The place of an error is the list of tokens that begins with the one blamed. A parser leaves a later part
of the tokens ahead of it, so what it finds has its place between the two.

## Main definitions

* `SyntaxError.Overtakes`: the pairs of errors that may come in the wrong order.
* `Parser.Finding`: an error with its place.
* `Parser.Orderly`: a parser that finds errors in order, up to such pairs.

## Main statements

* `Parser.readWithin_orderly`: all errors of a list of tokens.
* `Program.ofSource_errors_inOrder`: the errors of a rejected script.
-/

namespace LoxScript

/-- Whether a problem stops reading: something else than the next token should stand there. -/
def SyntaxError.Problem.stops : SyntaxError.Problem → Bool
  | .expected _ => true
  | _ => false

/-- The problems that an expression may have without becoming unreadable. -/
def SyntaxError.Problem.Tolerated (problem : SyntaxError.Problem) : Prop :=
  problem = .invalidAssignmentTarget ∨ problem = .tooManyArguments

/-- The fault `e` may be listed before the fault `target` of an assignment, since it is found in the value
of the assignment. The value is an expression at the beginning of the tokens behind the equals sign, which
are `behind`. -/
def SyntaxError.Overtakes (e target : SyntaxError) (behind : List Token) : Prop :=
  target.problem = .invalidAssignmentTarget ∧ e.problem.Tolerated ∧
    ∃ w rest value faults, behind = w ++ rest ∧ Grammar.Phrase .assignment w value faults ∧ e ∈ faults

namespace SyntaxError.Overtakes

variable {e target : SyntaxError} {behind : List Token}

theorem append (h : e.Overtakes target behind) (others : List Token) :
    e.Overtakes target (behind ++ others) := by
  obtain ⟨hproblem, htolerated, w, rest, value, faults, rfl, hvalue, he⟩ := h
  exact ⟨hproblem, htolerated, w, rest ++ others, value, faults, List.append_assoc .., hvalue, he⟩

theorem ne_nil (h : e.Overtakes target behind) : behind ≠ [] := by
  obtain ⟨-, -, w, rest, value, faults, rfl, hvalue, -⟩ := h
  obtain ⟨t, v, rfl, -⟩ := hvalue.starts
  simp

end SyntaxError.Overtakes

namespace Parser

variable {α β : Type} {P : SyntaxError.Problem → Prop} {ctx : Context} {ts mid : List Token}

/-- An error and its place: the tokens from the one blamed to the last. -/
structure Finding where
  /-- The tokens from the one blamed on. -/
  place : List Token
  /-- The error. -/
  error : SyntaxError

namespace Finding

/-- The error blames the first token of its place, which is one of those ahead. -/
def Within (ending : Token) (ts : List Token) (p : Finding) : Prop :=
  p.place <:+ ts ∧ p.error.token = p.place.head?.getD ending

/-- The second error is blamed at the same token as the first or a later one, unless it has been
overtaken. -/
def InOrder (p q : Finding) : Prop :=
  q.place.length ≤ p.place.length ∨ p.error.Overtakes q.error q.place.tail

theorem Within.mono {ending : Token} {p : Finding} (h : p.Within ending mid) (hmid : mid <:+ ts) :
    p.Within ending ts :=
  ⟨h.1.trans hmid, h.2⟩

end Finding

/-! ## Replies -/

/-- What a parser answers that reads on from `ts`: it leaves a later part of these tokens, what it
reports has its place between the two and comes in order, if no token looks like the end, and the error
that stops it blames the next token. All reported problems satisfy `P`. -/
structure Reply.Orderly (P : SyntaxError.Problem → Prop) (ctx : Context) (ts : List Token)
    (reply : Reply α) : Prop where
  rest : reply.rest <:+ ts
  stop : ∀ e, reply.outcome = .error e → e.token = reply.rest.head?.getD ctx.ending
  reports : ∃ findings : List Finding, reply.reports = findings.map (·.error) ∧
    (∀ p ∈ findings, p.Within ctx.ending ts ∧ reply.rest.length ≤ p.place.length ∧
      P p.error.problem) ∧
    (ctx.ending.kind = .endOfInput → findings.Pairwise Finding.InOrder)

/-- A parser all answers of which are orderly. -/
def Orderly (P : SyntaxError.Problem → Prop) (p : Parser α) : Prop :=
  ∀ ctx ts, (p ctx ts).Orderly P ctx ts

theorem Reply.Orderly.of_suffix {reply : Reply α} (h : reply.Orderly P ctx mid) (hmid : mid <:+ ts) :
    reply.Orderly P ctx ts := by
  obtain ⟨findings, hreports, hfindings, horder⟩ := h.reports
  exact ⟨h.rest.trans hmid, h.stop, findings, hreports,
    fun p hp => ⟨(hfindings p hp).1.mono hmid, (hfindings p hp).2⟩, horder⟩

theorem Orderly.mono {Q : SyntaxError.Problem → Prop} {p : Parser α} (h : Orderly P p)
    (hPQ : ∀ problem, P problem → Q problem) : Orderly Q p := by
  intro ctx ts
  obtain ⟨hrest, hstop, findings, hreports, hfindings, horder⟩ := h ctx ts
  refine ⟨hrest, hstop, findings, hreports, fun q hq => ?_, horder⟩
  obtain ⟨hwithin, hlength, hproblem⟩ := hfindings q hq
  exact ⟨hwithin, hlength, hPQ _ hproblem⟩

/-- An answer without reports that does not stop. -/
theorem Reply.orderly_of_ok {rest : List Token} {a : α} (h : rest <:+ ts) :
    (⟨[], rest, .ok a⟩ : Reply α).Orderly P ctx ts :=
  ⟨h, by rintro _ ⟨⟩, [], rfl, List.forall_mem_nil _, fun _ => List.Pairwise.nil⟩

theorem orderly_pure (a : α) : Orderly P (pure a) :=
  fun _ _ => Reply.orderly_of_ok (List.suffix_refl _)

theorem orderly_fail (what : Expectation) : Orderly P (fail what : Parser α) := by
  refine fun ctx ts =>
    ⟨List.suffix_refl _, ?_, [], rfl, List.forall_mem_nil _, fun _ => List.Pairwise.nil⟩
  rintro _ ⟨⟩
  rfl

/-- What comes later in the script is found later: reports of a part, and those of the part behind it. -/
theorem Reply.Orderly.append {first : List SyntaxError} {a : α} {reply : Reply β}
    (h : (⟨first, mid, .ok a⟩ : Reply α).Orderly P ctx ts) (hreply : reply.Orderly P ctx mid) :
    (⟨first ++ reply.reports, reply.rest, reply.outcome⟩ : Reply β).Orderly P ctx ts := by
  obtain ⟨hmid, -, before, rfl, hbefore, hfirst⟩ := h
  obtain ⟨hrest, hstop, behind, hreports, hbehind, hsecond⟩ := hreply
  refine ⟨hrest.trans hmid, hstop, before ++ behind, by simp [hreports], fun p hp => ?_, ?_⟩
  · rcases List.mem_append.1 hp with hp | hp
    · obtain ⟨hwithin, hlength, hproblem⟩ := hbefore p hp
      exact ⟨hwithin, Nat.le_trans hrest.length_le hlength, hproblem⟩
    · obtain ⟨hwithin, hlength, hproblem⟩ := hbehind p hp
      exact ⟨hwithin.mono hmid, hlength, hproblem⟩
  · refine fun hctx =>
      List.pairwise_append.2 ⟨hfirst hctx, hsecond hctx, fun p hp q hq => .inl ?_⟩
    -- the tokens between the two parts separate them
    exact Nat.le_trans (hbehind q hq).1.1.length_le (hbefore p hp).2.1

/-- The error that stops a part has its place behind the reports of the part. -/
theorem Reply.Orderly.stopped {first : List SyntaxError} {e : SyntaxError}
    (h : (⟨first, mid, .error e⟩ : Reply α).Orderly P ctx ts) (he : P e.problem) :
    (⟨first ++ [e], mid, .ok ()⟩ : Reply Unit).Orderly P ctx ts := by
  obtain ⟨hmid, hstop, before, rfl, hbefore, hfirst⟩ := h
  refine ⟨hmid, by rintro _ ⟨⟩, before ++ [⟨mid, e⟩], by simp, fun p hp => ?_, ?_⟩
  · rcases List.mem_append.1 hp with hp | hp
    · exact hbefore p hp
    · obtain rfl := List.mem_singleton.1 hp
      exact ⟨⟨hmid, hstop e rfl⟩, Nat.le_refl _, he⟩
  · refine fun hctx =>
      List.pairwise_append.2 ⟨hfirst hctx, List.pairwise_singleton .., fun p hp q hq => .inl ?_⟩
    obtain rfl := List.mem_singleton.1 hq
    exact (hbefore p hp).2.1

theorem Orderly.bind_apply {p : Parser α} {next : α → Parser β} (hp : Orderly P p)
    (hnext : ∀ a mid, (next a ctx mid).Orderly P ctx mid) :
    ((p >>= next) ctx ts).Orderly P ctx ts := by
  have h := hp ctx ts
  change (Parser.bind p next ctx ts).Orderly P ctx ts
  unfold Parser.bind
  rcases hreply : p ctx ts with ⟨first, mid, e | a⟩ <;> rw [hreply] at h
  · obtain ⟨hrest, hstop, hreports⟩ := h
    refine ⟨hrest, ?_, hreports⟩
    rintro _ ⟨⟩
    exact hstop e rfl
  · exact h.append (hnext a mid)

theorem Orderly.bind {p : Parser α} {next : α → Parser β} (hp : Orderly P p)
    (hnext : ∀ a, Orderly P (next a)) : Orderly P (p >>= next) :=
  fun ctx _ => hp.bind_apply fun a mid => hnext a ctx mid

theorem Orderly.map {p : Parser α} (hp : Orderly P p) (g : α → β) : Orderly P (g <$> p) :=
  hp.bind fun a => orderly_pure (g a)

theorem orderly_ite {c : Prop} [Decidable c] {p q : Parser α} (hp : Orderly P p) (hq : Orderly P q) :
    Orderly P (if c then p else q) := by
  split
  · exact hp
  · exact hq

/-! ## Single tokens -/

theorem orderly_peek : Orderly P peek := fun _ _ => Reply.orderly_of_ok (List.suffix_refl _)

theorem orderly_skip : Orderly P skip := fun _ _ => Reply.orderly_of_ok (List.drop_suffix ..)

theorem orderly_take? (accepts : Token.Kind → Bool) : Orderly P (take? accepts) := by
  intro ctx ts
  cases ts with
  | nil => exact Reply.orderly_of_ok (List.suffix_refl _)
  | cons t ts =>
    rw [take?_cons]
    split
    · exact Reply.orderly_of_ok (List.suffix_cons t ts)
    · exact Reply.orderly_of_ok (List.suffix_refl _)

theorem orderly_expect (kind : Token.Kind) (what : Expectation) : Orderly P (expect kind what) := by
  refine (orderly_take? _).bind fun found => ?_
  cases found with
  | none => exact orderly_fail what
  | some t => exact orderly_pure t

theorem orderly_semicolon (what : Expectation) : Orderly P (semicolon what) :=
  (orderly_expect _ _).bind fun _ => orderly_pure ()

theorem orderly_passes (kind : Token.Kind) : Orderly P (passes kind) :=
  (orderly_take? _).bind fun _ => orderly_pure _

/-- A token that may be there, with a parser behind it that may blame the token. -/
theorem orderly_take?_bind {accepts : Token.Kind → Bool} {next : Option Token → Parser β}
    (hnone : Orderly P (next none))
    (hsome : ∀ t ctx mid, (next (some t) ctx mid).Orderly P ctx (t :: mid)) :
    Orderly P (take? accepts >>= next) := by
  intro ctx ts
  cases ts with
  | nil =>
    rw [bind_apply_of_eq_ok rfl]
    exact hnone ctx []
  | cons t mid =>
    by_cases h : accepts t.kind
    · rw [bind_apply_of_eq_ok (if_pos h)]
      exact hsome t ctx mid
    · rw [bind_apply_of_eq_ok (if_neg h)]
      exact hnone ctx (t :: mid)

/-- A report that blames the token at its place, which was the next one or was just passed. -/
theorem Reply.orderly_report {problem : SyntaxError.Problem} (hproblem : P problem)
    (hmid : mid <:+ ts) :
    (⟨[⟨problem, ts.head?.getD ctx.ending⟩], mid, .ok ()⟩ : Reply Unit).Orderly P ctx ts := by
  refine ⟨hmid, by rintro _ ⟨⟩, [⟨ts, ⟨problem, ts.head?.getD ctx.ending⟩⟩], rfl, ?_,
    fun _ => List.pairwise_singleton ..⟩
  refine List.forall_mem_singleton.2 ⟨⟨List.suffix_refl _, rfl⟩, hmid.length_le, hproblem⟩

/-- The check before an item of a list. -/
theorem orderly_check {problem : SyntaxError.Problem} {count : Nat} (hproblem : P problem)
    {next : Unit → Parser α} (hnext : Orderly P (next ())) :
    Orderly P
      (if maxArity ≤ count then peek >>= fun t => report problem t >>= next else next ()) := by
  refine orderly_ite (fun ctx ts => ?_) hnext
  rw [peek_bind_apply]
  exact (Reply.orderly_report hproblem (List.suffix_refl ts)).append (hnext ctx ts)

theorem Orderly.insideFunction {p : Parser α} (hp : Orderly P p) : Orderly P (insideFunction p) :=
  fun ctx ts => ⟨(hp { ctx with inFunction := true } ts).rest,
    (hp { ctx with inFunction := true } ts).stop, (hp { ctx with inFunction := true } ts).reports⟩

/-! ## Expressions -/

section Expressions

open SyntaxError.Problem (Tolerated)

variable {nested : Parser Expr}

theorem orderly_primary (hnested : Orderly P nested) : Orderly P (primary nested) := by
  refine orderly_peek.bind fun t => ?_
  split
  case h_7 =>
    exact orderly_skip.bind fun _ => hnested.bind fun _ => (orderly_expect _ _).bind fun _ =>
      orderly_pure _
  case h_8 => exact orderly_fail _
  all_goals exact orderly_skip.bind fun _ => orderly_pure _

theorem orderly_arguments (hnested : Orderly Tolerated nested) (bound count : Nat) :
    Orderly Tolerated (arguments nested bound count) := by
  induction bound generalizing count with
  | zero => exact orderly_fail _
  | succ bound ih =>
    unfold arguments
    refine orderly_check (.inr rfl) ?_
    refine hnested.bind fun _ => (orderly_take? _).bind fun found => ?_
    cases found with
    | none => exact orderly_pure _
    | some _ => exact (ih (count + 1)).bind fun _ => orderly_pure _

theorem orderly_argumentList (hnested : Orderly Tolerated nested) (bound : Nat) :
    Orderly Tolerated (argumentList nested bound) :=
  orderly_peek.bind fun _ => orderly_ite (orderly_pure _) (orderly_arguments hnested bound 0)

theorem orderly_calls (hnested : Orderly Tolerated nested) (bound : Nat) (callee : Expr) :
    Orderly Tolerated (calls nested bound callee) := by
  induction bound generalizing callee with
  | zero => exact orderly_pure _
  | succ bound ih =>
    refine (orderly_take? _).bind fun found => ?_
    cases found with
    | none => exact orderly_pure _
    | some _ =>
      exact (orderly_argumentList hnested bound).bind fun _ => (orderly_expect _ _).bind fun _ => ih _

theorem orderly_unary (hnested : Orderly Tolerated nested) (bound : Nat) :
    Orderly Tolerated (unary nested bound) := by
  induction bound with
  | zero => exact orderly_fail _
  | succ bound ih =>
    refine (orderly_take? _).bind fun found => ?_
    cases found with
    | none => exact (orderly_primary hnested).bind fun callee => orderly_calls hnested bound callee
    | some _ => exact ih.bind fun _ => orderly_pure _

theorem orderly_chain {isOperator : Token.Kind → Bool} {node : Token → Expr → Expr → Expr}
    {operand : Parser Expr} (hoperand : Orderly P operand) (bound : Nat) :
    Orderly P (chain isOperator node operand bound) := by
  refine hoperand.bind fun left => ?_
  induction bound generalizing left with
  | zero => exact orderly_pure _
  | succ bound ih =>
    refine (orderly_take? _).bind fun found => ?_
    cases found with
    | none => exact orderly_pure _
    | some _ => exact hoperand.bind fun _ => ih _

theorem orderly_disjunction (hnested : Orderly Tolerated nested) (bound : Nat) :
    Orderly Tolerated (disjunction nested bound) := by
  unfold disjunction conjunction equality comparison term factor
  iterate 6 refine orderly_chain ?_ bound
  exact orderly_unary hnested bound

/-- The fault of a target is listed behind the faults of the value, any of which may overtake it. -/
theorem orderly_misassign (hnested : Orderly Tolerated nested)
    (hreads : ReadsPhrases .assignment nested) (equals : Token) (target : Expr) :
    ((nested >>= fun _ => report .invalidAssignmentTarget equals >>= fun _ => pure target : Parser Expr)
      ctx mid).Orderly Tolerated ctx (equals :: mid) := by
  have h := (hnested ctx mid).of_suffix (List.suffix_cons equals mid)
  change (Parser.bind nested _ ctx mid).Orderly Tolerated ctx (equals :: mid)
  unfold Parser.bind
  rcases hreply : nested ctx mid with ⟨first, rest, e | value⟩ <;> rw [hreply] at h
  · obtain ⟨hrest, hstop, hreports⟩ := h
    refine ⟨hrest, ?_, hreports⟩
    rintro _ ⟨⟩
    exact hstop e rfl
  · obtain ⟨hrest, -, findings, rfl, hfindings, horder⟩ := h
    let fault : Finding := ⟨equals :: mid, ⟨.invalidAssignmentTarget, equals⟩⟩
    refine ⟨hrest, by rintro _ ⟨⟩, findings ++ [fault], by simp [fault]; rfl, fun p hp => ?_, ?_⟩
    · rcases List.mem_append.1 hp with hp | hp
      · exact hfindings p hp
      · obtain rfl := List.mem_singleton.1 hp
        exact ⟨⟨List.suffix_refl _, rfl⟩, hrest.length_le, .inl rfl⟩
    · refine fun hctx =>
        List.pairwise_append.2 ⟨horder hctx, List.pairwise_singleton .., fun p hp q hq => .inr ?_⟩
      obtain rfl := List.mem_singleton.1 hq
      -- what was read behind the equals sign is the value, with all that was reported meanwhile
      obtain ⟨w, hw, hvalue⟩ := hreads hctx hreply
      exact ⟨rfl, (hfindings p hp).2.2, w, rest, value, _, hw, hvalue, List.mem_map_of_mem hp⟩

theorem orderly_assignment (hnested : Orderly Tolerated nested)
    (hreads : ReadsPhrases .assignment nested) (bound : Nat) :
    Orderly Tolerated (assignment nested bound) := by
  refine (orderly_disjunction hnested bound).bind fun target => orderly_take?_bind (orderly_pure _) ?_
  intro equals ctx mid
  have hvariable (name : Token) :=
    ((hnested.bind fun value => orderly_pure (Expr.assign name value)) ctx mid).of_suffix
      (List.suffix_cons equals mid)
  cases target with
  | «variable» name => exact hvariable name
  | literal | grouping | unary | binary | logical | assign | call =>
    exact orderly_misassign hnested hreads equals _

theorem orderly_expression (bound : Nat) : Orderly Tolerated (expression bound) := by
  induction bound with
  | zero => exact orderly_fail _
  | succ bound ih => exact orderly_assignment ih (expression_reads bound) (bound + 1)

end Expressions

/-! ## Statements -/

section Statements

variable {nested : Nested}

/-- Problems behind which reading goes on. -/
def Harmless (problem : SyntaxError.Problem) : Prop := problem.stops = false

theorem harmless_of_tolerated {problem : SyntaxError.Problem} (h : problem.Tolerated) :
    Harmless problem := by
  rcases h with rfl | rfl <;> rfl

/-- What is nested in a statement is read in order. -/
structure Nested.Orderly (nested : Nested) : Prop where
  expression : Parser.Orderly Harmless nested.expression
  statement : Parser.Orderly Harmless nested.statement
  declaration : Parser.Orderly Harmless nested.declaration

theorem orderly_optional {c : Prop} [Decidable c] {p : Parser Expr} {next : Option Expr → Parser β}
    (hp : Orderly P p) (hnext : ∀ value, Orderly P (next value)) :
    Orderly P (if c then pure none >>= next else (some <$> p) >>= next) :=
  orderly_ite ((orderly_pure none).bind hnext) ((hp.map some).bind hnext)

/-- The check of a `return`, which blames the keyword just passed. -/
theorem orderly_misplaced {next : Unit → Parser α} (hnext : Orderly Harmless (next ())) :
    ((if (!ctx.inFunction) = true then
        report .returnOutsideFunction (ts.head?.getD ctx.ending) >>= next
      else next ()) ctx (ts.drop 1)).Orderly Harmless ctx ts := by
  have hpassed : ts.drop 1 <:+ ts := List.drop_suffix 1 ts
  split
  · exact (Reply.orderly_report (show Harmless .returnOutsideFunction from rfl) hpassed).append (hnext ctx _)
  · exact (hnext ctx _).of_suffix hpassed

theorem orderly_block {declaration : Parser Stmt} (h : Orderly Harmless declaration) (bound : Nat) :
    Orderly Harmless (block declaration bound) := by
  induction bound with
  | zero => exact orderly_fail _
  | succ bound ih =>
    exact orderly_peek.bind fun _ => orderly_ite
      ((orderly_expect _ _).bind fun _ => orderly_pure [])
      (h.bind fun _ => ih.bind fun _ => orderly_pure _)

theorem orderly_parameters (bound count : Nat) : Orderly Harmless (parameters bound count) := by
  induction bound generalizing count with
  | zero => exact orderly_fail _
  | succ bound ih =>
    unfold parameters
    refine orderly_check (show Harmless .tooManyParameters from rfl) ?_
    refine (orderly_expect _ _).bind fun _ => (orderly_take? _).bind fun found => ?_
    cases found with
    | none => exact orderly_pure _
    | some _ => exact (ih (count + 1)).bind fun _ => orderly_pure _

theorem orderly_parameterList (bound : Nat) : Orderly Harmless (parameterList bound) :=
  orderly_peek.bind fun _ => orderly_ite (orderly_pure _) (orderly_parameters bound 0)

variable (h : nested.Orderly)

include h

theorem orderly_functionDeclaration (bound : Nat) : Orderly Harmless (functionDeclaration nested bound) :=
  (orderly_expect _ _).bind fun _ => (orderly_expect _ _).bind fun _ =>
    (orderly_parameterList bound).bind fun _ => (orderly_expect _ _).bind fun _ =>
      (orderly_expect _ _).bind fun _ => (orderly_block h.declaration bound).insideFunction.bind fun _ =>
        orderly_pure _

theorem orderly_variableDeclaration : Orderly Harmless (variableDeclaration nested) := by
  refine (orderly_expect _ _).bind fun _ => (orderly_passes _).bind fun found => ?_
  cases found with
  | false =>
    exact (orderly_pure none).bind fun _ => (orderly_semicolon _).bind fun _ => orderly_pure _
  | true =>
    exact (h.expression.map some).bind fun _ => (orderly_semicolon _).bind fun _ => orderly_pure _

theorem orderly_expressionStatement : Orderly Harmless (expressionStatement nested) :=
  h.expression.bind fun _ => (orderly_semicolon _).bind fun _ => orderly_pure _

theorem orderly_printed : Orderly Harmless (printed nested) :=
  h.expression.bind fun _ => (orderly_semicolon _).bind fun _ => orderly_pure _

theorem orderly_result :
    (result nested (ts.head?.getD ctx.ending) ctx (ts.drop 1)).Orderly Harmless ctx ts := by
  unfold result
  rw [inFunction_bind_apply]
  exact orderly_misplaced (orderly_peek.bind fun _ => orderly_optional h.expression fun _ =>
    (orderly_semicolon _).bind fun _ => orderly_pure _)

theorem orderly_conditional : Orderly Harmless (conditional nested) := by
  refine (orderly_expect _ _).bind fun _ => h.expression.bind fun _ => (orderly_expect _ _).bind fun _ =>
    h.statement.bind fun _ => (orderly_passes _).bind fun found => ?_
  cases found with
  | false => exact orderly_pure _
  | true => exact h.statement.bind fun _ => orderly_pure _

theorem orderly_whileLoop : Orderly Harmless (whileLoop nested) :=
  (orderly_expect _ _).bind fun _ => h.expression.bind fun _ => (orderly_expect _ _).bind fun _ =>
    h.statement.bind fun _ => orderly_pure _

theorem orderly_initializer : Orderly Harmless (initializer nested) := by
  refine (orderly_passes _).bind fun empty => orderly_ite (orderly_pure _) ?_
  exact (orderly_passes _).bind fun declared =>
    orderly_ite ((orderly_variableDeclaration h).map some) ((orderly_expressionStatement h).map some)

theorem orderly_forLoop : Orderly Harmless (forLoop nested) :=
  (orderly_expect _ _).bind fun _ => (orderly_initializer h).bind fun _ =>
    orderly_peek.bind fun _ => orderly_optional h.expression fun _ =>
      (orderly_semicolon _).bind fun _ => orderly_peek.bind fun _ =>
        orderly_optional h.expression fun _ => (orderly_expect _ _).bind fun _ =>
          h.statement.bind fun _ => orderly_pure _

theorem orderly_statementWith (bound : Nat) : Orderly Harmless (statementWith nested bound) := by
  intro ctx ts
  unfold statementWith
  rw [peek_bind_apply]
  generalize ht : ts.head?.getD ctx.ending = t
  -- only the check of a `return` looks back at the keyword
  let Good (p : Parser Stmt) : Prop := (p ctx ts).Orderly Harmless ctx ts
  change Good _
  split
  case h_6 =>
    subst ht
    exact orderly_result h
  case h_7 => exact orderly_expressionStatement h ctx ts
  case h_1 => exact (orderly_skip.bind fun _ => orderly_printed h) ctx ts
  case h_2 => exact (orderly_skip.bind fun _ => (orderly_block h.declaration bound).map _) ctx ts
  case h_3 => exact (orderly_skip.bind fun _ => orderly_conditional h) ctx ts
  case h_4 => exact (orderly_skip.bind fun _ => orderly_whileLoop h) ctx ts
  case h_5 => exact (orderly_skip.bind fun _ => orderly_forLoop h) ctx ts

theorem orderly_declarationWith (bound : Nat) : Orderly Harmless (declarationWith nested bound) := by
  refine orderly_peek.bind fun t => ?_
  split
  · exact orderly_skip.bind fun _ => orderly_variableDeclaration h
  · exact orderly_skip.bind fun _ => orderly_functionDeclaration h bound
  · exact orderly_statementWith h bound

omit h

theorem orderly_item (bound : Nat) (declarations : Bool) : Orderly Harmless (item bound declarations) := by
  induction bound generalizing declarations with
  | zero => exact orderly_fail _
  | succ bound ih =>
    have hnested : Nested.Orderly ⟨expression (bound + 1), item bound false, item bound true⟩ :=
      ⟨(orderly_expression _).mono fun _ => harmless_of_tolerated, ih false, ih true⟩
    exact orderly_ite (orderly_declarationWith hnested _) (orderly_statementWith hnested _)

end Statements

/-! ## Whole scripts -/

section Programs

variable {ending : Token} {bound : Nat}

/-- Problems of all sorts. -/
def Any (_ : SyntaxError.Problem) : Prop := True

/-- The errors of a list of tokens, as the reports of a parser that leaves no tokens. -/
theorem readWithin_orderly (ending : Token) (bound : Nat) (ts : List Token) :
    (⟨(readWithin ending bound ts).errors, [], .ok ()⟩ : Reply Unit).Orderly Any ⟨ending, false⟩ ts := by
  induction bound generalizing ts with
  | zero => exact Reply.orderly_of_ok (List.nil_suffix)
  | succ bound ih =>
    by_cases hts : ts = []
    · subst hts
      exact Reply.orderly_of_ok (List.suffix_refl _)
    have h := (orderly_item ts.length true).mono (Q := Any) (fun _ _ => trivial) ⟨ending, false⟩ ts
    rcases hreply : declaration ts.length ⟨ending, false⟩ ts with ⟨reports, rest, e | s⟩
    all_goals
      rw [declaration] at hreply
      rw [hreply] at h
    -- whatever the recovery skips, it goes on with later tokens
    · rw [readWithin_of_error hts hreply]
      dsimp only
      rw [List.append_cons]
      exact (h.stopped trivial).append ((ih (resume rest)).of_suffix (resume_suffix rest))
    · rw [readWithin_of_ok hts hreply]
      exact h.append (ih rest)

end Programs

end Parser

/-! ## The end of a script -/

namespace Scan

/-- The tokens of a script are those before its end, and its end. -/
theorem tokens_ofSource (A : Arithmetic) (source : String) :
    (ofSource A source).tokens =
      Token.content (ofSource A source).tokens ++ [Token.endingOf (ofSource A source).tokens] := by
  have h := tokens_eq_content_append A source
  have hnone : (Token.content (ofSource A source).tokens).find? (·.kind = .endOfInput) = none :=
    List.find?_eq_none.2 fun t ht => by simpa using List.mem_takeWhile_imp ht
  have hending : Token.endingOf (ofSource A source).tokens =
      Token.ending (1 + Text.newlines source.toList) := by
    rw [Token.endingOf, h, List.find?_append, hnone]
    rfl
  rw [hending]
  exact h

end Scan

/-! ## Rejected scripts -/

namespace Program

/-- A script is rejected with the errors in its characters and all errors in its tokens. -/
theorem ofSource_eq_error {A : Arithmetic} {source : String} {r : Rejection}
    (h : ofSource A source = .error r) :
    r.lexical = (Scan.ofSource A source).errors ∧
      r.syntactic = (Parser.read (Token.endingOf (Scan.ofSource A source).tokens)
        (Token.content (Scan.ofSource A source).tokens)).errors := by
  unfold ofSource ofTokens at h
  dsimp only at h
  generalize Parser.read _ (Token.content (Scan.ofSource A source).tokens) = reading at h ⊢
  obtain ⟨program, errors⟩ := reading
  generalize (Scan.ofSource A source).errors = lexical at h ⊢
  cases lexical <;> cases errors <;> cases h <;> exact ⟨rfl, rfl⟩

/-- The index of a place in the tokens. -/
theorem getElem?_of_within {ending : Token} {w : List Token} {p : Parser.Finding}
    (h : p.Within ending w) : (w ++ [ending])[w.length - p.place.length]? = some p.error.token := by
  obtain ⟨⟨before, rfl⟩, htoken⟩ := h
  rw [htoken, List.length_append, Nat.add_sub_cancel, List.append_assoc,
    List.getElem?_append_right (Nat.le_refl _), Nat.sub_self]
  cases p.place <;> rfl

/-- The tokens behind a place that has some. -/
theorem drop_of_within {ending : Token} {w : List Token} {p : Parser.Finding} (h : p.Within ending w)
    (hbehind : p.place.tail ≠ []) :
    (w ++ [ending]).drop (w.length - p.place.length + 1) = p.place.tail ++ [ending] := by
  obtain ⟨place, error⟩ := p
  obtain ⟨⟨before, rfl⟩, -⟩ := h
  cases place with
  | nil => exact absurd rfl hbehind
  | cons t behind => simp [List.append_assoc, List.drop_append]

/-- The errors of a rejected script, the lexical ones and the syntax errors, each come in the order of the
script: every syntax error blames a token, none blames a token before that of an error listed earlier, and
so the lines never decrease. The exception is the fault of the target of an assignment, which faults of the
value behind its equals sign may overtake. -/
theorem ofSource_errors_inOrder {A : Arithmetic} {source : String} {r : Rejection}
    (h : ofSource A source = .error r) :
    r.lexical = (Scan.ofSource A source).errors ∧
      (r.lexical.map (·.line)).Pairwise (· ≤ ·) ∧
      ∃ blamed : List (Nat × SyntaxError), r.syntactic = blamed.map (·.2) ∧
        (∀ p ∈ blamed, (Scan.ofSource A source).tokens[p.1]? = some p.2.token) ∧
        blamed.Pairwise fun p q =>
          p.1 ≤ q.1 ∧ p.2.token.line ≤ q.2.token.line ∨
            p.2.Overtakes q.2 ((Scan.ofSource A source).tokens.drop (q.1 + 1)) := by
  obtain ⟨hlexical, hsyntactic⟩ := ofSource_eq_error h
  obtain ⟨htokens, herrors⟩ := Scan.ofPieces_lines 1 (Piece.split A source.toList)
  refine ⟨hlexical, hlexical ▸ (List.pairwise_cons.1 herrors).2, ?_⟩
  have hlines : (Scan.ofSource A source).tokens.Pairwise (·.line ≤ ·.line) :=
    List.pairwise_map.1 (List.pairwise_cons.1 htokens).2
  have hending := Token.endingOf_kind (Scan.ofSource A source).tokens
  rw [Scan.tokens_ofSource] at hlines ⊢
  generalize Token.content (Scan.ofSource A source).tokens = w at hsyntactic hlines ⊢
  generalize Token.endingOf (Scan.ofSource A source).tokens = ending at hsyntactic hlines hending ⊢
  obtain ⟨-, -, findings, hfindings, hwithin, horder⟩ := Parser.readWithin_orderly ending w.length w
  -- the index of an error is the number of tokens before its place
  let index (p : Parser.Finding) : Nat := w.length - p.place.length
  have hindex : ∀ p ∈ findings, (w ++ [ending])[index p]? = some p.error.token :=
    fun p hp => getElem?_of_within (hwithin p hp).1
  refine ⟨findings.map fun p => (index p, p.error), ?_, ?_, ?_⟩
  · rw [hsyntactic, Parser.read, List.map_map]
    exact hfindings
  · intro _ hmem
    obtain ⟨p, hp, rfl⟩ := List.mem_map.1 hmem
    exact hindex p hp
  · refine List.pairwise_map.2 ((horder hending).imp_of_mem fun {p q} hp hq hpq => ?_)
    rcases hpq with hlength | hovertakes
    case inr =>
      right
      rw [drop_of_within (hwithin q hq).1 hovertakes.ne_nil]
      exact hovertakes.append [ending]
    have hle : index p ≤ index q := Nat.sub_le_sub_left hlength _
    refine .inl ⟨hle, ?_⟩
    rcases Nat.lt_or_eq_of_le hle with hlt | heq
    · obtain ⟨hp', hpt⟩ := List.getElem?_eq_some_iff.1 (hindex p hp)
      obtain ⟨hq', hqt⟩ := List.getElem?_eq_some_iff.1 (hindex q hq)
      rw [← hpt, ← hqt]
      exact List.pairwise_iff_getElem.1 hlines (index p) (index q) hp' hq' hlt
    · have htoken := (hindex p hp).symm.trans (heq ▸ hindex q hq)
      rw [Option.some.inj htoken]

/-- A script with errors of both groups: two characters that are no tokens, two statements with a part
missing, and two targets one of which is in the value of the other. -/
theorem ofSource_errors_inOrder_both :
    let source := "print @;\n#\nprint ;\n1\n= 2\n= 3;"
    let lexical : List LexicalError := [⟨.unexpectedCharacter, 1⟩, ⟨.unexpectedCharacter, 2⟩]
    let syntactic : List SyntaxError := [⟨.expected .expression, ⟨.semicolon, ";", 1⟩⟩,
      ⟨.expected .expression, ⟨.semicolon, ";", 3⟩⟩,
      ⟨.invalidAssignmentTarget, ⟨.equal, "=", 6⟩⟩, ⟨.invalidAssignmentTarget, ⟨.equal, "=", 5⟩⟩]
    ofSource .binary64 source = .error ⟨lexical, syntactic⟩ ∧
      (lexical.map (·.line)).Pairwise (· ≤ ·) ∧
      ∃ blamed : List (Nat × SyntaxError), syntactic = blamed.map (·.2) ∧
        blamed.Pairwise fun p q => p.1 ≤ q.1 ∧ p.2.token.line ≤ q.2.token.line ∨
          p.2.Overtakes q.2 ((Scan.ofSource .binary64 source).tokens.drop (q.1 + 1)) := by
  intro source lexical syntactic
  have hscan : Scan.ofSource .binary64 source =
      ⟨[⟨.keyword .print, "print", 1⟩, ⟨.semicolon, ";", 1⟩, ⟨.keyword .print, "print", 3⟩,
        ⟨.semicolon, ";", 3⟩,
        ⟨.number (Arithmetic.binary64.ofDecimal (Decimal.ofLiteral ['1'])), "1", 4⟩, ⟨.equal, "=", 5⟩,
        ⟨.number (Arithmetic.binary64.ofDecimal (Decimal.ofLiteral ['2'])), "2", 5⟩, ⟨.equal, "=", 6⟩,
        ⟨.number (Arithmetic.binary64.ofDecimal (Decimal.ofLiteral ['3'])), "3", 6⟩,
        ⟨.semicolon, ";", 6⟩, Token.ending 6], lexical⟩ := by decide +kernel
  have h : ofSource .binary64 source = .error ⟨lexical, syntactic⟩ := by
    rw [ofSource, hscan]
    rfl
  obtain ⟨-, hlines, blamed, hblamed, -, horder⟩ := ofSource_errors_inOrder h
  exact ⟨h, hlines, blamed, hblamed, horder⟩

/-- The fault of the outer target is listed behind that of the inner one, which is on a later line. -/
theorem ofSource_nested_targets :
    ∃ r, ofSource .binary64 "1\n= 2\n= 3;" = .error r ∧ r.lexical = [] ∧
      r.syntactic = [⟨.invalidAssignmentTarget, ⟨.equal, "=", 3⟩⟩,
        ⟨.invalidAssignmentTarget, ⟨.equal, "=", 2⟩⟩] ∧
      ¬ (r.syntactic.map (·.token.line)).Pairwise (· ≤ ·) := by
  have hscan : Scan.ofSource .binary64 "1\n= 2\n= 3;" =
      ⟨[⟨.number (Arithmetic.binary64.ofDecimal (Decimal.ofLiteral ['1'])), "1", 1⟩, ⟨.equal, "=", 2⟩,
        ⟨.number (Arithmetic.binary64.ofDecimal (Decimal.ofLiteral ['2'])), "2", 2⟩, ⟨.equal, "=", 3⟩,
        ⟨.number (Arithmetic.binary64.ofDecimal (Decimal.ofLiteral ['3'])), "3", 3⟩,
        ⟨.semicolon, ";", 3⟩, Token.ending 3], []⟩ := by decide +kernel
  refine ⟨⟨[], [⟨.invalidAssignmentTarget, ⟨.equal, "=", 3⟩⟩,
    ⟨.invalidAssignmentTarget, ⟨.equal, "=", 2⟩⟩]⟩, ?_, rfl, rfl, by decide⟩
  rw [ofSource, hscan]
  rfl

end Program

end LoxScript
