import LoxScript.Proofs.Syntax.FirstError
import LoxScript.Proofs.Syntax.FunctionBody

/-!
# Results outside of functions

A `return` is reported as out of place only if no function body is open before it. What counts are the tokens
since reading began or last resumed: where an error stops a declaration in the middle of a function body,
reading resumes outside of it, and what is left of the body is read as if it stood at the top of the script.

## Main definitions

* `Parser.Finding.OutOfBody`: a `return` that is reported, with no function body open before it.
* `Parser.Guarded`: a parser all reports of which on `return`s are of this form.
* `Parser.Restart`: where reading begins or resumes.

## Main statements

* `Parser.guarded_item`: statements and declarations.
* `Program.ofTokens_misplaced`: the `return`s that are reported in a list of tokens.
-/

namespace LoxScript

/-- Whether an error is that a `return` is not in a function. -/
def SyntaxError.isMisplaced (e : SyntaxError) : Bool := e.problem = .returnOutsideFunction

namespace Parser

open Grammar

variable {α β : Type} {ctx : Context} {ts mid rest : List Token} {quiet : Bool}

/-- The error blames a `return` at its place, one of the tokens that were passed, and no function body is
open behind the tokens before it. -/
def Finding.OutOfBody (ts rest : List Token) (p : Finding) : Prop :=
  ∃ before keyword after, ts = before ++ p.place ∧ p.place = keyword :: after ∧ rest <:+ after ∧
    keyword.kind = .keyword .return ∧ p.error = ⟨.returnOutsideFunction, keyword⟩ ∧ ¬ OpenBody before

/-- What a parser answers that reads on from `ts`: it opens no function body that is not closed again, and
each `return` that it reports is out of every function body. It reports none if it is `quiet`. -/
structure Reply.Guarded (quiet : Bool) (ts : List Token) (reply : Reply α) : Prop where
  passed : ∃ w, ts = w ++ reply.rest ∧ ∀ a, reply.outcome = .ok a → Sealed w
  reports : ∃ findings : List Finding,
    reply.reports.filter SyntaxError.isMisplaced = findings.map (·.error) ∧
    (∀ p ∈ findings, p.OutOfBody ts reply.rest) ∧
    findings.Pairwise (fun p q => q.place.length < p.place.length) ∧ (quiet → findings = [])

/-- A parser all answers of which are guarded. In a function body it reports no `return`. -/
def Guarded (quiet : Bool) (p : Parser α) : Prop :=
  ∀ ⦃ctx ts⦄, ctx.ending.kind = .endOfInput → (p ctx ts).Guarded (quiet || ctx.inFunction) ts

/-! ## Replies -/

/-- An answer that reports no `return`. -/
theorem Reply.guarded_of_none {reply : Reply α} {w : List Token} (hts : ts = w ++ reply.rest)
    (hw : ∀ a, reply.outcome = .ok a → Sealed w)
    (h : reply.reports.filter SyntaxError.isMisplaced = []) : reply.Guarded quiet ts :=
  ⟨⟨w, hts, hw⟩, [], h, List.forall_mem_nil _, .nil, fun _ => rfl⟩

/-- An answer without reports that leaves all tokens. -/
theorem Reply.guarded_of_stay {outcome : Except SyntaxError α} :
    (⟨[], ts, outcome⟩ : Reply α).Guarded quiet ts :=
  guarded_of_none (w := []) rfl (fun _ _ => sealed_nil) rfl

theorem Finding.OutOfBody.behind {p : Finding} (h : p.OutOfBody mid rest) {w : List Token}
    (hw : Sealed w) : p.OutOfBody (w ++ mid) rest := by
  obtain ⟨before, keyword, after, rfl, hplace, hrest, hkind, herror, hopen⟩ := h
  exact ⟨w ++ before, keyword, after, by simp, hplace, hrest, hkind, herror,
    fun h => hopen (hw before h)⟩

/-- Tokens that open no function body may stand in front. -/
theorem Reply.Guarded.behind {reply : Reply α} (h : reply.Guarded quiet mid) {w : List Token}
    (hw : Sealed w) : reply.Guarded quiet (w ++ mid) := by
  obtain ⟨⟨v, rfl, hv⟩, findings, hreports, hfindings, horder, hquiet⟩ := h
  refine ⟨⟨w ++ v, by simp, fun a ha => hw.append (hv a ha)⟩, findings, hreports, fun p hp => ?_,
    horder, hquiet⟩
  exact (hfindings p hp).behind hw

theorem Reply.Guarded.cons {reply : Reply α} (h : reply.Guarded quiet ts) {t : Token}
    (ht : t.kind ≠ .keyword .fun) : reply.Guarded quiet (t :: ts) :=
  h.behind (sealed_singleton ht)

/-- A part is passed, and reading goes on behind it. -/
theorem Reply.Guarded.append {first : List SyntaxError} {a : α} {reply : Reply β}
    (h : (⟨first, mid, .ok a⟩ : Reply α).Guarded quiet ts) (hreply : reply.Guarded quiet mid) :
    (⟨first ++ reply.reports, reply.rest, reply.outcome⟩ : Reply β).Guarded quiet ts := by
  obtain ⟨⟨w, rfl, hw⟩, before, hfirst, hbefore, horder, hquiet⟩ := h
  dsimp only at hw hfirst hbefore
  obtain ⟨hpassed, behind, hreports, hbehind, horder', hquiet'⟩ := hreply
  obtain ⟨v, rfl, hv⟩ := hpassed
  refine ⟨⟨w ++ v, by simp, fun b hb => (hw a rfl).append (hv b hb)⟩, before ++ behind, ?_,
    List.forall_mem_append.2 ⟨fun p hp => ?_, fun p hp => (hbehind p hp).behind (hw a rfl)⟩,
    List.pairwise_append.2 ⟨horder, horder', fun p hp q hq => ?_⟩, fun h => ?_⟩
  · rw [List.filter_append, hfirst, hreports, List.map_append]
  · obtain ⟨begun, keyword, after, hts, hplace, hrest, hfound⟩ := hbefore p hp
    exact ⟨begun, keyword, after, hts, hplace, (List.suffix_append v reply.rest).trans hrest, hfound⟩
  · -- the first part passed the places of its reports, and the second part comes behind it
    obtain ⟨-, keyword, after, -, hplace, hrest, -⟩ := hbefore p hp
    obtain ⟨begun, -, -, hts, -⟩ := hbehind q hq
    have hlength : q.place.length ≤ (v ++ reply.rest).length := by simp [hts]
    rw [hplace, List.length_cons]
    exact Nat.lt_succ_of_le (hlength.trans hrest.length_le)
  · rw [hquiet h, hquiet' h]
    rfl

theorem Guarded.mono {p : Parser α} (h : Guarded true p) : Guarded quiet p := by
  intro ctx ts hctx
  obtain ⟨hpassed, findings, hreports, hfindings, horder, hquiet⟩ := @h ctx ts hctx
  exact ⟨hpassed, findings, hreports, hfindings, horder, fun _ => hquiet rfl⟩

theorem guarded_pure (a : α) : Guarded quiet (pure a) := fun _ _ _ => Reply.guarded_of_stay

theorem guarded_fail (what : Expectation) : Guarded quiet (fail what : Parser α) :=
  fun _ _ _ => Reply.guarded_of_stay

theorem Guarded.bind {p : Parser α} {next : α → Parser β} (hp : Guarded quiet p)
    (hnext : ∀ a, Guarded quiet (next a)) : Guarded quiet (p >>= next) := by
  intro ctx ts hctx
  have h := @hp ctx ts hctx
  change (Parser.bind p next ctx ts).Guarded _ ts
  unfold Parser.bind
  rcases hreply : p ctx ts with ⟨first, mid, e | a⟩ <;> rw [hreply] at h
  · obtain ⟨⟨w, hts, -⟩, hreports⟩ := h
    exact ⟨⟨w, hts, nofun⟩, hreports⟩
  · exact h.append (hnext a hctx)

theorem Guarded.map {p : Parser α} (hp : Guarded quiet p) (g : α → β) : Guarded quiet (g <$> p) :=
  hp.bind fun a => guarded_pure (g a)

theorem guarded_ite {c : Prop} [Decidable c] {p q : Parser α} (hp : Guarded quiet p)
    (hq : Guarded quiet q) : Guarded quiet (if c then p else q) := by
  split
  · exact hp
  · exact hq

theorem Guarded.insideFunction {p : Parser α} (hp : Guarded false p) :
    Guarded true (insideFunction p) :=
  fun ctx ts hctx => @hp { ctx with inFunction := true } ts hctx

/-! ## Single tokens -/

theorem guarded_peek : Guarded quiet peek := fun _ _ _ => Reply.guarded_of_stay

/-- The keyword of a function is passed only by the declaration of one. -/
theorem guarded_take? {accepts : Token.Kind → Bool} (h : accepts (.keyword .fun) = false) :
    Guarded quiet (take? accepts) := by
  intro ctx ts _
  cases ts with
  | nil => exact Reply.guarded_of_stay
  | cons t ts =>
    rw [take?_cons]
    split
    case isTrue haccepts =>
      refine Reply.guarded_of_stay.cons fun hkind => ?_
      rw [hkind, h] at haccepts
      cases haccepts
    case isFalse => exact Reply.guarded_of_stay

theorem guarded_expect {kind : Token.Kind} (h : kind ≠ .keyword .fun) (what : Expectation) :
    Guarded quiet (expect kind what) := by
  refine (guarded_take? (by simpa [eq_comm] using h)).bind fun found => ?_
  cases found with
  | none => exact guarded_fail what
  | some t => exact guarded_pure t

theorem guarded_semicolon (what : Expectation) : Guarded quiet (semicolon what) :=
  (guarded_expect (by decide) _).bind fun _ => guarded_pure ()

theorem guarded_passes {kind : Token.Kind} (h : kind ≠ .keyword .fun) : Guarded quiet (passes kind) :=
  (guarded_take? (by simpa [eq_comm] using h)).bind fun _ => guarded_pure _

/-- The check before a parameter. -/
theorem guarded_check {count : Nat} {next : Unit → Parser α} (hnext : Guarded quiet (next ())) :
    Guarded quiet
      (if maxArity ≤ count then peek >>= fun t => report .tooManyParameters t >>= next
        else next ()) := by
  have hreport (t : Token) : Guarded quiet (report .tooManyParameters t) := fun _ _ _ =>
    Reply.guarded_of_none (w := []) rfl (fun _ _ => sealed_nil) rfl
  exact guarded_ite (guarded_peek.bind fun t => (hreport t).bind fun _ => hnext) hnext

/-! ## Expressions -/

/-- There is neither a function nor a `return` in an expression. -/
theorem guarded_expression (bound : Nat) : Guarded quiet (expression bound) := by
  intro ctx ts hctx
  obtain ⟨⟨w, hw⟩, -, findings, hreports, hfindings, -⟩ := orderly_expression bound ctx ts
  refine Reply.guarded_of_none (w := w) hw.symm (fun e he => ?_) (List.filter_eq_nil_iff.2 fun e he => ?_)
  · rcases hreply : expression bound ctx ts with ⟨reports, rest, outcome⟩
    rw [hreply] at he hw
    obtain rfl : outcome = .ok e := he
    obtain ⟨v, hv, hphrase⟩ := expression_reads bound hctx hreply
    obtain rfl : w = v := List.append_cancel_right (hw.trans hv)
    refine sealed_of_no_keyword fun t ht hkind => ?_
    simpa [Plain, hkind, startsStatement] using hphrase.plain t ht
  · rw [hreports] at he
    obtain ⟨p, hp, rfl⟩ := List.mem_map.1 he
    rcases (hfindings p hp).2.2 with hproblem | hproblem <;>
      simp [SyntaxError.isMisplaced, hproblem]

/-! ## Statements -/

section Statements

theorem guarded_optional {c : Prop} [Decidable c] {p : Parser Expr} {next : Option Expr → Parser β}
    (hp : Guarded quiet p) (hnext : ∀ value, Guarded quiet (next value)) :
    Guarded quiet (if c then pure none >>= next else (some <$> p) >>= next) :=
  guarded_ite ((guarded_pure none).bind hnext) ((hp.map some).bind hnext)

theorem guarded_block {declaration : Parser Stmt} (h : Guarded quiet declaration) (bound : Nat) :
    Guarded quiet (block declaration bound) := by
  induction bound with
  | zero => exact guarded_fail _
  | succ bound ih =>
    exact guarded_peek.bind fun _ => guarded_ite
      ((guarded_expect (by decide) _).bind fun _ => guarded_pure [])
      (h.bind fun _ => ih.bind fun _ => guarded_pure _)

theorem guarded_parameters (bound count : Nat) : Guarded quiet (parameters bound count) := by
  induction bound generalizing count with
  | zero => exact guarded_fail _
  | succ bound ih =>
    unfold parameters
    refine guarded_check ((guarded_expect (by decide) _).bind fun _ => ?_)
    refine (guarded_take? (by decide)).bind fun found => ?_
    cases found with
    | none => exact guarded_pure _
    | some _ => exact (ih (count + 1)).bind fun _ => guarded_pure _

theorem guarded_parameterList (bound : Nat) : Guarded quiet (parameterList bound) :=
  guarded_peek.bind fun _ => guarded_ite (guarded_pure _) (guarded_parameters bound 0)

/-- What is nested in a statement is guarded. -/
structure Nested.Guarded (nested : Nested) : Prop where
  expression : ∀ quiet, Parser.Guarded quiet nested.expression
  statement : Parser.Guarded false nested.statement
  declaration : Parser.Guarded false nested.declaration

variable {nested : Nested} (h : nested.Guarded)

include h

/-- No `return` is out of place in a function, neither in its body nor in front of it. -/
theorem guarded_functionDeclaration (bound : Nat) : Guarded true (functionDeclaration nested bound) :=
  (guarded_expect (by decide) _).bind fun _ => (guarded_expect (by decide) _).bind fun _ =>
    (guarded_parameterList bound).bind fun _ => (guarded_expect (by decide) _).bind fun _ =>
      (guarded_expect (by decide) _).bind fun _ =>
        (guarded_block h.declaration bound).insideFunction.bind fun _ => guarded_pure _

theorem guarded_variableDeclaration : Guarded false (variableDeclaration nested) := by
  refine (guarded_expect (by decide) _).bind fun _ => (guarded_passes (by decide)).bind fun found => ?_
  cases found with
  | false => exact (guarded_pure none).bind fun _ => (guarded_semicolon _).bind fun _ => guarded_pure _
  | true =>
    exact ((h.expression _).map some).bind fun _ => (guarded_semicolon _).bind fun _ => guarded_pure _

theorem guarded_expressionStatement : Guarded false (expressionStatement nested) :=
  (h.expression _).bind fun _ => (guarded_semicolon _).bind fun _ => guarded_pure _

theorem guarded_printed : Guarded false (printed nested) :=
  (h.expression _).bind fun _ => (guarded_semicolon _).bind fun _ => guarded_pure _

/-- A `return` is reported outside of functions, where no body is open before it. -/
theorem guarded_result {keyword : Token} (hkeyword : keyword.kind = .keyword .return)
    (hctx : ctx.ending.kind = .endOfInput) :
    (result nested keyword ctx ts).Guarded ctx.inFunction (keyword :: ts) := by
  have hnext : Guarded false (peek >>= fun t =>
      if t.kind = .semicolon then pure none >>= fun value =>
        semicolon .semicolonAfterResult >>= fun _ => pure (Stmt.result keyword value)
      else (some <$> nested.expression) >>= fun value =>
        semicolon .semicolonAfterResult >>= fun _ => pure (Stmt.result keyword value)) :=
    guarded_peek.bind fun _ => guarded_optional (h.expression _) fun _ =>
      (guarded_semicolon _).bind fun _ => guarded_pure _
  have hpassed : keyword.kind ≠ .keyword .fun := by simp [hkeyword]
  unfold result
  rw [inFunction_bind_apply]
  -- in the body of a function nothing is reported, and `return` opens no body
  split
  case isTrue houtside =>
    have hfound : (⟨[⟨.returnOutsideFunction, keyword⟩], ts, .ok ()⟩ : Reply Unit).Guarded
        ctx.inFunction (keyword :: ts) := by
      refine ⟨⟨[keyword], rfl, fun _ _ => sealed_singleton hpassed⟩,
        [⟨keyword :: ts, ⟨.returnOutsideFunction, keyword⟩⟩], rfl, ?_, List.pairwise_singleton .., ?_⟩
      · exact List.forall_mem_singleton.2
          ⟨[], keyword, ts, rfl, rfl, List.suffix_refl _, hkeyword, rfl, not_openBody_nil⟩
      · simp_all
    exact hfound.append (hnext hctx)
  case isFalse => exact (hnext hctx).cons hpassed

theorem guarded_conditional : Guarded false (conditional nested) := by
  refine (guarded_expect (by decide) _).bind fun _ => (h.expression _).bind fun _ =>
    (guarded_expect (by decide) _).bind fun _ => h.statement.bind fun _ =>
      (guarded_passes (by decide)).bind fun found => ?_
  cases found with
  | false => exact guarded_pure _
  | true => exact h.statement.bind fun _ => guarded_pure _

theorem guarded_whileLoop : Guarded false (whileLoop nested) :=
  (guarded_expect (by decide) _).bind fun _ => (h.expression _).bind fun _ =>
    (guarded_expect (by decide) _).bind fun _ => h.statement.bind fun _ => guarded_pure _

theorem guarded_initializer : Guarded false (initializer nested) := by
  refine (guarded_passes (by decide)).bind fun empty => guarded_ite (guarded_pure _) ?_
  exact (guarded_passes (by decide)).bind fun declared => guarded_ite
    ((guarded_variableDeclaration h).map some) ((guarded_expressionStatement h).map some)

theorem guarded_forLoop : Guarded false (forLoop nested) :=
  (guarded_expect (by decide) _).bind fun _ => (guarded_initializer h).bind fun _ =>
    guarded_peek.bind fun _ => guarded_optional (h.expression _) fun _ =>
      (guarded_semicolon _).bind fun _ => guarded_peek.bind fun _ =>
        guarded_optional (h.expression _) fun _ => (guarded_expect (by decide) _).bind fun _ =>
          h.statement.bind fun _ => guarded_pure _

theorem guarded_statementWith (bound : Nat) : Guarded false (statementWith nested bound) := by
  intro ctx ts hctx
  rcases ts with - | ⟨t, ts⟩
  · rw [statementWith_nil hctx]
    exact guarded_expressionStatement h hctx
  · rw [statementWith_cons]
    -- the keyword or the brace is no beginning of a function
    let Good (reply : Reply Stmt) : Prop := reply.Guarded (false || ctx.inFunction) (t :: ts)
    change Good _
    split
    case h_1 ht => exact (guarded_printed h hctx).cons (by simp [ht])
    case h_2 ht => exact ((guarded_block h.declaration bound).map _ hctx).cons (by simp [ht])
    case h_3 ht => exact (guarded_conditional h hctx).cons (by simp [ht])
    case h_4 ht => exact (guarded_whileLoop h hctx).cons (by simp [ht])
    case h_5 ht => exact (guarded_forLoop h hctx).cons (by simp [ht])
    case h_6 ht => exact guarded_result h ht hctx
    case h_7 => exact guarded_expressionStatement h hctx

/-- A function declaration that is read as a whole closes its body. -/
theorem guarded_declarationWith {bound : Nat}
    (hreads : ReadsStatements Declaration (declarationWith nested bound)) :
    Guarded false (declarationWith nested bound) := by
  intro ctx ts hctx
  rcases ts with - | ⟨t, ts⟩
  · rw [declarationWith_nil hctx]
    exact guarded_expressionStatement h hctx
  · have hread := @hreads ctx (t :: ts)
    rw [declarationWith_cons] at hread ⊢
    let Good (reply : Reply Stmt) : Prop :=
      (∀ reports rest s, reply = ⟨reports, rest, .ok s⟩ → ∃ w dangling, t :: ts = w ++ rest ∧
        Declaration ctx.inFunction dangling w s reports) →
      reply.Guarded (false || ctx.inFunction) (t :: ts)
    -- that a body is closed again is known of declarations that are read, not of their parsers
    suffices hgood : Good _ from hgood fun reports rest s hreply => by
      obtain ⟨w, dangling, hw, hs, -⟩ := hread hctx hreply
      exact ⟨w, dangling, hw, hs⟩
    split
    case h_1 ht => exact fun _ => (guarded_variableDeclaration h hctx).cons (by simp [ht])
    case h_2 ht =>
      intro hread
      obtain ⟨⟨w, hw, -⟩, findings, hreports, -, -, hquiet⟩ :=
        @guarded_functionDeclaration nested h bound ctx ts hctx
      rw [hquiet rfl] at hreports
      refine Reply.guarded_of_none (w := t :: w) (congrArg (t :: ·) hw) (fun s hs => ?_) hreports
      rcases hreply : functionDeclaration nested bound ctx ts with ⟨reports, rest, outcome⟩
      rw [hreply] at hs hw
      obtain rfl : outcome = .ok s := hs
      obtain ⟨v, dangling, hv, hfunction⟩ := hread _ _ _ hreply
      obtain rfl : t :: w = v := List.append_cancel_right ((congrArg (t :: ·) hw).symm.trans hv)
      exact sealed_function ht hfunction
    case h_3 => exact fun _ => guarded_statementWith h bound hctx

omit h

theorem guarded_item (bound : Nat) (declarations : Bool) : Guarded false (item bound declarations) := by
  induction bound generalizing declarations with
  | zero => exact guarded_fail _
  | succ bound ih =>
    have hnested : Nested.Guarded ⟨expression (bound + 1), item bound false, item bound true⟩ :=
      ⟨fun _ => guarded_expression _, ih false, ih true⟩
    exact guarded_ite (guarded_declarationWith hnested (item_reads (bound + 1)).2)
      (guarded_statementWith hnested _)

end Statements

/-! ## Whole scripts -/

section Programs

variable {ending e : Token} {w passed : List Token} {bound : Nat}

/-- `Restart ending w ts`: when the tokens `w` are read, reading begins with `ts`, or it resumes there after
an error. -/
inductive Restart (ending : Token) (w : List Token) : List Token → Prop where
  | start : Restart ending w w
  | again {ts rest : List Token} {e : SyntaxError} (h : Restart ending w ts)
      (hstop : FirstStop ending ts rest e) : Restart ending w (resume rest)

theorem Restart.suffix (h : Restart ending w ts) : ts <:+ w := by
  induction h with
  | start => exact List.suffix_refl _
  | again _ hstop ih => exact ((resume_suffix _).trans hstop.suffix).trans ih

/-- Reading resumes only after a first error that stops it. -/
theorem Restart.eq_or_stops (h : Restart ending w ts) :
    ts = w ∨ ∃ rest e, FirstStop ending w rest e := by
  induction h with
  | start => exact .inl rfl
  | again _ hstop ih =>
    rcases ih with rfl | hfirst
    · exact .inr ⟨_, _, hstop⟩
    · exact .inr hfirst

theorem FirstStop.unique {rest rest' : List Token} {e e' : SyntaxError}
    (h : FirstStop ending ts rest e) (h' : FirstStop ending ts rest' e') : rest = rest' ∧ e = e' := by
  induction h with
  | here _ hread =>
    cases h' with
    | here _ hread' =>
      cases hread.symm.trans hread'
      exact ⟨rfl, rfl⟩
    | later _ hread' => cases hread.symm.trans hread'
  | later _ hread _ ih =>
    cases h' with
    | here _ hread' => cases hread.symm.trans hread'
    | later _ hread' hmid =>
      cases hread.symm.trans hread'
      exact ih hmid

/-- Where a declaration is read, reading stops behind it. -/
theorem firstStop_iff_of_ok {reports : List SyntaxError} {s : Stmt} (hts : ts ≠ [])
    (hread : declaration ts.length ⟨ending, false⟩ ts = ⟨reports, mid, .ok s⟩) {e : SyntaxError} :
    FirstStop ending ts rest e ↔ FirstStop ending mid rest e := by
  constructor
  · intro h
    cases h with
    | here _ hread' => cases hread.symm.trans hread'
    | later _ hread' hmid =>
      cases hread.symm.trans hread'
      exact hmid
  · exact .later hts hread

/-- The error blames a `return`. Reading began or resumed with `passed` in front of it, reached it before
the next error that stops a declaration, and no function body is open behind `passed`. -/
def Finding.Misplaced (ending : Token) (w : List Token) (p : Finding) : Prop :=
  ∃ passed keyword after, p.place = keyword :: after ∧ keyword.kind = .keyword .return ∧
    p.error = ⟨.returnOutsideFunction, keyword⟩ ∧ Restart ending w (passed ++ p.place) ∧
    (∀ rest e, FirstStop ending (passed ++ p.place) rest e → rest <:+ after) ∧ ¬ OpenBody passed

theorem Finding.OutOfBody.misplaced {p : Finding} (h : p.OutOfBody ts rest)
    (hstart : Restart ending w (passed ++ ts)) (hpassed : Sealed passed)
    (hstop : ∀ last e, FirstStop ending (passed ++ ts) last e → last <:+ rest) :
    p.Misplaced ending w ∧ p.place <:+ ts ∧ rest.length < p.place.length := by
  obtain ⟨before, keyword, after, rfl, hplace, hrest, hkind, herror, hopen⟩ := h
  rw [← List.append_assoc] at hstart hstop
  refine ⟨⟨passed ++ before, keyword, after, hplace, hkind, herror, hstart, fun last e h => ?_,
    fun h => hopen (hpassed before h)⟩, List.suffix_append _ _, ?_⟩
  · exact (hstop last e h).trans hrest
  · rw [hplace]
    exact Nat.lt_succ_of_le hrest.length_le

/-- The reports on `return`s among these errors have their places in `ts` before `rest`, in order. -/
def FindsMisplaced (ending : Token) (w ts rest : List Token) (errors : List SyntaxError) : Prop :=
  ∃ findings : List Finding, errors.filter SyntaxError.isMisplaced = findings.map (·.error) ∧
    (∀ p ∈ findings, p.Misplaced ending w ∧ p.place <:+ ts ∧ rest.length < p.place.length) ∧
    findings.Pairwise fun p q => q.place.length < p.place.length

theorem findsMisplaced_nil : FindsMisplaced ending w ts rest [] :=
  ⟨[], rfl, List.forall_mem_nil _, .nil⟩

/-- The reports of a turn, and those of all turns behind it. -/
theorem FindsMisplaced.append {next last : List Token} {errors more : List SyntaxError}
    (h : FindsMisplaced ending w ts rest errors) (hmore : FindsMisplaced ending w next last more)
    (hnext : next <:+ rest) (hrest : rest <:+ ts) (hlast : last.length ≤ rest.length) :
    FindsMisplaced ending w ts last (errors ++ more) := by
  obtain ⟨findings, herrors, hfindings, horder⟩ := h
  obtain ⟨behind, hmore, hbehind, horder'⟩ := hmore
  refine ⟨findings ++ behind, by rw [List.filter_append, herrors, hmore, List.map_append],
    List.forall_mem_append.2 ⟨fun p hp => ?_, fun p hp => ?_⟩,
    List.pairwise_append.2 ⟨horder, horder', fun p hp q hq => ?_⟩⟩
  · obtain ⟨hmisplaced, hplace, hlength⟩ := hfindings p hp
    exact ⟨hmisplaced, hplace, Nat.lt_of_le_of_lt hlast hlength⟩
  · obtain ⟨hmisplaced, hplace, hlength⟩ := hbehind p hp
    exact ⟨hmisplaced, (hplace.trans hnext).trans hrest, hlength⟩
  · have hlength := ((hbehind q hq).2.1.trans hnext).length_le
    exact Nat.lt_of_le_of_lt hlength (hfindings p hp).2.2

/-- The reports on `return`s, when reading goes on with `ts` and has begun or resumed with `passed` in front
of it. -/
theorem readWithin_misplaced (hending : ending.kind = .endOfInput) (hbound : ts.length ≤ bound)
    (hstart : Restart ending w (passed ++ ts)) (hpassed : Sealed passed)
    (hstop : ∀ rest e, FirstStop ending (passed ++ ts) rest e ↔ FirstStop ending ts rest e) :
    FindsMisplaced ending w ts [] (readWithin ending bound ts).errors := by
  induction bound generalizing passed ts with
  | zero =>
    obtain rfl : ts = [] := by simpa using hbound
    exact findsMisplaced_nil
  | succ bound ih =>
    by_cases hts : ts = []
    · subst hts
      rw [readWithin_nil]
      exact findsMisplaced_nil
    have hguarded := @guarded_item ts.length true ⟨ending, false⟩ ts hending
    rcases hread : declaration ts.length ⟨ending, false⟩ ts with ⟨reports, rest, e | s⟩
    all_goals
      rw [← declaration, hread] at hguarded
      obtain ⟨⟨v, hv, hsealed⟩, findings, hreports, hfindings, horder, -⟩ := hguarded
      replace hv : ts = v ++ rest := hv
      have hrest : rest <:+ ts := hv ▸ List.suffix_append v rest
    · rw [readWithin_of_error hts hread]
      have hhere : FirstStop ending ts rest e := .here hts hread
      have hfirst : FindsMisplaced ending w ts rest (reports ++ [e]) := by
        refine ⟨findings, ?_, fun p hp => ?_, horder⟩
        · obtain ⟨⟨what, rfl⟩, -⟩ := hhere.viable hending
          rw [List.filter_append, hreports]
          exact List.append_nil _
        · refine (hfindings p hp).misplaced hstart hpassed fun last e' h => ?_
          obtain ⟨rfl, -⟩ := ((hstop _ _).1 h).unique hhere
          exact List.suffix_refl _
      -- behind the error nothing has been passed
      have hagain : Restart ending w ([] ++ resume rest) := hstart.again ((hstop _ _).2 hhere)
      have hshort := length_resume_le rest
      have hpos := List.length_pos_iff.2 hts
      have hothers := ih (by have := hrest.length_le; omega) hagain sealed_nil fun _ _ => Iff.rfl
      rw [List.append_cons]
      exact hfirst.append hothers (resume_suffix rest) hrest (Nat.zero_le _)
    · rw [readWithin_of_ok hts hread]
      have hbehind (last : List Token) (e : SyntaxError) :
          FirstStop ending (passed ++ ts) last e ↔ FirstStop ending rest last e :=
        (hstop last e).trans (firstStop_iff_of_ok hts hread)
      have hfirst : FindsMisplaced ending w ts rest reports :=
        ⟨findings, hreports, fun p hp => (hfindings p hp).misplaced hstart hpassed fun last e h =>
          ((hbehind last e).1 h).suffix, horder⟩
      -- a declaration has a token, and it opens no function body
      obtain ⟨u, dangling, hu, hs, -⟩ := (item_reads _).2 hending hread
      have hpos := List.length_pos_iff.2 hs.ne_nil
      have hlength := congrArg List.length hu
      rw [List.length_append] at hlength
      rw [hv, ← List.append_assoc] at hstart hbehind
      have hothers := ih (by omega) hstart (hpassed.append (hsealed s rfl)) hbehind
      exact hfirst.append hothers (List.suffix_refl _) hrest (Nat.zero_le _)

end Programs

end Parser

open LoxScript.Grammar LoxScript.Parser

namespace Program

/-- In a rejected list of tokens, a `return` is reported as out of place only where no function body is open
behind the tokens in front of it, counted from where reading began or last resumed. Where no error stops
reading, these are all tokens in front of it. Each `return` is reported at most once, and in order. -/
theorem ofTokens_misplaced {ts : List Token} {errors : List SyntaxError}
    (h : ofTokens ts = .error errors) :
    ∃ findings : List Finding, errors.filter SyntaxError.isMisplaced = findings.map (·.error) ∧
      (∀ p ∈ findings, ∃ before passed keyword after,
        Token.content ts = before ++ (passed ++ keyword :: after) ∧ keyword.kind = .keyword .return ∧
        p = ⟨keyword :: after, ⟨.returnOutsideFunction, keyword⟩⟩ ∧
        Restart (Token.endingOf ts) (Token.content ts) (passed ++ keyword :: after) ∧
        (∀ rest e, FirstStop (Token.endingOf ts) (passed ++ keyword :: after) rest e → rest <:+ after) ∧
        ¬ OpenBody passed ∧ ((∀ e ∈ errors, ¬ e.problem.stops) → before = [])) ∧
      findings.Pairwise fun p q => q.place.length < p.place.length := by
  have hending := Token.endingOf_kind ts
  obtain ⟨rfl, -⟩ := ofTokens_eq_error_iff.1 h
  -- reading begins with nothing passed, and nothing opens no body
  generalize Token.content ts = w
  generalize Token.endingOf ts = ending at hending
  obtain ⟨findings, hfindings, hall, horder⟩ :=
    readWithin_misplaced hending (Nat.le_refl w.length) (show Restart ending w ([] ++ w) from .start)
      sealed_nil fun _ _ => Iff.rfl
  refine ⟨findings, hfindings, fun p hp => ?_, horder⟩
  obtain ⟨⟨passed, keyword, after, hplace, hkind, herror, hstart, hstop, hopen⟩, -, -⟩ := hall p hp
  obtain ⟨place, e⟩ := p
  obtain rfl : place = keyword :: after := hplace
  obtain rfl : e = ⟨.returnOutsideFunction, keyword⟩ := herror
  obtain ⟨before, hbefore⟩ := hstart.suffix
  refine ⟨before, passed, keyword, after, hbefore.symm, hkind, rfl, hstart, hstop, hopen, fun h => ?_⟩
  rcases hstart.eq_or_stops with heq | ⟨rest, e, hfirst⟩
  · simpa [heq] using hbefore
  · -- the first error that stops reading is in the list
    rcases readWithin_firstStop hending (Nat.le_refl w.length) with
      ⟨rest', e', reports, others, hstop', herrors, -⟩ | ⟨-, hreadable⟩
    · obtain ⟨⟨what, rfl⟩, -⟩ := hstop'.viable hending
      have hmem : (⟨.expected what, rest'.head?.getD ending⟩ : SyntaxError) ∈
          (Parser.read ending w).errors := by
        rw [Parser.read, herrors]
        exact List.mem_append_right _ (List.mem_cons_self ..)
      exact absurd rfl (h _ hmem)
    · obtain ⟨begun, rfl⟩ := hfirst.suffix
      exact absurd hreadable (hfirst.not_readable hending rfl rest rfl)

/-- A `return` behind the body of a function is reported. So are one in what is left over of a body that an
error interrupts, and one behind the next function, whose own `return` is not. -/
theorem ofTokens_misplaced_behind_body :
    let keyword (line : Nat) : Token := ⟨.keyword .return, "return", line⟩
    let semi (line : Nat) : Token := ⟨.semicolon, ";", line⟩
    let close (line : Nat) : Token := ⟨.rightBrace, "\x7d", line⟩
    let header (line : Nat) : List Token := [⟨.keyword .fun, "fun", line⟩, ⟨.identifier, "f", line⟩,
      ⟨.leftParen, "(", line⟩, ⟨.rightParen, ")", line⟩, ⟨.leftBrace, "\x7b", line⟩]
    let ts := header 1 ++ [close 1, keyword 2, semi 2]
    let interrupted := header 1 ++ [⟨.keyword .print, "print", 2⟩, semi 2, keyword 3, semi 3, close 4] ++
      header 5 ++ [keyword 6, semi 6, close 7, keyword 8, semi 8]
    ofTokens ts = .error [⟨.returnOutsideFunction, keyword 2⟩] ∧
      (∃ passed after, Token.content ts = passed ++ keyword 2 :: after ∧ ¬ OpenBody passed) ∧
      ofTokens interrupted = .error [⟨.expected .expression, semi 2⟩, ⟨.returnOutsideFunction, keyword 3⟩,
        ⟨.expected .expression, close 4⟩, ⟨.returnOutsideFunction, keyword 8⟩] ∧
      ∀ line ∈ [3, 8], ∃ before passed after, before ≠ [] ∧
        Token.content interrupted = before ++ (passed ++ keyword line :: after) ∧
        Restart (Token.endingOf interrupted) (Token.content interrupted)
          (passed ++ keyword line :: after) ∧ ¬ OpenBody passed := by
  intro keyword semi close header ts interrupted
  have hread : (Parser.read (Token.endingOf ts) (Token.content ts)).errors =
      [⟨.returnOutsideFunction, keyword 2⟩] := by decide +kernel
  have h : ofTokens ts = .error [⟨.returnOutsideFunction, keyword 2⟩] :=
    ofTokens_eq_error_iff.2 ⟨hread, List.cons_ne_nil _ _⟩
  have hread' : (Parser.read (Token.endingOf interrupted) (Token.content interrupted)).errors =
      [⟨.expected .expression, semi 2⟩, ⟨.returnOutsideFunction, keyword 3⟩,
        ⟨.expected .expression, close 4⟩, ⟨.returnOutsideFunction, keyword 8⟩] := by decide +kernel
  have h' := ofTokens_eq_error_iff.2 ⟨hread', List.cons_ne_nil _ _⟩
  refine ⟨h, ?_, h', fun line hline => ?_⟩
  · obtain ⟨findings, hfindings, hall, -⟩ := ofTokens_misplaced h
    have hmem : (⟨.returnOutsideFunction, keyword 2⟩ : SyntaxError) ∈ findings.map (·.error) :=
      hfindings ▸ List.mem_singleton_self _
    obtain ⟨p, hp, herror⟩ := List.mem_map.1 hmem
    obtain ⟨before, passed, keyword', after, hts, -, rfl, -, -, hopen, hnone⟩ := hall p hp
    obtain rfl : keyword' = keyword 2 := (SyntaxError.mk.inj herror).2
    obtain rfl := hnone (by simp [SyntaxError.Problem.stops])
    exact ⟨passed, after, hts, hopen⟩
  · have hlines : line = 3 ∨ line = 8 := by simpa using hline
    obtain ⟨findings, hfindings, hall, -⟩ := ofTokens_misplaced h'
    have hmem : (⟨.returnOutsideFunction, keyword line⟩ : SyntaxError) ∈ findings.map (·.error) := by
      rw [← hfindings]
      rcases hlines with rfl | rfl <;> decide
    obtain ⟨p, hp, herror⟩ := List.mem_map.1 hmem
    obtain ⟨before, passed, keyword', after, hts, -, rfl, hstart, hstop, hopen, -⟩ := hall p hp
    obtain rfl : keyword' = keyword line := (SyntaxError.mk.inj herror).2
    refine ⟨before, passed, after, ?_, hts, hstart, hopen⟩
    -- the first error stops reading in front of both, so reading resumed between it and them
    rintro rfl
    have hfirst : FirstStop (Token.endingOf interrupted) (Token.content interrupted)
        (semi 2 :: keyword 3 :: semi 3 :: close 4 ::
          (header 5 ++ [keyword 6, semi 6, close 7, keyword 8, semi 8]))
        ⟨.expected .expression, semi 2⟩ := .here (List.cons_ne_nil _ _) rfl
    have hafter : keyword line ∈ after := by
      refine (hstop _ _ (hts ▸ hfirst)).subset ?_
      rcases hlines with rfl | rfl <;> decide
    have hcount : (Token.content interrupted).count (keyword line) = 1 := by
      rcases hlines with rfl | rfl <;> decide
    have hpos := List.count_pos_iff.2 hafter
    rw [hts] at hcount
    simp at hcount
    omega

/-- In a function body that an error interrupts, a `return` is reported all the same. -/
theorem ofTokens_misplaced_in_body :
    let keyword : Token := ⟨.keyword .return, "return", 1⟩
    let semi : Token := ⟨.semicolon, ";", 1⟩
    let close : Token := ⟨.rightBrace, "\x7d", 1⟩
    let before : List Token := [⟨.keyword .fun, "fun", 1⟩, ⟨.identifier, "f", 1⟩, ⟨.leftParen, "(", 1⟩,
      ⟨.rightParen, ")", 1⟩, ⟨.leftBrace, "\x7b", 1⟩, ⟨.keyword .print, "print", 1⟩, semi]
    OpenBody before ∧ ofTokens (before ++ keyword :: [semi, close]) =
      .error [⟨.expected .expression, semi⟩, ⟨.returnOutsideFunction, keyword⟩,
        ⟨.expected .expression, close⟩] := by
  intro keyword semi close before
  have hopen : OpenBody before :=
    .head rfl rfl rfl rfl .none rfl rfl (keepsOpen_of_no_close (by decide))
  have hread : (Parser.read (Token.endingOf (before ++ keyword :: [semi, close]))
      (Token.content (before ++ keyword :: [semi, close]))).errors =
        [⟨.expected .expression, semi⟩, ⟨.returnOutsideFunction, keyword⟩,
          ⟨.expected .expression, close⟩] := by decide +kernel
  exact ⟨hopen, ofTokens_eq_error_iff.2 ⟨hread, List.cons_ne_nil _ _⟩⟩

end Program

end LoxScript
