import LoxScript.Proofs.Syntax.Grammar
import LoxScript.Syntax.Program

/-!
# Replies without an error

When a parser answers with a value. Each parser has one statement here, an equivalence: what the tokens
ahead, the reports and the value must be. Read from left to right these statements take a reading apart,
read from right to left they put one together.

## Main statements

* `Parser.bind_eq_ok_iff`: two parsers in a row.
* `Parser.take?_bind_eq_ok_iff`, `Parser.expect_bind_eq_ok_iff`, `Parser.passes_bind_eq_ok_iff`: single
  tokens in front of a parser.
* `Parser.statementWith_cons`, `Parser.declarationWith_cons`: what the first token decides.
-/

namespace LoxScript.Parser

variable {α β : Type} {ctx : Context} {ts rest : List Token} {reports : List SyntaxError}

/-- The kind of the next token. -/
def kindAhead (ctx : Context) (ts : List Token) : Token.Kind := (ts.head?.getD ctx.ending).kind

@[simp]
theorem kindAhead_cons (ctx : Context) (t : Token) (ts : List Token) :
    kindAhead ctx (t :: ts) = t.kind := rfl

@[simp]
theorem kindAhead_nil (ctx : Context) : kindAhead ctx [] = ctx.ending.kind := rfl

theorem bind_eq_ok_iff {p : Parser α} {next : α → Parser β} {b : β} :
    (p >>= next) ctx ts = ⟨reports, rest, .ok b⟩ ↔
      ∃ first mid a others, p ctx ts = ⟨first, mid, .ok a⟩ ∧
        next a ctx mid = ⟨others, rest, .ok b⟩ ∧ reports = first ++ others := by
  change Parser.bind p next ctx ts = _ ↔ _
  unfold Parser.bind
  rcases hp : p ctx ts with ⟨first, mid, e | a⟩
  · simp
  · rcases hn : next a ctx mid with ⟨others, last, outcome⟩
    simp only [hn, Reply.mk.injEq, Except.ok.injEq]
    constructor
    · rintro ⟨rfl, rfl, rfl⟩
      exact ⟨first, mid, a, others, ⟨rfl, rfl, rfl⟩, hn, rfl⟩
    · rintro ⟨_, _, _, _, ⟨rfl, rfl, rfl⟩, hb, rfl⟩
      rw [hn] at hb
      cases hb
      exact ⟨rfl, rfl, rfl⟩

@[simp]
theorem pure_apply (a : α) : (pure a : Parser α) ctx ts = ⟨[], ts, .ok a⟩ := rfl

theorem pure_eq_ok_iff {a b : α} :
    (pure a : Parser α) ctx ts = ⟨reports, rest, .ok b⟩ ↔ reports = [] ∧ rest = ts ∧ b = a := by
  simp [eq_comm]

theorem bind_pure_eq_ok_iff {p : Parser α} {g : α → β} {b : β} :
    (p >>= fun a => pure (g a)) ctx ts = ⟨reports, rest, .ok b⟩ ↔
      ∃ a, p ctx ts = ⟨reports, rest, .ok a⟩ ∧ b = g a := by
  simp only [bind_eq_ok_iff, pure_eq_ok_iff]
  constructor
  · rintro ⟨_, _, a, _, hp, ⟨rfl, rfl, rfl⟩, rfl⟩
    exact ⟨a, by simpa using hp, rfl⟩
  · rintro ⟨a, hp, rfl⟩
    exact ⟨_, _, a, [], hp, ⟨rfl, rfl, rfl⟩, by simp⟩

theorem map_eq_ok_iff {p : Parser α} {g : α → β} {b : β} :
    (g <$> p) ctx ts = ⟨reports, rest, .ok b⟩ ↔
      ∃ a, p ctx ts = ⟨reports, rest, .ok a⟩ ∧ b = g a :=
  bind_pure_eq_ok_iff

/-- A parser that reports nothing hands its value on. -/
theorem bind_apply_of_eq_ok {p : Parser α} {next : α → Parser β} {a : α} {mid : List Token}
    (h : p ctx ts = ⟨[], mid, .ok a⟩) : (p >>= next) ctx ts = next a ctx mid := by
  change Parser.bind p next ctx ts = _
  unfold Parser.bind
  simp [h]

theorem peek_bind_apply (next : Token → Parser β) :
    (peek >>= next) ctx ts = next (ts.head?.getD ctx.ending) ctx ts :=
  bind_apply_of_eq_ok rfl

theorem skip_bind_apply (next : Unit → Parser β) :
    (skip >>= next) ctx ts = next () ctx (ts.drop 1) :=
  bind_apply_of_eq_ok rfl

theorem inFunction_bind_apply (next : Bool → Parser β) :
    (inFunction >>= next) ctx ts = next ctx.inFunction ctx ts :=
  bind_apply_of_eq_ok rfl

theorem report_bind_apply (problem : SyntaxError.Problem) (t : Token) (next : Unit → Parser β) :
    (report problem t >>= next) ctx ts =
      let reply := next () ctx ts
      ⟨⟨problem, t⟩ :: reply.reports, reply.rest, reply.outcome⟩ := rfl

theorem fail_ne_ok {what : Expectation} {a : α} :
    (fail what : Parser α) ctx ts ≠ ⟨reports, rest, .ok a⟩ := by
  simp [fail]

theorem take?_cons (accepts : Token.Kind → Bool) (t : Token) :
    take? accepts ctx (t :: ts) =
      if accepts t.kind then ⟨[], ts, .ok (some t)⟩ else ⟨[], t :: ts, .ok none⟩ := rfl

/-- A token that may be there: it is passed, or the next one is another. -/
theorem take?_bind_eq_ok_iff {accepts : Token.Kind → Bool} {next : Option Token → Parser β} {b : β} :
    (take? accepts >>= next) ctx ts = ⟨reports, rest, .ok b⟩ ↔
      (∃ t mid, accepts t.kind ∧ ts = t :: mid ∧
        next (some t) ctx mid = ⟨reports, rest, .ok b⟩) ∨
      (∀ t ∈ ts.head?, ¬ accepts t.kind) ∧ next none ctx ts = ⟨reports, rest, .ok b⟩ := by
  rcases ts with - | ⟨u, ts⟩
  · rw [bind_apply_of_eq_ok rfl]
    simp
  · by_cases h : accepts u.kind
    · rw [bind_apply_of_eq_ok (if_pos h)]
      constructor
      · intro hnext
        exact .inl ⟨u, ts, h, rfl, hnext⟩
      · rintro (⟨_, _, -, ⟨⟩, hnext⟩ | ⟨hn, -⟩)
        · exact hnext
        · exact absurd h (hn u rfl)
    · rw [bind_apply_of_eq_ok (if_neg h)]
      constructor
      · intro hnext
        exact .inr ⟨by simpa using h, hnext⟩
      · rintro (⟨_, _, hk, ⟨⟩, -⟩ | ⟨-, hnext⟩)
        · exact absurd hk h
        · exact hnext

/-- A token that must be there. -/
theorem expect_bind_eq_ok_iff {kind : Token.Kind} {what : Expectation} {next : Token → Parser β}
    {b : β} :
    (expect kind what >>= next) ctx ts = ⟨reports, rest, .ok b⟩ ↔
      ∃ t mid, t.kind = kind ∧ ts = t :: mid ∧ next t ctx mid = ⟨reports, rest, .ok b⟩ := by
  rw [bind_eq_ok_iff]
  constructor
  -- the token was taken, since `expect` fails where it was not
  · rintro ⟨first, mid, t, others, h, hnext, rfl⟩
    rcases take?_bind_eq_ok_iff.1 h with ⟨u, mid', hkind, rfl, hpure⟩ | ⟨-, hfail⟩
    · obtain ⟨rfl, rfl, rfl⟩ := pure_eq_ok_iff.1 hpure
      exact ⟨t, mid, by simpa using hkind, rfl, hnext⟩
    · exact absurd hfail fail_ne_ok
  · rintro ⟨t, mid, hkind, rfl, hnext⟩
    have h : expect kind what ctx (t :: mid) = ⟨[], mid, .ok t⟩ :=
      take?_bind_eq_ok_iff.2 (.inl ⟨t, mid, by simpa using hkind, rfl, rfl⟩)
    exact ⟨[], mid, t, reports, h, hnext, rfl⟩

theorem semicolon_bind_eq_ok_iff {what : Expectation} {next : Unit → Parser β} {b : β} :
    (semicolon what >>= next) ctx ts = ⟨reports, rest, .ok b⟩ ↔
      ∃ t mid, t.kind = .semicolon ∧ ts = t :: mid ∧ next () ctx mid = ⟨reports, rest, .ok b⟩ := by
  rw [bind_eq_ok_iff]
  constructor
  · rintro ⟨first, mid, _, others, h, hnext, rfl⟩
    obtain ⟨t, _, hkind, rfl, hpure⟩ := expect_bind_eq_ok_iff.1 h
    obtain ⟨rfl, rfl, -⟩ := pure_eq_ok_iff.1 hpure
    exact ⟨t, mid, hkind, rfl, hnext⟩
  · rintro ⟨t, mid, hkind, rfl, hnext⟩
    exact ⟨[], mid, (), reports, expect_bind_eq_ok_iff.2 ⟨t, mid, hkind, rfl, rfl⟩, hnext, rfl⟩

/-- Whether a token is there: it is passed, or the next one is another. -/
theorem passes_bind_eq_ok_iff {kind : Token.Kind} {next : Bool → Parser β} {b : β} :
    (passes kind >>= next) ctx ts = ⟨reports, rest, .ok b⟩ ↔
      (∃ t mid, t.kind = kind ∧ ts = t :: mid ∧ next true ctx mid = ⟨reports, rest, .ok b⟩) ∨
      (∀ t ∈ ts.head?, t.kind ≠ kind) ∧ next false ctx ts = ⟨reports, rest, .ok b⟩ := by
  rw [bind_eq_ok_iff]
  constructor
  · rintro ⟨first, mid, found, others, h, hnext, rfl⟩
    rcases take?_bind_eq_ok_iff.1 h with ⟨t, mid', hkind, rfl, hpure⟩ | ⟨hn, hpure⟩
    · obtain ⟨rfl, rfl, rfl⟩ := pure_eq_ok_iff.1 hpure
      exact .inl ⟨t, mid, by simpa using hkind, rfl, hnext⟩
    · obtain ⟨rfl, rfl, rfl⟩ := pure_eq_ok_iff.1 hpure
      exact .inr ⟨by simpa using hn, hnext⟩
  · rintro (⟨t, mid, hkind, rfl, hnext⟩ | ⟨hn, hnext⟩)
    · exact ⟨[], mid, true, reports,
        take?_bind_eq_ok_iff.2 (.inl ⟨t, mid, by simpa using hkind, rfl, rfl⟩), hnext, rfl⟩
    · exact ⟨[], ts, false, reports,
        take?_bind_eq_ok_iff.2 (.inr ⟨by simpa using hn, rfl⟩), hnext, rfl⟩

/-! ### Expressions -/

section Expressions

open Grammar

variable {t : Token} {e : Expr} {nested : Parser Expr}

theorem primary_literal {value : Literal} (ht : literal? t.kind = some value) :
    primary nested ctx (t :: ts) = ⟨[], ts, .ok (.literal value)⟩ := by
  unfold primary
  rw [peek_bind_apply, List.head?_cons, Option.getD_some]
  unfold literal? at ht
  split at ht <;> simp_all [skip_bind_apply]

theorem primary_variable (ht : t.kind = .identifier) :
    primary nested ctx (t :: ts) = ⟨[], ts, .ok (.variable t)⟩ := by
  unfold primary
  rw [peek_bind_apply, List.head?_cons, Option.getD_some, ht]
  rfl

theorem primary_grouping_iff (ht : t.kind = .leftParen) :
    primary nested ctx (t :: ts) = ⟨reports, rest, .ok e⟩ ↔
      ∃ inner r, nested ctx ts = ⟨reports, r :: rest, .ok inner⟩ ∧ r.kind = .rightParen ∧
        e = .grouping inner := by
  unfold primary
  rw [peek_bind_apply, List.head?_cons, Option.getD_some, ht]
  simp only [skip_bind_apply, List.drop_one, List.tail_cons]
  constructor
  · intro h
    obtain ⟨first, _, inner, _, hinner, hclose, rfl⟩ := bind_eq_ok_iff.1 h
    obtain ⟨r, _, hr, rfl, hpure⟩ := expect_bind_eq_ok_iff.1 hclose
    obtain ⟨rfl, rfl, rfl⟩ := pure_eq_ok_iff.1 hpure
    exact ⟨inner, r, by simpa using hinner, hr, rfl⟩
  · rintro ⟨inner, r, hinner, hr, rfl⟩
    refine bind_eq_ok_iff.2 ⟨reports, _, inner, [], hinner, ?_, by simp⟩
    exact expect_bind_eq_ok_iff.2 ⟨r, rest, hr, rfl, rfl⟩

/-- Nothing else is complete in itself. -/
theorem startsPrimary_of_primary (hctx : ctx.ending.kind = .endOfInput)
    (h : primary nested ctx ts = ⟨reports, rest, .ok e⟩) :
    ∃ t ts', ts = t :: ts' ∧ StartsPrimary t.kind := by
  unfold primary at h
  rw [peek_bind_apply] at h
  rcases ts with - | ⟨t, ts⟩
  · simp [hctx, fail] at h
  · refine ⟨t, ts, rfl, ?_⟩
    rw [List.head?_cons, Option.getD_some] at h
    obtain ⟨kind, lexeme, line⟩ := t
    -- every other kind makes `primary` fail
    cases kind
    case keyword word => cases word <;> simp_all [StartsPrimary, literal?, fail]
    all_goals simp_all [StartsPrimary, literal?, fail]

/-- The check before an item of a list reports the fault of the item, and nothing else happens. -/
theorem check_eq_ok_iff {α : Type} {problem : SyntaxError.Problem} {count : Nat}
    (next : Unit → Parser α) {a : α} :
    (if maxArity ≤ count then peek >>= fun t => report problem t >>= next else next ())
        ctx ts = ⟨reports, rest, .ok a⟩ ↔
      ∃ others, next () ctx ts = ⟨others, rest, .ok a⟩ ∧
        reports = excess problem count [ts.head?.getD ctx.ending] ++ others := by
  unfold excess
  split
  · rw [peek_bind_apply, report_bind_apply]
    rcases next () ctx ts with ⟨others, last, outcome⟩
    simp
    grind
  · simp

/-- An argument with what follows it: nothing, or a comma and further arguments. -/
theorem arguments_succ_eq_ok_iff {bound count : Nat} {es : List Expr} :
    arguments nested (bound + 1) count ctx ts = ⟨reports, rest, .ok es⟩ ↔
      ∃ first mid e, nested ctx ts = ⟨first, mid, .ok e⟩ ∧
        ((es = [e] ∧ rest = mid ∧ (∀ t ∈ mid.head?, t.kind ≠ .comma) ∧
            reports = excess .tooManyArguments count [ts.head?.getD ctx.ending] ++ first) ∨
          ∃ comma mid' others es', comma.kind = .comma ∧ mid = comma :: mid' ∧
            arguments nested bound (count + 1) ctx mid' = ⟨others, rest, .ok es'⟩ ∧
            es = e :: es' ∧
            reports = excess .tooManyArguments count [ts.head?.getD ctx.ending] ++
              (first ++ others)) := by
  rw [arguments]
  refine (check_eq_ok_iff _).trans ?_
  constructor
  -- from a reading to its parts
  · rintro ⟨_, h, rfl⟩
    obtain ⟨first, mid, e, _, he, hnext, rfl⟩ := bind_eq_ok_iff.1 h
    refine ⟨first, mid, e, he, ?_⟩
    rcases take?_bind_eq_ok_iff.1 hnext with ⟨comma, mid', hcomma, rfl, hmore⟩ | ⟨hn, hpure⟩
    · obtain ⟨others, _, es', _, hes, hpure, rfl⟩ := bind_eq_ok_iff.1 hmore
      obtain ⟨rfl, rfl, rfl⟩ := pure_eq_ok_iff.1 hpure
      exact .inr ⟨comma, mid', others, es', by simpa using hcomma, rfl, hes, rfl, by simp⟩
    · obtain ⟨rfl, rfl, rfl⟩ := pure_eq_ok_iff.1 hpure
      exact .inl ⟨rfl, rfl, by simpa using hn, by simp⟩
  -- and back: first the item, then what follows it
  · rintro ⟨first, mid, e, he, ⟨rfl, rfl, hn, rfl⟩ |
      ⟨comma, mid', others, es', hcomma, rfl, hes, rfl, rfl⟩⟩
    · refine ⟨first, bind_eq_ok_iff.2 ⟨first, rest, e, [], he, ?_, by simp⟩, rfl⟩
      exact take?_bind_eq_ok_iff.2 (.inr ⟨by simpa using hn, rfl⟩)
    · refine ⟨first ++ others, bind_eq_ok_iff.2 ⟨first, _, e, others, he, ?_, rfl⟩, rfl⟩
      refine take?_bind_eq_ok_iff.2 (.inl ⟨comma, mid', by simpa using hcomma, rfl, ?_⟩)
      exact bind_pure_eq_ok_iff.2 ⟨es', hes, rfl⟩

/-- A further call, or the end of the calls. -/
theorem calls_succ_eq_ok_iff {bound : Nat} {callee : Expr} :
    calls nested (bound + 1) callee ctx ts = ⟨reports, rest, .ok e⟩ ↔
      (e = callee ∧ rest = ts ∧ (∀ t ∈ ts.head?, t.kind ≠ .leftParen) ∧ reports = []) ∨
      ∃ l r mid mid' args first others, l.kind = .leftParen ∧ ts = l :: mid ∧
        argumentList nested bound ctx mid = ⟨first, r :: mid', .ok args⟩ ∧ r.kind = .rightParen ∧
        calls nested bound (.call callee r args) ctx mid' = ⟨others, rest, .ok e⟩ ∧
        reports = first ++ others := by
  rw [calls, take?_bind_eq_ok_iff]
  constructor
  · rintro (⟨l, mid, hl, rfl, hcall⟩ | ⟨hn, hpure⟩)
    · obtain ⟨first, _, args, _, hargs, hclose, rfl⟩ := bind_eq_ok_iff.1 hcall
      obtain ⟨r, mid', hr, rfl, hcalls⟩ := expect_bind_eq_ok_iff.1 hclose
      exact .inr ⟨l, r, mid, mid', args, first, _, by simpa using hl, rfl, hargs, hr, hcalls, rfl⟩
    · obtain ⟨rfl, rfl, rfl⟩ := pure_eq_ok_iff.1 hpure
      exact .inl ⟨rfl, rfl, by simpa using hn, rfl⟩
  · rintro (⟨rfl, rfl, hn, rfl⟩ | ⟨l, r, mid, mid', args, first, others, hl, rfl, hargs, hr, hcalls,
      rfl⟩)
    · exact .inr ⟨by simpa using hn, rfl⟩
    · refine .inl ⟨l, mid, by simpa using hl, rfl, ?_⟩
      refine bind_eq_ok_iff.2 ⟨first, _, args, others, hargs, ?_, rfl⟩
      exact expect_bind_eq_ok_iff.2 ⟨r, mid', hr, rfl, hcalls⟩

/-- An operator in front of an operand, or a call. -/
theorem unary_succ_eq_ok_iff {bound : Nat} :
    unary nested (bound + 1) ctx ts = ⟨reports, rest, .ok e⟩ ↔
      (∃ op mid operand, isUnaryOperator op.kind ∧ ts = op :: mid ∧
        unary nested bound ctx mid = ⟨reports, rest, .ok operand⟩ ∧ e = .unary op operand) ∨
      ((∀ t ∈ ts.head?, ¬ isUnaryOperator t.kind) ∧ ∃ mid callee first others,
        primary nested ctx ts = ⟨first, mid, .ok callee⟩ ∧
        calls nested bound callee ctx mid = ⟨others, rest, .ok e⟩ ∧ reports = first ++ others) := by
  rw [unary, take?_bind_eq_ok_iff]
  constructor
  · rintro (⟨op, mid, hop, rfl, hpure⟩ | ⟨hn, hcall⟩)
    · obtain ⟨operand, hoperand, rfl⟩ := bind_pure_eq_ok_iff.1 hpure
      exact .inl ⟨op, mid, operand, hop, rfl, hoperand, rfl⟩
    · obtain ⟨first, mid, callee, others, hprimary, hcalls, rfl⟩ := bind_eq_ok_iff.1 hcall
      exact .inr ⟨hn, mid, callee, first, others, hprimary, hcalls, rfl⟩
  · rintro (⟨op, mid, operand, hop, rfl, hoperand, rfl⟩ |
      ⟨hn, mid, callee, first, others, hprimary, hcalls, rfl⟩)
    · exact .inl ⟨op, mid, hop, rfl, bind_pure_eq_ok_iff.2 ⟨operand, hoperand, rfl⟩⟩
    · exact .inr ⟨hn, bind_eq_ok_iff.2 ⟨first, mid, callee, others, hprimary, hcalls, rfl⟩⟩

/-- A further operator with its operand, or the end of the chain. -/
theorem chainFrom_succ_eq_ok_iff {isOperator : Token.Kind → Bool} {node : Token → Expr → Expr → Expr}
    {operand : Parser Expr} {bound : Nat} {left : Expr} :
    chainFrom isOperator node operand (bound + 1) left ctx ts = ⟨reports, rest, .ok e⟩ ↔
      (e = left ∧ rest = ts ∧ (∀ t ∈ ts.head?, ¬ isOperator t.kind) ∧ reports = []) ∨
      ∃ op mid mid' right first others, isOperator op.kind ∧ ts = op :: mid ∧
        operand ctx mid = ⟨first, mid', .ok right⟩ ∧
        chainFrom isOperator node operand bound (node op left right) ctx mid' =
          ⟨others, rest, .ok e⟩ ∧
        reports = first ++ others := by
  rw [chainFrom, take?_bind_eq_ok_iff]
  constructor
  · rintro (⟨op, mid, hop, rfl, hmore⟩ | ⟨hn, hpure⟩)
    · obtain ⟨first, mid', right, others, hright, hchain, rfl⟩ := bind_eq_ok_iff.1 hmore
      exact .inr ⟨op, mid, mid', right, first, others, hop, rfl, hright, hchain, rfl⟩
    · obtain ⟨rfl, rfl, rfl⟩ := pure_eq_ok_iff.1 hpure
      exact .inl ⟨rfl, rfl, hn, rfl⟩
  · rintro (⟨rfl, rfl, hn, rfl⟩ | ⟨op, mid, mid', right, first, others, hop, rfl, hright, hchain, rfl⟩)
    · exact .inr ⟨hn, rfl⟩
    · exact .inl ⟨op, mid, hop, rfl, bind_eq_ok_iff.2 ⟨first, mid', right, others, hright, hchain, rfl⟩⟩

/-- An assignment to a variable, an assignment to something else, or none. -/
theorem assignment_eq_ok_iff {bound : Nat} :
    assignment nested bound ctx ts = ⟨reports, rest, .ok e⟩ ↔
      ∃ target mid first, disjunction nested bound ctx ts = ⟨first, mid, .ok target⟩ ∧
        ((e = target ∧ rest = mid ∧ (∀ t ∈ mid.head?, t.kind ≠ .equal) ∧ reports = first) ∨
          ∃ op mid' value others, op.kind = .equal ∧ mid = op :: mid' ∧
            nested ctx mid' = ⟨others, rest, .ok value⟩ ∧
            ((∃ name, target = .variable name ∧ e = .assign name value ∧
                reports = first ++ others) ∨
              ((∀ name, target ≠ .variable name) ∧ e = target ∧
                reports = first ++ (others ++ [⟨.invalidAssignmentTarget, op⟩])))) := by
  unfold assignment
  rw [bind_eq_ok_iff]
  constructor
  · rintro ⟨first, mid, target, _, htarget, hnext, rfl⟩
    refine ⟨target, mid, first, htarget, ?_⟩
    rcases take?_bind_eq_ok_iff.1 hnext with ⟨op, mid', hop, rfl, hassign⟩ | ⟨hn, hpure⟩
    · obtain ⟨others, _, value, _, hvalue, hend, rfl⟩ := bind_eq_ok_iff.1 hassign
      refine .inr ⟨op, mid', value, others, by simpa using hop, rfl, ?_⟩
      -- only a variable can be assigned to
      cases target
      case «variable» name =>
        obtain ⟨rfl, rfl, rfl⟩ := pure_eq_ok_iff.1 hend
        exact ⟨hvalue, .inl ⟨name, rfl, rfl, by simp⟩⟩
      all_goals
        cases hend
        exact ⟨hvalue, .inr ⟨by simp, rfl, by simp⟩⟩
    · obtain ⟨rfl, rfl, rfl⟩ := pure_eq_ok_iff.1 hpure
      exact .inl ⟨rfl, rfl, by simpa using hn, by simp⟩
  · rintro ⟨target, mid, first, htarget, ⟨rfl, rfl, hn, rfl⟩ |
      ⟨op, mid', value, others, hop, rfl, hvalue, hend⟩⟩
    · exact ⟨_, _, _, [], htarget, take?_bind_eq_ok_iff.2 (.inr ⟨by simpa using hn, rfl⟩), by simp⟩
    · have htake : decide (op.kind = .equal) = true := by simpa using hop
      rcases hend with ⟨name, rfl, rfl, rfl⟩ | ⟨hvariable, rfl, rfl⟩
      · refine ⟨first, _, _, others, htarget, ?_, rfl⟩
        refine take?_bind_eq_ok_iff.2 (.inl ⟨op, mid', htake, rfl, ?_⟩)
        exact bind_pure_eq_ok_iff.2 ⟨value, hvalue, rfl⟩
      · refine ⟨first, _, _, others ++ [⟨.invalidAssignmentTarget, op⟩], htarget, ?_, rfl⟩
        refine take?_bind_eq_ok_iff.2 (.inl ⟨op, mid', htake, rfl, ?_⟩)
        refine bind_eq_ok_iff.2 ⟨others, rest, value, _, hvalue, ?_, rfl⟩
        cases e
        case «variable» name => exact absurd rfl (hvariable name)
        all_goals rfl

end Expressions

/-! ### Statements -/

section Statements

open Grammar

variable {nested : Nested} {s : Stmt}

/-- An expression unless the next token is of the given kind. -/
def ReadsOptional (p : Parser Expr) (kind : Token.Kind) (ctx : Context) (ts : List Token)
    (reports : List SyntaxError) (rest : List Token) (e? : Option Expr) : Prop :=
  (kindAhead ctx ts = kind ∧ e? = none ∧ rest = ts ∧ reports = []) ∨
    (kindAhead ctx ts ≠ kind ∧ ∃ e, e? = some e ∧ p ctx ts = ⟨reports, rest, .ok e⟩)

theorem optional_bind_eq_ok_iff {p : Parser Expr} {kind : Token.Kind}
    (next : Option Expr → Parser α) {a : α} :
    (peek >>= fun t => if t.kind = kind then pure none >>= next else (some <$> p) >>= next)
        ctx ts = ⟨reports, rest, .ok a⟩ ↔
      ∃ first mid e? others, ReadsOptional p kind ctx ts first mid e? ∧
        next e? ctx mid = ⟨others, rest, .ok a⟩ ∧ reports = first ++ others := by
  rw [peek_bind_apply]
  unfold ReadsOptional kindAhead
  by_cases h : (ts.head?.getD ctx.ending).kind = kind
  · rw [if_pos h]
    simp only [bind_eq_ok_iff, pure_eq_ok_iff]
    constructor
    · rintro ⟨_, _, _, _, ⟨rfl, rfl, rfl⟩, hnext, rfl⟩
      exact ⟨[], _, none, _, .inl ⟨h, rfl, rfl, rfl⟩, hnext, rfl⟩
    · rintro ⟨_, _, _, _, ⟨-, rfl, rfl, rfl⟩ | ⟨hn, -⟩, hnext, rfl⟩
      · exact ⟨[], _, none, _, ⟨rfl, rfl, rfl⟩, hnext, rfl⟩
      · exact absurd h hn
  · rw [if_neg h]
    simp only [bind_eq_ok_iff, map_eq_ok_iff]
    constructor
    · rintro ⟨first, mid, _, others, ⟨e, he, rfl⟩, hnext, rfl⟩
      exact ⟨first, mid, some e, others, .inr ⟨h, e, rfl, he⟩, hnext, rfl⟩
    · rintro ⟨first, mid, _, others, ⟨hn, -⟩ | ⟨-, e, rfl, he⟩, hnext, rfl⟩
      · exact absurd hn h
      · exact ⟨first, mid, some e, others, ⟨e, he, rfl⟩, hnext, rfl⟩

/-- An expression with a semicolon behind it. -/
theorem terminated_eq_ok_iff {p : Parser Expr} {what : Expectation} {node : Expr → Stmt} :
    (p >>= fun e => semicolon what >>= fun _ => pure (node e)) ctx ts = ⟨reports, rest, .ok s⟩ ↔
      ∃ e semi, p ctx ts = ⟨reports, semi :: rest, .ok e⟩ ∧ semi.kind = .semicolon ∧
        s = node e := by
  constructor
  · intro h
    obtain ⟨first, _, e, _, he, hend, rfl⟩ := bind_eq_ok_iff.1 h
    obtain ⟨semi, _, hsemi, rfl, hpure⟩ := semicolon_bind_eq_ok_iff.1 hend
    obtain ⟨rfl, rfl, rfl⟩ := pure_eq_ok_iff.1 hpure
    exact ⟨e, semi, by simpa using he, hsemi, rfl⟩
  · rintro ⟨e, semi, he, hsemi, rfl⟩
    refine bind_eq_ok_iff.2 ⟨reports, _, e, [], he, ?_, by simp⟩
    exact semicolon_bind_eq_ok_iff.2 ⟨semi, rest, hsemi, rfl, rfl⟩

theorem expressionStatement_eq_ok_iff :
    expressionStatement nested ctx ts = ⟨reports, rest, .ok s⟩ ↔
      ∃ e semi, nested.expression ctx ts = ⟨reports, semi :: rest, .ok e⟩ ∧ semi.kind = .semicolon ∧
        s = .expression e :=
  terminated_eq_ok_iff

theorem printed_eq_ok_iff :
    printed nested ctx ts = ⟨reports, rest, .ok s⟩ ↔
      ∃ e semi, nested.expression ctx ts = ⟨reports, semi :: rest, .ok e⟩ ∧ semi.kind = .semicolon ∧
        s = .print e :=
  terminated_eq_ok_iff

theorem variableDeclaration_eq_ok_iff :
    variableDeclaration nested ctx ts = ⟨reports, rest, .ok s⟩ ↔
      ∃ name mid, name.kind = .identifier ∧ ts = name :: mid ∧
        ((∃ semi, semi.kind = .semicolon ∧ mid = semi :: rest ∧ s = .var name none ∧
            reports = []) ∨
          ∃ op mid' e semi, op.kind = .equal ∧ mid = op :: mid' ∧
            nested.expression ctx mid' = ⟨reports, semi :: rest, .ok e⟩ ∧
            semi.kind = .semicolon ∧ s = .var name (some e)) := by
  unfold variableDeclaration
  constructor
  · intro h
    obtain ⟨name, mid, hname, rfl, h₁⟩ := expect_bind_eq_ok_iff.1 h
    refine ⟨name, mid, hname, rfl, ?_⟩
    rcases passes_bind_eq_ok_iff.1 h₁ with ⟨op, mid', hop, rfl, hvalue⟩ | ⟨-, hnone⟩
    · obtain ⟨_, _, _, _, hmap, hend, rfl⟩ := bind_eq_ok_iff.1 hvalue
      obtain ⟨e, he, rfl⟩ := map_eq_ok_iff.1 hmap
      obtain ⟨semi, _, hsemi, rfl, hpure⟩ := semicolon_bind_eq_ok_iff.1 hend
      obtain ⟨rfl, rfl, rfl⟩ := pure_eq_ok_iff.1 hpure
      exact .inr ⟨op, mid', e, semi, hop, rfl, by simpa using he, hsemi, rfl⟩
    · obtain ⟨_, _, _, _, hpure, hend, rfl⟩ := bind_eq_ok_iff.1 hnone
      obtain ⟨rfl, rfl, rfl⟩ := pure_eq_ok_iff.1 hpure
      obtain ⟨semi, _, hsemi, rfl, hpure'⟩ := semicolon_bind_eq_ok_iff.1 hend
      obtain ⟨rfl, rfl, rfl⟩ := pure_eq_ok_iff.1 hpure'
      exact .inl ⟨semi, hsemi, rfl, rfl, rfl⟩
  · rintro ⟨name, mid, hname, rfl, hend⟩
    refine expect_bind_eq_ok_iff.2 ⟨name, mid, hname, rfl, ?_⟩
    rcases hend with ⟨semi, hsemi, rfl, rfl, rfl⟩ | ⟨op, mid', e, semi, hop, rfl, he, hsemi, rfl⟩
    · refine passes_bind_eq_ok_iff.2 (.inr ⟨by simp [hsemi], ?_⟩)
      refine bind_eq_ok_iff.2 ⟨[], _, none, [], rfl, ?_, rfl⟩
      exact semicolon_bind_eq_ok_iff.2 ⟨semi, rest, hsemi, rfl, rfl⟩
    · refine passes_bind_eq_ok_iff.2 (.inl ⟨op, mid', hop, rfl, ?_⟩)
      refine bind_eq_ok_iff.2 ⟨reports, _, some e, [], map_eq_ok_iff.2 ⟨e, he, rfl⟩, ?_, by simp⟩
      exact semicolon_bind_eq_ok_iff.2 ⟨semi, rest, hsemi, rfl, rfl⟩

/-- A parameter with what follows it: nothing, or a comma and further parameters. -/
theorem parameters_succ_eq_ok_iff {bound count : Nat} {names : List Token} :
    parameters (bound + 1) count ctx ts = ⟨reports, rest, .ok names⟩ ↔
      ∃ name mid, name.kind = .identifier ∧ ts = name :: mid ∧
        ((names = [name] ∧ rest = mid ∧ (∀ t ∈ mid.head?, t.kind ≠ .comma) ∧
            reports = excess .tooManyParameters count [name]) ∨
          ∃ comma mid' others names', comma.kind = .comma ∧ mid = comma :: mid' ∧
            parameters bound (count + 1) ctx mid' = ⟨others, rest, .ok names'⟩ ∧
            names = name :: names' ∧
            reports = excess .tooManyParameters count [name] ++ others) := by
  rw [parameters]
  refine (check_eq_ok_iff _).trans ?_
  constructor
  · rintro ⟨_, h, rfl⟩
    obtain ⟨name, mid, hname, rfl, hnext⟩ := expect_bind_eq_ok_iff.1 h
    refine ⟨name, mid, hname, rfl, ?_⟩
    rcases take?_bind_eq_ok_iff.1 hnext with ⟨comma, mid', hcomma, rfl, hmore⟩ | ⟨hn, hpure⟩
    · obtain ⟨names', hnames, rfl⟩ := bind_pure_eq_ok_iff.1 hmore
      exact .inr ⟨comma, mid', _, names', by simpa using hcomma, rfl, hnames, rfl, rfl⟩
    · obtain ⟨rfl, rfl, rfl⟩ := pure_eq_ok_iff.1 hpure
      exact .inl ⟨rfl, rfl, by simpa using hn, by simp⟩
  · rintro ⟨name, mid, hname, rfl, ⟨rfl, rfl, hn, rfl⟩ |
      ⟨comma, mid', others, names', hcomma, rfl, hnames, rfl, rfl⟩⟩
    · refine ⟨[], expect_bind_eq_ok_iff.2 ⟨name, rest, hname, rfl, ?_⟩, by simp⟩
      exact take?_bind_eq_ok_iff.2 (.inr ⟨by simpa using hn, rfl⟩)
    · refine ⟨others, expect_bind_eq_ok_iff.2 ⟨name, _, hname, rfl, ?_⟩, rfl⟩
      refine take?_bind_eq_ok_iff.2 (.inl ⟨comma, mid', by simpa using hcomma, rfl, ?_⟩)
      exact bind_pure_eq_ok_iff.2 ⟨names', hnames, rfl⟩

/-- The end of a block, or a declaration with the rest of the block. -/
theorem block_succ_eq_ok_iff {declaration : Parser Stmt} {bound : Nat} {ss : List Stmt} :
    block declaration (bound + 1) ctx ts = ⟨reports, rest, .ok ss⟩ ↔
      (∃ close, close.kind = .rightBrace ∧ ts = close :: rest ∧ ss = [] ∧ reports = []) ∨
      (kindAhead ctx ts ≠ .rightBrace ∧ kindAhead ctx ts ≠ .endOfInput ∧
        ∃ first mid s others ss', declaration ctx ts = ⟨first, mid, .ok s⟩ ∧
          block declaration bound ctx mid = ⟨others, rest, .ok ss'⟩ ∧ ss = s :: ss' ∧
          reports = first ++ others) := by
  rw [block, peek_bind_apply]
  -- at the end of the input `expect` then fails, so that only the brace is left
  by_cases h : kindAhead ctx ts = .rightBrace ∨ kindAhead ctx ts = .endOfInput
  · rw [if_pos (by simpa [kindAhead] using h), expect_bind_eq_ok_iff]
    constructor
    · rintro ⟨close, _, hclose, rfl, hpure⟩
      obtain ⟨rfl, rfl, rfl⟩ := pure_eq_ok_iff.1 hpure
      exact .inl ⟨close, hclose, rfl, rfl, rfl⟩
    · rintro (⟨close, hclose, rfl, rfl, rfl⟩ | ⟨hbrace, hend, -⟩)
      · exact ⟨close, rest, hclose, rfl, rfl⟩
      · rcases h with h | h
        · exact absurd h hbrace
        · exact absurd h hend
  · rw [if_neg (by simpa [kindAhead] using h), bind_eq_ok_iff]
    rw [not_or] at h
    constructor
    · rintro ⟨first, mid, s, others, hs, hmore, rfl⟩
      obtain ⟨ss', hss, rfl⟩ := bind_pure_eq_ok_iff.1 hmore
      exact .inr ⟨h.1, h.2, first, mid, s, others, ss', hs, hss, rfl, rfl⟩
    · rintro (⟨close, hclose, rfl, -, -⟩ | ⟨-, -, first, mid, s, others, ss', hs, hss, rfl, rfl⟩)
      · exact absurd hclose h.1
      · exact ⟨first, mid, s, others, hs, bind_pure_eq_ok_iff.2 ⟨ss', hss, rfl⟩, rfl⟩

theorem functionDeclaration_eq_ok_iff {bound : Nat} :
    functionDeclaration nested bound ctx ts = ⟨reports, rest, .ok s⟩ ↔
      ∃ name l r brace mid mid' names body first others,
        name.kind = .identifier ∧ l.kind = .leftParen ∧ ts = name :: l :: mid ∧
        parameterList bound ctx mid = ⟨first, r :: brace :: mid', .ok names⟩ ∧
        r.kind = .rightParen ∧ brace.kind = .leftBrace ∧
        block nested.declaration bound { ctx with inFunction := true } mid' =
          ⟨others, rest, .ok body⟩ ∧
        s = .function name names body ∧ reports = first ++ others := by
  unfold functionDeclaration
  constructor
  · intro h
    obtain ⟨name, _, hname, rfl, h₁⟩ := expect_bind_eq_ok_iff.1 h
    obtain ⟨l, mid, hl, rfl, h₂⟩ := expect_bind_eq_ok_iff.1 h₁
    obtain ⟨first, _, names, others, hnames, h₃, rfl⟩ := bind_eq_ok_iff.1 h₂
    obtain ⟨r, _, hr, rfl, h₄⟩ := expect_bind_eq_ok_iff.1 h₃
    obtain ⟨brace, mid', hbrace, rfl, h₅⟩ := expect_bind_eq_ok_iff.1 h₄
    obtain ⟨body, hbody, rfl⟩ := bind_pure_eq_ok_iff.1 h₅
    exact ⟨name, l, r, brace, mid, mid', names, body, first, others, hname, hl, rfl, hnames, hr, hbrace,
      hbody, rfl, rfl⟩
  · rintro ⟨name, l, r, brace, mid, mid', names, body, first, others, hname, hl, rfl, hnames, hr,
      hbrace, hbody, rfl, rfl⟩
    refine expect_bind_eq_ok_iff.2 ⟨name, _, hname, rfl, ?_⟩
    refine expect_bind_eq_ok_iff.2 ⟨l, mid, hl, rfl, ?_⟩
    refine bind_eq_ok_iff.2 ⟨first, _, names, others, hnames, ?_, rfl⟩
    refine expect_bind_eq_ok_iff.2 ⟨r, _, hr, rfl, ?_⟩
    refine expect_bind_eq_ok_iff.2 ⟨brace, mid', hbrace, rfl, ?_⟩
    exact bind_pure_eq_ok_iff.2 ⟨body, hbody, rfl⟩

/-- The check of a `return` reports the fault of the keyword, and nothing else happens. -/
theorem misplaced_eq_ok_iff {inFunction : Bool} {keyword : Token} (next : Unit → Parser α) {a : α} :
    (if (!inFunction) = true then report .returnOutsideFunction keyword >>= next else next ())
        ctx ts = ⟨reports, rest, .ok a⟩ ↔
      ∃ others, next () ctx ts = ⟨others, rest, .ok a⟩ ∧
        reports = misplaced inFunction keyword ++ others := by
  unfold misplaced
  cases inFunction
  · rw [if_pos (by rfl), report_bind_apply]
    rcases next () ctx ts with ⟨others, last, outcome⟩
    simp
    grind
  · simp

theorem result_eq_ok_iff {keyword : Token} :
    result nested keyword ctx ts = ⟨reports, rest, .ok s⟩ ↔
      ∃ value semi faults,
        ReadsOptional nested.expression .semicolon ctx ts faults (semi :: rest) value ∧
        semi.kind = .semicolon ∧ s = .result keyword value ∧
        reports = misplaced ctx.inFunction keyword ++ faults := by
  unfold result
  rw [inFunction_bind_apply]
  refine (misplaced_eq_ok_iff _).trans ?_
  constructor
  · rintro ⟨_, h, rfl⟩
    obtain ⟨faults, _, value, _, hvalue, hend, rfl⟩ := (optional_bind_eq_ok_iff _).1 h
    obtain ⟨semi, _, hsemi, rfl, hpure⟩ := semicolon_bind_eq_ok_iff.1 hend
    obtain ⟨rfl, rfl, rfl⟩ := pure_eq_ok_iff.1 hpure
    exact ⟨value, semi, faults, hvalue, hsemi, rfl, by simp⟩
  · rintro ⟨value, semi, faults, hvalue, hsemi, rfl, rfl⟩
    refine ⟨faults, (optional_bind_eq_ok_iff _).2 ⟨faults, _, value, [], hvalue, ?_, by simp⟩, rfl⟩
    exact semicolon_bind_eq_ok_iff.2 ⟨semi, rest, hsemi, rfl, rfl⟩

/-- A condition with its branch, and a second branch exactly if an `else` follows the first. -/
theorem conditional_eq_ok_iff :
    conditional nested ctx ts = ⟨reports, rest, .ok s⟩ ↔
      ∃ l r mid mid' mid'' condition body first others,
        l.kind = .leftParen ∧ ts = l :: mid ∧
        nested.expression ctx mid = ⟨first, r :: mid', .ok condition⟩ ∧ r.kind = .rightParen ∧
        nested.statement ctx mid' = ⟨others, mid'', .ok body⟩ ∧
        ((rest = mid'' ∧ (∀ t ∈ mid''.head?, t.kind ≠ .keyword .else) ∧
            s = .ifThen condition body ∧ reports = first ++ others) ∨
          ∃ keyword last otherwise more, keyword.kind = .keyword .else ∧ mid'' = keyword :: last ∧
            nested.statement ctx last = ⟨more, rest, .ok otherwise⟩ ∧
            s = .ifElse condition body otherwise ∧ reports = first ++ (others ++ more)) := by
  unfold conditional
  constructor
  · intro h
    obtain ⟨l, mid, hl, rfl, h₁⟩ := expect_bind_eq_ok_iff.1 h
    obtain ⟨first, _, condition, _, hcondition, h₂, rfl⟩ := bind_eq_ok_iff.1 h₁
    obtain ⟨r, mid', hr, rfl, h₃⟩ := expect_bind_eq_ok_iff.1 h₂
    obtain ⟨others, mid'', body, _, hbody, h₄, rfl⟩ := bind_eq_ok_iff.1 h₃
    refine ⟨l, r, mid, mid', mid'', condition, body, first, others, hl, rfl, hcondition, hr, hbody, ?_⟩
    rcases passes_bind_eq_ok_iff.1 h₄ with ⟨keyword, last, hkeyword, rfl, hmore⟩ | ⟨hn, hpure⟩
    · obtain ⟨otherwise, hotherwise, rfl⟩ := bind_pure_eq_ok_iff.1 hmore
      exact .inr ⟨keyword, last, otherwise, _, hkeyword, rfl, hotherwise, rfl, rfl⟩
    · obtain ⟨rfl, rfl, rfl⟩ := pure_eq_ok_iff.1 hpure
      exact .inl ⟨rfl, hn, rfl, by simp⟩
  · rintro ⟨l, r, mid, mid', mid'', condition, body, first, others, hl, rfl, hcondition, hr, hbody,
      hend⟩
    refine expect_bind_eq_ok_iff.2 ⟨l, mid, hl, rfl, ?_⟩
    rcases hend with ⟨rfl, hn, rfl, rfl⟩ | ⟨keyword, last, otherwise, more, hkeyword, rfl, hotherwise,
      rfl, rfl⟩
    · refine bind_eq_ok_iff.2 ⟨first, _, condition, others, hcondition, ?_, rfl⟩
      refine expect_bind_eq_ok_iff.2 ⟨r, mid', hr, rfl, ?_⟩
      refine bind_eq_ok_iff.2 ⟨others, rest, body, [], hbody, ?_, by simp⟩
      exact passes_bind_eq_ok_iff.2 (.inr ⟨hn, rfl⟩)
    · refine bind_eq_ok_iff.2 ⟨first, _, condition, others ++ more, hcondition, ?_, rfl⟩
      refine expect_bind_eq_ok_iff.2 ⟨r, mid', hr, rfl, ?_⟩
      refine bind_eq_ok_iff.2 ⟨others, _, body, more, hbody, ?_, rfl⟩
      refine passes_bind_eq_ok_iff.2 (.inl ⟨keyword, last, hkeyword, rfl, ?_⟩)
      exact bind_pure_eq_ok_iff.2 ⟨otherwise, hotherwise, rfl⟩

theorem whileLoop_eq_ok_iff :
    whileLoop nested ctx ts = ⟨reports, rest, .ok s⟩ ↔
      ∃ l r mid mid' condition body first others, l.kind = .leftParen ∧ ts = l :: mid ∧
        nested.expression ctx mid = ⟨first, r :: mid', .ok condition⟩ ∧ r.kind = .rightParen ∧
        nested.statement ctx mid' = ⟨others, rest, .ok body⟩ ∧ s = .loop condition body ∧
        reports = first ++ others := by
  unfold whileLoop
  constructor
  · intro h
    obtain ⟨l, mid, hl, rfl, h₁⟩ := expect_bind_eq_ok_iff.1 h
    obtain ⟨first, _, condition, others, hcondition, h₂, rfl⟩ := bind_eq_ok_iff.1 h₁
    obtain ⟨r, mid', hr, rfl, h₃⟩ := expect_bind_eq_ok_iff.1 h₂
    obtain ⟨body, hbody, rfl⟩ := bind_pure_eq_ok_iff.1 h₃
    exact ⟨l, r, mid, mid', condition, body, first, others, hl, rfl, hcondition, hr, hbody, rfl, rfl⟩
  · rintro ⟨l, r, mid, mid', condition, body, first, others, hl, rfl, hcondition, hr, hbody, rfl, rfl⟩
    refine expect_bind_eq_ok_iff.2 ⟨l, mid, hl, rfl, ?_⟩
    refine bind_eq_ok_iff.2 ⟨first, _, condition, others, hcondition, ?_, rfl⟩
    refine expect_bind_eq_ok_iff.2 ⟨r, mid', hr, rfl, ?_⟩
    exact bind_pure_eq_ok_iff.2 ⟨body, hbody, rfl⟩

/-- The first clause of a `for` loop is a semicolon, a variable or an expression. -/
theorem initializer_eq_ok_iff {initial : Option Stmt} :
    initializer nested ctx ts = ⟨reports, rest, .ok initial⟩ ↔
      (∃ semi, semi.kind = .semicolon ∧ ts = semi :: rest ∧ initial = none ∧ reports = []) ∨
      (∃ keyword mid s, keyword.kind = .keyword .var ∧ ts = keyword :: mid ∧
        variableDeclaration nested ctx mid = ⟨reports, rest, .ok s⟩ ∧ initial = some s) ∨
      ((∀ t ∈ ts.head?, t.kind ≠ .semicolon ∧ t.kind ≠ .keyword .var) ∧
        ∃ s, expressionStatement nested ctx ts = ⟨reports, rest, .ok s⟩ ∧ initial = some s) := by
  unfold initializer
  rw [passes_bind_eq_ok_iff]
  constructor
  · rintro (⟨semi, _, hsemi, rfl, hpure⟩ | ⟨hn, h⟩)
    · obtain ⟨rfl, rfl, rfl⟩ := pure_eq_ok_iff.1 hpure
      exact .inl ⟨semi, hsemi, rfl, rfl, rfl⟩
    · rcases passes_bind_eq_ok_iff.1 h with ⟨keyword, mid, hkeyword, rfl, hmap⟩ | ⟨hn', hmap⟩
      · obtain ⟨s, hs, rfl⟩ := map_eq_ok_iff.1 hmap
        exact .inr (.inl ⟨keyword, mid, s, hkeyword, rfl, hs, rfl⟩)
      · obtain ⟨s, hs, rfl⟩ := map_eq_ok_iff.1 hmap
        exact .inr (.inr ⟨fun t ht => ⟨hn t ht, hn' t ht⟩, s, hs, rfl⟩)
  · rintro (⟨semi, hsemi, rfl, rfl, rfl⟩ | ⟨keyword, mid, s, hkeyword, rfl, hs, rfl⟩ |
      ⟨hn, s, hs, rfl⟩)
    · exact .inl ⟨semi, rest, hsemi, rfl, rfl⟩
    · refine .inr ⟨by simp [hkeyword], ?_⟩
      exact passes_bind_eq_ok_iff.2 (.inl ⟨keyword, mid, hkeyword, rfl, map_eq_ok_iff.2 ⟨s, hs, rfl⟩⟩)
    · refine .inr ⟨fun t ht => (hn t ht).1, ?_⟩
      exact passes_bind_eq_ok_iff.2 (.inr ⟨fun t ht => (hn t ht).2, map_eq_ok_iff.2 ⟨s, hs, rfl⟩⟩)

theorem forTree_eq_loopTree (initial : Option Stmt) (condition increment : Option Expr) (body : Stmt) :
    forTree initial condition increment body = loopTree initial condition increment body := by
  cases initial <;> cases increment <;> rfl

theorem forLoop_eq_ok_iff :
    forLoop nested ctx ts = ⟨reports, rest, .ok s⟩ ↔
      ∃ l semi r mid mid' mid'' last initial condition increment body first second third fourth,
        l.kind = .leftParen ∧ ts = l :: mid ∧
        initializer nested ctx mid = ⟨first, mid', .ok initial⟩ ∧
        ReadsOptional nested.expression .semicolon ctx mid' second (semi :: mid'') condition ∧
        semi.kind = .semicolon ∧
        ReadsOptional nested.expression .rightParen ctx mid'' third (r :: last) increment ∧
        r.kind = .rightParen ∧ nested.statement ctx last = ⟨fourth, rest, .ok body⟩ ∧
        s = forTree initial condition increment body ∧
        reports = first ++ (second ++ (third ++ fourth)) := by
  unfold forLoop
  constructor
  · intro h
    obtain ⟨l, mid, hl, rfl, h₁⟩ := expect_bind_eq_ok_iff.1 h
    obtain ⟨first, mid', initial, _, hinitial, h₂, rfl⟩ := bind_eq_ok_iff.1 h₁
    obtain ⟨second, _, condition, _, hcondition, h₃, rfl⟩ := (optional_bind_eq_ok_iff _).1 h₂
    obtain ⟨semi, mid'', hsemi, rfl, h₄⟩ := semicolon_bind_eq_ok_iff.1 h₃
    obtain ⟨third, _, increment, fourth, hincrement, h₅, rfl⟩ := (optional_bind_eq_ok_iff _).1 h₄
    obtain ⟨r, last, hr, rfl, h₆⟩ := expect_bind_eq_ok_iff.1 h₅
    obtain ⟨body, hbody, rfl⟩ := bind_pure_eq_ok_iff.1 h₆
    exact ⟨l, semi, r, mid, mid', mid'', last, initial, condition, increment, body, first, second,
      third, fourth, hl, rfl, hinitial, hcondition, hsemi, hincrement, hr, hbody, rfl, rfl⟩
  · rintro ⟨l, semi, r, mid, mid', mid'', last, initial, condition, increment, body, first, second,
      third, fourth, hl, rfl, hinitial, hcondition, hsemi, hincrement, hr, hbody, rfl, rfl⟩
    refine expect_bind_eq_ok_iff.2 ⟨l, mid, hl, rfl, ?_⟩
    refine bind_eq_ok_iff.2 ⟨first, mid', initial, _, hinitial, ?_, rfl⟩
    refine (optional_bind_eq_ok_iff _).2 ⟨second, _, condition, _, hcondition, ?_, rfl⟩
    refine semicolon_bind_eq_ok_iff.2 ⟨semi, mid'', hsemi, rfl, ?_⟩
    refine (optional_bind_eq_ok_iff _).2 ⟨third, _, increment, _, hincrement, ?_, rfl⟩
    refine expect_bind_eq_ok_iff.2 ⟨r, last, hr, rfl, ?_⟩
    exact bind_pure_eq_ok_iff.2 ⟨body, hbody, rfl⟩

/-! ### Told by the first token -/

variable {t : Token} {bound : Nat}

theorem statementWith_cons :
    statementWith nested bound ctx (t :: ts) =
      match t.kind with
      | .keyword .print => printed nested ctx ts
      | .leftBrace => (.block <$> block nested.declaration bound : Parser Stmt) ctx ts
      | .keyword .if => conditional nested ctx ts
      | .keyword .while => whileLoop nested ctx ts
      | .keyword .for => forLoop nested ctx ts
      | .keyword .return => result nested t ctx ts
      | _ => expressionStatement nested ctx (t :: ts) := by
  unfold statementWith
  rw [peek_bind_apply, List.head?_cons, Option.getD_some]
  obtain ⟨kind, lexeme, line⟩ := t
  cases kind
  case keyword word => cases word <;> rfl
  all_goals rfl

theorem declarationWith_cons :
    declarationWith nested bound ctx (t :: ts) =
      match t.kind with
      | .keyword .var => variableDeclaration nested ctx ts
      | .keyword .fun => functionDeclaration nested bound ctx ts
      | _ => statementWith nested bound ctx (t :: ts) := by
  unfold declarationWith
  rw [peek_bind_apply, List.head?_cons, Option.getD_some]
  obtain ⟨kind, lexeme, line⟩ := t
  cases kind
  case keyword word => cases word <;> rfl
  all_goals rfl

theorem statementWith_nil (hctx : ctx.ending.kind = .endOfInput) :
    statementWith nested bound ctx [] = expressionStatement nested ctx [] := by
  unfold statementWith
  rw [peek_bind_apply, List.head?_nil, Option.getD_none, hctx]

theorem declarationWith_nil (hctx : ctx.ending.kind = .endOfInput) :
    declarationWith nested bound ctx [] = expressionStatement nested ctx [] := by
  unfold declarationWith
  rw [peek_bind_apply, List.head?_nil, Option.getD_none, hctx]
  exact statementWith_nil hctx

end Statements

/-! ### Programs -/

section Programs

variable {ending : Token} {bound : Nat}

@[simp]
theorem readWithin_nil : readWithin ending bound [] = ⟨[], []⟩ := by
  cases bound <;> rfl

/-- Recovery goes on with later tokens. -/
theorem nextStatement_suffix (ts : List Token) : nextStatement ts <:+ ts := by
  induction ts with
  | nil => exact List.suffix_refl _
  | cons t ts ih =>
    unfold nextStatement
    split
    · exact List.suffix_refl _
    · split
      · exact List.suffix_cons t ts
      · exact ih.trans (List.suffix_cons t ts)

theorem resume_suffix (ts : List Token) : resume ts <:+ ts := by
  cases ts with
  | nil => exact List.suffix_refl _
  | cons t ts =>
    unfold resume
    dsimp only
    split
    · exact List.suffix_cons t ts
    · exact (nextStatement_suffix ts).trans (List.suffix_cons t ts)

theorem length_resume_le (ts : List Token) : (resume ts).length ≤ ts.length - 1 := by
  cases ts with
  | nil => exact Nat.le_refl _
  | cons t ts =>
    unfold resume
    dsimp only
    split
    · exact Nat.le_refl _
    · exact (nextStatement_suffix ts).length_le

theorem readWithin_of_ok {s : Stmt} (hts : ts ≠ [])
    (h : declaration ts.length ⟨ending, false⟩ ts = ⟨reports, rest, .ok s⟩) :
    readWithin ending (bound + 1) ts =
      ⟨s :: (readWithin ending bound rest).program,
        reports ++ (readWithin ending bound rest).errors⟩ := by
  rw [readWithin, h]
  exact hts

theorem readWithin_of_error {e : SyntaxError} (hts : ts ≠ [])
    (h : declaration ts.length ⟨ending, false⟩ ts = ⟨reports, rest, .error e⟩) :
    readWithin ending (bound + 1) ts =
      ⟨(readWithin ending bound (resume rest)).program,
        reports ++ e :: (readWithin ending bound (resume rest)).errors⟩ := by
  rw [readWithin, h]
  exact hts

end Programs

end LoxScript.Parser
