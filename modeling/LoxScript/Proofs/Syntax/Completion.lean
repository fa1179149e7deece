import LoxScript.Proofs.Syntax.Language

/-!
# What was begun can be completed

Where an error stops a parser, the tokens passed by then are the beginning of a text that the grammar allows:
some tokens can be put behind them that complete every construct that was begun. So the parser has not gone
too far.

## Main definitions

* `Parser.Stopped`: an error at the token left next, behind the beginning of a text.
* `Parser.Completes`: a parser all errors of which are of this form.

## Main statements

* `Parser.expression_completes`, `Parser.item_completes`: expressions, statements and declarations.
-/

namespace LoxScript

/-- A token of a kind, with nothing else to it. -/
def Token.ofKind (kind : Token.Kind) : Token := ⟨kind, "", 1⟩

namespace Grammar

/-- The text is an expression of a level. -/
def IsPhrase (L : Level) (w : List Token) : Prop := ∃ e faults, Phrase L w e faults

/-- The text is a list of expressions behind `count` others. -/
def IsItems (count : Nat) (w : List Token) : Prop := ∃ es faults, Items count w es faults

/-- The text is what stands between the parentheses of a call. -/
def IsArguments (w : List Token) : Prop := ∃ es faults, Arguments w es faults

/-- The text is a list of names behind `count` others. -/
def IsNames (count : Nat) (w : List Token) : Prop := ∃ names faults, Names count w names faults

/-- The text is what stands between the parentheses of a function declaration. -/
def IsParameters (w : List Token) : Prop := ∃ names faults, Parameters w names faults

/-- The text is what follows the keyword of a variable declaration. -/
def IsVariable (w : List Token) : Prop := ∃ s faults, Variable w s faults

/-- The text is the first clause of a `for` loop. -/
def IsInitializer (w : List Token) : Prop := ∃ initial faults, Initializer w initial faults

/-- The text is a statement. -/
def IsStatement (f : Bool) (w : List Token) : Prop :=
  ∃ dangling s faults, Statement f dangling w s faults

/-- The text is a statement or a declaration. -/
def IsDeclaration (f : Bool) (w : List Token) : Prop :=
  ∃ dangling s faults, Declaration f dangling w s faults

/-- The text is what follows the opening brace of a block. -/
def IsBlockEnd (f : Bool) (w : List Token) : Prop :=
  ∃ v close ss faults, w = v ++ [close] ∧ Block f v ss faults ∧ close.kind = .rightBrace

/-! ## Shortest texts -/

/-- What is complete in itself is an expression of every level. -/
theorem Phrase.of_primary {w : List Token} {e : Expr} {faults : List SyntaxError}
    (h : Phrase .primary w e faults) (L : Level) : Phrase L w e faults :=
  @Level.of_tighter (Phrase · w e faults) (fun _ he => .tighter he) h L

theorem phrase_nil (L : Level) :
    Phrase L [Token.ofKind (.keyword .nil)] (.literal .nil) [] :=
  Phrase.of_primary (.literal rfl) L

/-- What precedes an `=` is a target, if it is tight enough, and otherwise a wrong one. -/
theorem Phrase.assigned {op : Token} {w v : List Token} {target e : Expr}
    {faults more : List SyntaxError} (hw : Phrase .disjunction w target faults)
    (hop : op.kind = .equal) (hv : Phrase .assignment v e more) : IsPhrase .assignment (w ++ op :: v) := by
  by_cases h : ∃ name, target = .variable name
  · obtain ⟨name, rfl⟩ := h
    obtain ⟨rfl, hname, -⟩ := hw.eq_of_variable rfl
    exact ⟨_, _, .assign hname hop hv⟩
  · exact ⟨_, _, .misassign hw (fun name hname => h ⟨name, hname⟩) hop hv⟩

theorem statement_nil (f : Bool) :
    Statement f false ([Token.ofKind (.keyword .nil)] ++ [Token.ofKind .semicolon])
      (.expression (.literal .nil)) [] :=
  .expression (phrase_nil _) rfl

end Grammar

namespace Parser

open Grammar

variable {α β : Type} {ctx : Context} {ts mid rest : List Token} {reports : List SyntaxError}
  {error : SyntaxError}

/-! ## Replies with an error, taken apart -/

theorem bind_eq_error_iff {p : Parser α} {next : α → Parser β} :
    (p >>= next) ctx ts = ⟨reports, rest, .error error⟩ ↔
      p ctx ts = ⟨reports, rest, .error error⟩ ∨
      ∃ first mid a others, p ctx ts = ⟨first, mid, .ok a⟩ ∧
        next a ctx mid = ⟨others, rest, .error error⟩ ∧ reports = first ++ others := by
  change Parser.bind p next ctx ts = _ ↔ _
  rw [Parser.bind]
  -- the first part stops, or the second one does behind it
  rcases hp : p ctx ts with ⟨first, mid, e | a⟩
  · simp
  · rcases hn : next a ctx mid with ⟨others, last, outcome⟩
    simp only [hn, Reply.mk.injEq]
    constructor
    · rintro ⟨rfl, rfl, rfl⟩
      exact .inr ⟨first, mid, a, others, ⟨rfl, rfl, rfl⟩, hn, rfl⟩
    · rintro (⟨-, -, h⟩ | ⟨_, _, _, _, ⟨rfl, rfl, h⟩, hb, rfl⟩)
      · cases h
      · cases h
        rw [hn] at hb
        cases hb
        exact ⟨rfl, rfl, rfl⟩

theorem pure_ne_error {a : α} : (pure a : Parser α) ctx ts ≠ ⟨reports, rest, .error error⟩ := by
  simp

theorem skip_pure_ne_error {a : α} :
    (skip >>= fun _ => pure a : Parser α) ctx ts ≠ ⟨reports, rest, .error error⟩ := by
  rw [skip_bind_apply]
  exact pure_ne_error

theorem take?_bind_eq_error {accepts : Token.Kind → Bool} {next : Option Token → Parser β}
    (h : (take? accepts >>= next) ctx ts = ⟨reports, rest, .error error⟩) :
    (∃ t mid, accepts t.kind ∧ ts = t :: mid ∧
        next (some t) ctx mid = ⟨reports, rest, .error error⟩) ∨
      next none ctx ts = ⟨reports, rest, .error error⟩ := by
  cases ts with
  | nil =>
    rw [bind_apply_of_eq_ok rfl] at h
    exact .inr h
  | cons t ts =>
    by_cases haccepts : accepts t.kind
    · rw [bind_apply_of_eq_ok (if_pos haccepts)] at h
      exact .inl ⟨t, ts, haccepts, rfl, h⟩
    · rw [bind_apply_of_eq_ok (if_neg haccepts)] at h
      exact .inr h

/-- The error at the next token, where something is missing. -/
def Misses (ctx : Context) (ts rest : List Token) (error : SyntaxError) : Prop :=
  rest = ts ∧ ∃ what, error = ⟨.expected what, ts.head?.getD ctx.ending⟩

theorem misses_of_fail {what : Expectation}
    (h : (fail what : Parser α) ctx ts = ⟨reports, rest, .error error⟩) : Misses ctx ts rest error := by
  cases h
  exact ⟨rfl, what, rfl⟩

theorem expect_bind_eq_error {kind : Token.Kind} {what : Expectation} {next : Token → Parser β}
    (h : (expect kind what >>= next) ctx ts = ⟨reports, rest, .error error⟩) :
    Misses ctx ts rest error ∨
      ∃ t mid, t.kind = kind ∧ ts = t :: mid ∧ next t ctx mid = ⟨reports, rest, .error error⟩ := by
  rcases bind_eq_error_iff.1 h with hfirst | ⟨first, mid, t, others, hfirst, hnext, rfl⟩
  · rcases take?_bind_eq_error hfirst with ⟨t, mid, -, -, hpure⟩ | hfail
    · exact absurd hpure pure_ne_error
    · exact .inl (misses_of_fail hfail)
  · rcases take?_bind_eq_ok_iff.1 hfirst with ⟨u, mid', hkind, rfl, hpure⟩ | ⟨-, hfail⟩
    · obtain ⟨rfl, rfl, rfl⟩ := pure_eq_ok_iff.1 hpure
      exact .inr ⟨t, mid, by simpa using hkind, rfl, hnext⟩
    · exact absurd hfail fail_ne_ok

theorem semicolon_bind_eq_error {what : Expectation} {next : Unit → Parser β}
    (h : (semicolon what >>= next) ctx ts = ⟨reports, rest, .error error⟩) :
    Misses ctx ts rest error ∨
      ∃ t mid, t.kind = .semicolon ∧ ts = t :: mid ∧
        next () ctx mid = ⟨reports, rest, .error error⟩ := by
  rcases bind_eq_error_iff.1 h with hfirst | ⟨first, mid, _, others, hfirst, hnext, rfl⟩
  · rcases expect_bind_eq_error hfirst with hmisses | ⟨t, mid, -, -, hpure⟩
    · exact .inl hmisses
    · exact absurd hpure pure_ne_error
  · obtain ⟨t, _, hkind, rfl, hpure⟩ := expect_bind_eq_ok_iff.1 hfirst
    obtain ⟨rfl, rfl, -⟩ := pure_eq_ok_iff.1 hpure
    exact .inr ⟨t, mid, hkind, rfl, hnext⟩

theorem passes_bind_eq_error {kind : Token.Kind} {next : Bool → Parser β}
    (h : (passes kind >>= next) ctx ts = ⟨reports, rest, .error error⟩) :
    (∃ t mid, t.kind = kind ∧ ts = t :: mid ∧ next true ctx mid = ⟨reports, rest, .error error⟩) ∨
      next false ctx ts = ⟨reports, rest, .error error⟩ := by
  rcases bind_eq_error_iff.1 h with hfirst | ⟨first, mid, found, others, hfirst, hnext, rfl⟩
  · rcases take?_bind_eq_error hfirst with ⟨t, mid, -, -, hpure⟩ | hpure
    · exact absurd hpure pure_ne_error
    · exact absurd hpure pure_ne_error
  · rcases take?_bind_eq_ok_iff.1 hfirst with ⟨t, mid', hkind, rfl, hpure⟩ | ⟨-, hpure⟩
    · obtain ⟨rfl, rfl, rfl⟩ := pure_eq_ok_iff.1 hpure
      exact .inl ⟨t, mid, by simpa using hkind, rfl, hnext⟩
    · obtain ⟨rfl, rfl, rfl⟩ := pure_eq_ok_iff.1 hpure
      exact .inr hnext

/-- The check before an item of a list stops nothing. -/
theorem check_eq_error {problem : SyntaxError.Problem} {count : Nat} {next : Unit → Parser α}
    (h : (if maxArity ≤ count then peek >>= fun t => report problem t >>= next else next ())
      ctx ts = ⟨reports, rest, .error error⟩) :
    ∃ others, next () ctx ts = ⟨others, rest, .error error⟩ := by
  split at h
  · rw [peek_bind_apply, report_bind_apply] at h
    rcases hnext : next () ctx ts with ⟨others, last, outcome⟩
    rw [hnext] at h
    cases h
    exact ⟨others, rfl⟩
  · exact ⟨reports, h⟩

/-! ## Completions -/

/-- The error blames the token left next, and the tokens passed begin a text with the property `P`. -/
def Stopped (P : List Token → Prop) (ctx : Context) (ts rest : List Token) (error : SyntaxError) :
    Prop :=
  (∃ what, error = ⟨.expected what, rest.head?.getD ctx.ending⟩) ∧
    ∃ begun v, ts = begun ++ rest ∧ P (begun ++ v)

/-- Whenever `p` stops, it has begun a text of the sort `P`, which may depend on whether the text stands in
a function body. -/
def Completes (P : Bool → List Token → Prop) (p : Parser α) : Prop :=
  ∀ ⦃ctx ts reports rest error⦄, ctx.ending.kind = .endOfInput →
    p ctx ts = ⟨reports, rest, .error error⟩ → Stopped (P ctx.inFunction) ctx ts rest error

variable {P Q : List Token → Prop}

/-- A part of a text is completed, and then the text. -/
theorem Stopped.behind (h : Stopped P ctx mid rest error) (w : List Token)
    (hPQ : ∀ u, P u → ∃ x, Q (w ++ (u ++ x))) : Stopped Q ctx (w ++ mid) rest error := by
  obtain ⟨herror, begun, v, rfl, hv⟩ := h
  obtain ⟨x, hx⟩ := hPQ _ hv
  refine ⟨herror, w ++ begun, v ++ x, by simp, ?_⟩
  simpa using hx

/-- A part at the beginning of a text is completed, and then the text. -/
theorem Stopped.inside (h : Stopped P ctx ts rest error) (hPQ : ∀ u, P u → ∃ x, Q (u ++ x)) :
    Stopped Q ctx ts rest error :=
  h.behind [] hPQ

theorem Stopped.imp (h : Stopped P ctx ts rest error) (hPQ : ∀ u, P u → Q u) :
    Stopped Q ctx ts rest error :=
  h.inside fun u hu => ⟨[], by simpa using hPQ u hu⟩

/-- Nothing is passed any more where something is missing. -/
theorem Misses.stopped (h : Misses ctx mid rest error) (w v : List Token) (hQ : Q (w ++ v)) :
    Stopped Q ctx (w ++ mid) rest error := by
  obtain ⟨rfl, what, rfl⟩ := h
  exact ⟨⟨what, rfl⟩, w, v, rfl, hQ⟩

theorem Misses.stopped_here (h : Misses ctx ts rest error) (v : List Token) (hQ : Q v) :
    Stopped Q ctx ts rest error :=
  h.stopped [] v hQ

/-! ## Expressions -/

section Expressions

variable {nested : Parser Expr}

/-- What is complete in itself is missing, or something is wrong behind a parenthesis. -/
theorem primary_eq_error (hctx : ctx.ending.kind = .endOfInput)
    (h : primary nested ctx ts = ⟨reports, rest, .error error⟩) :
    Misses ctx ts rest error ∨ ∃ l mid, l.kind = .leftParen ∧ ts = l :: mid ∧
      (nested >>= fun inner => expect .rightParen .parenAfterGrouping >>= fun _ =>
        (pure (Expr.grouping inner) : Parser Expr)) ctx mid = ⟨reports, rest, .error error⟩ := by
  unfold primary at h
  rw [peek_bind_apply] at h
  rcases ts with - | ⟨t, ts⟩
  · rw [List.head?_nil, Option.getD_none, hctx] at h
    exact .inl (misses_of_fail h)
  · rw [List.head?_cons, Option.getD_some] at h
    obtain ⟨kind, lexeme, line⟩ := t
    cases kind
    case leftParen => exact .inr ⟨_, ts, rfl, rfl, h⟩
    case keyword word =>
      cases word
      case «false» | «true» | nil => exact absurd h skip_pure_ne_error
      all_goals exact .inl (misses_of_fail h)
    case number | string | identifier => exact absurd h skip_pure_ne_error
    all_goals exact .inl (misses_of_fail h)

variable (hreads : ReadsPhrases .assignment nested)
  (hnested : Completes (fun _ => IsPhrase .assignment) nested)

include hreads hnested

theorem primary_completes : Completes (fun _ => IsPhrase .primary) (primary nested) := by
  intro ctx ts reports rest error hctx h
  rcases primary_eq_error hctx h with hmisses | ⟨l, ts, hl, rfl, hgrouping⟩
  · exact hmisses.stopped_here _ ⟨_, _, phrase_nil .primary⟩
  · rcases bind_eq_error_iff.1 hgrouping with hinner | ⟨first, mid, inner, others, hinner, hclose, rfl⟩
    · refine (hnested hctx hinner).behind [l] fun u ⟨e, faults, hu⟩ => ?_
      exact ⟨[Token.ofKind .rightParen], _, _, .grouping hl hu rfl⟩
    · obtain ⟨w, rfl, hphrase⟩ := hreads hctx hinner
      rcases expect_bind_eq_error hclose with hclose | ⟨r, _, -, -, hpure⟩
      · exact hclose.stopped (l :: w) [Token.ofKind .rightParen] ⟨_, _, .grouping hl hphrase rfl⟩
      · exact absurd hpure pure_ne_error

theorem arguments_completes (bound count : Nat) :
    Completes (fun _ => IsItems count) (arguments nested bound count) := by
  induction bound generalizing count with
  | zero =>
    intro ctx ts reports rest error _ h
    exact (misses_of_fail h).stopped_here _ ⟨_, _, .one (phrase_nil _)⟩
  | succ bound ih =>
    intro ctx ts reports rest error hctx h
    rw [arguments] at h
    -- the check only reports
    obtain ⟨others, h⟩ := check_eq_error h
    rcases bind_eq_error_iff.1 h with h | ⟨first, mid, e, _, he, hnext, rfl⟩
    · refine (hnested hctx h).imp fun u hu => ?_
      obtain ⟨e, faults, hu⟩ := hu
      exact ⟨_, _, .one hu⟩
    · obtain ⟨w, rfl, hw⟩ := hreads hctx he
      rcases take?_bind_eq_error hnext with ⟨comma, mid', hcomma, rfl, hmore⟩ | hpure
      · rcases bind_eq_error_iff.1 hmore with hmore | ⟨_, _, _, _, -, hpure, -⟩
        · have hstopped := (ih (count + 1) hctx hmore).behind (Q := IsItems count) (w ++ [comma]) <| by
            rintro u ⟨es, faults, hu⟩
            exact ⟨[], _, _, by simpa using Items.more hw (by simpa using hcomma) hu⟩
          simpa using hstopped
        · exact absurd hpure pure_ne_error
      · exact absurd hpure pure_ne_error

theorem argumentList_completes (bound : Nat) :
    Completes (fun _ => IsArguments) (argumentList nested bound) := by
  intro ctx ts reports rest error hctx h
  unfold argumentList at h
  rw [peek_bind_apply] at h
  split at h
  · exact absurd h pure_ne_error
  · exact (arguments_completes hreads hnested bound 0 hctx h).imp fun u ⟨es, faults, hu⟩ =>
      ⟨es, faults, .some hu⟩

theorem calls_completes {bound : Nat} {callee : Expr} {w : List Token} {faults : List SyntaxError}
    (hctx : ctx.ending.kind = .endOfInput)
    (h : calls nested bound callee ctx ts = ⟨reports, rest, .error error⟩)
    (hcallee : Phrase .call w callee faults) :
    Stopped (fun u => IsPhrase .call (w ++ u)) ctx ts rest error := by
  -- what was read so far grows with every call, so it is part of the induction
  induction bound generalizing callee ts reports w faults with
  | zero => exact absurd h pure_ne_error
  | succ bound ih =>
    rw [calls] at h
    rcases take?_bind_eq_error h with ⟨l, mid, hl, rfl, hcall⟩ | hpure
    · replace hl : l.kind = .leftParen := by simpa using hl
      rcases bind_eq_error_iff.1 hcall with hargs | ⟨first, mid, args, _, hargs, hclose, rfl⟩
      · refine (argumentList_completes hreads hnested bound hctx hargs).behind [l]
          fun u ⟨es, more, hu⟩ => ?_
        exact ⟨[Token.ofKind .rightParen], _, _, .call hcallee hl hu rfl⟩
      · obtain ⟨v, rfl, hv⟩ := argumentList_reads hreads hctx hargs
        rcases expect_bind_eq_error hclose with hmisses | ⟨r, mid, hr, rfl, hcalls⟩
        · exact hmisses.stopped (l :: v) [Token.ofKind .rightParen]
            ⟨_, _, .call hcallee hl hv rfl⟩
        · have hstopped := (ih hcalls (.call hcallee hl hv hr)).behind
            (Q := fun u => IsPhrase .call (w ++ u)) (l :: (v ++ [r]))
            fun u hu => ⟨[], by simpa using hu⟩
          simpa using hstopped
    · exact absurd hpure pure_ne_error

theorem unary_completes (bound : Nat) : Completes (fun _ => IsPhrase .unary) (unary nested bound) := by
  induction bound with
  | zero =>
    intro ctx ts reports rest error _ h
    exact (misses_of_fail h).stopped_here _ ⟨_, _, phrase_nil _⟩
  | succ bound ih =>
    intro ctx ts reports rest error hctx h
    rw [unary] at h
    rcases take?_bind_eq_error h with ⟨op, mid, hop, rfl, hmore⟩ | hcall
    · rcases bind_eq_error_iff.1 hmore with hmore | ⟨_, _, _, _, -, hpure, -⟩
      · exact (ih hctx hmore).behind [op] fun u ⟨e, faults, hu⟩ =>
          ⟨[], _, _, by simpa using Phrase.unary (isUnaryOperator_iff.1 hop) hu⟩
      · exact absurd hpure pure_ne_error
    · rcases bind_eq_error_iff.1 hcall with hcallee | ⟨first, mid, callee, _, hcallee, hcalls, rfl⟩
      · exact (primary_completes hreads hnested hctx hcallee).imp fun u ⟨e, faults, hu⟩ =>
          ⟨e, faults, .of_primary hu _⟩
      · obtain ⟨w, rfl, hw⟩ := primary_reads hreads hctx hcallee
        refine (calls_completes hreads hnested hctx hcalls (.tighter hw)).behind w
          fun u ⟨e, faults, hu⟩ => ?_
        have hcall : Phrase .call (w ++ (u ++ [])) e faults := by simpa using hu
        exact ⟨[], _, _, .tighter (L := .unary) hcall⟩

omit hreads hnested

section Chain

variable {L : Level} {isOperator : Token.Kind → Bool} {operand : Parser Expr}
  (hop : ∀ kind, isOperator kind ↔ kind ∈ L.operators) (hoperand : ReadsPhrases L.tighter operand)
  (hcompletes : Completes (fun _ => IsPhrase L.tighter) operand)

include hop hoperand hcompletes

theorem chainFrom_completes {bound : Nat} {left : Expr} {w : List Token} {faults : List SyntaxError}
    (hctx : ctx.ending.kind = .endOfInput)
    (h : chainFrom isOperator L.join operand bound left ctx ts = ⟨reports, rest, .error error⟩)
    (hleft : Phrase L w left faults) :
    Stopped (fun u => IsPhrase L (w ++ u)) ctx ts rest error := by
  induction bound generalizing left ts reports w faults with
  | zero => exact absurd h pure_ne_error
  | succ bound ih =>
    rw [chainFrom] at h
    rcases take?_bind_eq_error h with ⟨op, mid, hop', rfl, hmore⟩ | hpure
    · rw [hop] at hop'
      rcases bind_eq_error_iff.1 hmore with hright | ⟨first, mid, right, _, hright, hchain, rfl⟩
      · exact (hcompletes hctx hright).behind [op] fun u ⟨e, more, hu⟩ =>
          ⟨[], _, _, by simpa using Phrase.binary hleft hop' hu⟩
      · obtain ⟨v, rfl, hv⟩ := hoperand hctx hright
        have hstopped := (ih hchain (.binary hleft hop' hv)).behind
          (Q := fun u => IsPhrase L (w ++ u)) (op :: v) fun u hu => ⟨[], by simpa using hu⟩
        simpa using hstopped
    · exact absurd hpure pure_ne_error

/-- A loop that joins operands from the left stops in the middle of an operand. -/
theorem chain_completes (bound : Nat) :
    Completes (fun _ => IsPhrase L) (chain isOperator L.join operand bound) := by
  intro ctx ts reports rest error hctx h
  rcases bind_eq_error_iff.1 h with hleft | ⟨first, mid, left, _, hleft, hchain, rfl⟩
  · exact (hcompletes hctx hleft).imp fun u ⟨e, faults, hu⟩ => ⟨e, faults, .tighter hu⟩
  · obtain ⟨w, rfl, hw⟩ := hoperand hctx hleft
    exact (chainFrom_completes hop hoperand hcompletes hctx hchain (.tighter hw)).behind w
      fun u hu => ⟨[], by simpa using hu⟩

end Chain

/-- What `p` reads are expressions of a level, and where it stops, one can be completed. -/
structure Recognizes (L : Level) (p : Parser Expr) : Prop where
  reads : ReadsPhrases L p
  completes : Completes (fun _ => IsPhrase L) p

theorem Recognizes.chain {L : Level} {operand : Parser Expr} (h : Recognizes L.tighter operand)
    (bound : Nat) : Recognizes L (chain (accepts L) L.join operand bound) :=
  ⟨chain_reads (fun _ => accepts_iff) h.reads bound,
    chain_completes (fun _ => accepts_iff) h.reads h.completes bound⟩

include hreads hnested

theorem disjunction_completes (bound : Nat) :
    Completes (fun _ => IsPhrase .disjunction) (disjunction nested bound) := by
  have hunary : Recognizes .unary (unary nested bound) :=
    ⟨unary_reads hreads bound, unary_completes hreads hnested bound⟩
  -- from the tightest level outwards
  have hterm : Recognizes .term (term nested bound) :=
    (hunary.chain (L := .factor) bound).chain (L := .term) bound
  have hequality : Recognizes .equality (equality nested bound) :=
    (hterm.chain (L := .comparison) bound).chain (L := .equality) bound
  have hdisjunction : Recognizes .disjunction (disjunction nested bound) :=
    (hequality.chain (L := .conjunction) bound).chain (L := .disjunction) bound
  exact hdisjunction.completes

theorem assignment_completes (bound : Nat) :
    Completes (fun _ => IsPhrase .assignment) (assignment nested bound) := by
  intro ctx ts reports rest error hctx h
  rcases bind_eq_error_iff.1 h with htarget | ⟨first, mid, target, _, htarget, hnext, rfl⟩
  · exact (disjunction_completes hreads hnested bound hctx htarget).imp fun u ⟨e, faults, hu⟩ =>
      ⟨e, faults, .tighter (L := .assignment) hu⟩
  · obtain ⟨w, rfl, hw⟩ := disjunction_reads hreads bound hctx htarget
    rcases take?_bind_eq_error hnext with ⟨equals, mid, hequals, rfl, hvalue⟩ | hpure
    · replace hequals : equals.kind = .equal := by simpa using hequals
      rcases bind_eq_error_iff.1 hvalue with hvalue | ⟨_, _, value, _, -, hend, -⟩
      · have hstopped := (hnested hctx hvalue).behind (Q := IsPhrase .assignment) (w ++ [equals])
          fun u ⟨e, faults, hu⟩ => by
            obtain ⟨_, _, hassign⟩ := hw.assigned hequals hu
            exact ⟨[], _, _, by simpa using hassign⟩
        simpa using hstopped
      -- behind the value nothing can go wrong, whatever the target is
      · cases target <;> cases hend
    · exact absurd hpure pure_ne_error

omit hreads hnested in
/-- Where an expression stops, it can be completed. -/
theorem expression_completes (bound : Nat) :
    Completes (fun _ => IsPhrase .assignment) (expression bound) := by
  induction bound with
  | zero =>
    intro ctx ts reports rest error _ h
    exact (misses_of_fail h).stopped_here _ ⟨_, _, phrase_nil _⟩
  | succ bound ih => exact assignment_completes (expression_reads bound) ih (bound + 1)

end Expressions

/-! ## Statements -/

section Statements

theorem map_eq_error {p : Parser α} {g : α → β}
    (h : (g <$> p) ctx ts = ⟨reports, rest, .error error⟩) : p ctx ts = ⟨reports, rest, .error error⟩ := by
  rcases bind_eq_error_iff.1 h with h | ⟨_, _, _, _, -, hpure, -⟩
  · exact h
  · exact absurd hpure pure_ne_error

/-- The check of a `return` stops nothing. -/
theorem misplaced_eq_error {inFunction : Bool} {keyword : Token} {next : Unit → Parser α}
    (h : (if (!inFunction) = true then report .returnOutsideFunction keyword >>= next else next ())
      ctx ts = ⟨reports, rest, .error error⟩) :
    ∃ others, next () ctx ts = ⟨others, rest, .error error⟩ := by
  split at h
  · rw [report_bind_apply] at h
    rcases hnext : next () ctx ts with ⟨others, last, outcome⟩
    rw [hnext] at h
    cases h
    exact ⟨others, rfl⟩
  · exact ⟨reports, h⟩

/-- An optional expression stops, or what follows it. -/
theorem optional_eq_error {p : Parser Expr} {kind : Token.Kind} {next : Option Expr → Parser α}
    (h : (peek >>= fun t => if t.kind = kind then pure none >>= next else (some <$> p) >>= next)
      ctx ts = ⟨reports, rest, .error error⟩) :
    p ctx ts = ⟨reports, rest, .error error⟩ ∨
      ∃ first mid value others, ReadsOptional p kind ctx ts first mid value ∧
        next value ctx mid = ⟨others, rest, .error error⟩ := by
  rw [peek_bind_apply] at h
  by_cases hkind : (ts.head?.getD ctx.ending).kind = kind
  · rw [if_pos hkind] at h
    exact .inr ⟨[], ts, none, reports, .inl ⟨hkind, rfl, rfl, rfl⟩, h⟩
  · rw [if_neg hkind] at h
    rcases bind_eq_error_iff.1 h with h | ⟨first, mid, _, others, hvalue, hnext, rfl⟩
    · exact .inl (map_eq_error h)
    · obtain ⟨e, he, rfl⟩ := map_eq_ok_iff.1 hvalue
      exact .inr ⟨first, mid, some e, others, .inr ⟨hkind, e, rfl, he⟩, hnext⟩

/-- An expression stops, or the semicolon behind it is missing. -/
theorem terminated_eq_error {p : Parser α} {what : Expectation} {node : α → Stmt}
    (h : (p >>= fun e => semicolon what >>= fun _ => pure (node e)) ctx ts =
      ⟨reports, rest, .error error⟩) :
    p ctx ts = ⟨reports, rest, .error error⟩ ∨
      ∃ first mid e, p ctx ts = ⟨first, mid, .ok e⟩ ∧ Misses ctx mid rest error := by
  rcases bind_eq_error_iff.1 h with h | ⟨first, mid, e, _, he, hend, rfl⟩
  · exact .inl h
  · rcases semicolon_bind_eq_error hend with hmisses | ⟨_, _, -, -, hpure⟩
    · exact .inr ⟨first, mid, e, he, hmisses⟩
    · exact absurd hpure pure_ne_error

theorem parameters_completes (bound count : Nat) :
    Completes (fun _ => IsNames count) (parameters bound count) := by
  induction bound generalizing count with
  | zero =>
    intro ctx ts reports rest error _ h
    exact (misses_of_fail h).stopped_here [Token.ofKind .identifier] ⟨_, _, .one rfl⟩
  | succ bound ih =>
    intro ctx ts reports rest error hctx h
    rw [parameters] at h
    obtain ⟨others, h⟩ := check_eq_error h
    rcases expect_bind_eq_error h with hmisses | ⟨name, mid, hname, rfl, hnext⟩
    · exact hmisses.stopped_here [Token.ofKind .identifier] ⟨_, _, .one rfl⟩
    rcases take?_bind_eq_error hnext with ⟨comma, mid, hcomma, rfl, hmore⟩ | hpure
    · rcases bind_eq_error_iff.1 hmore with hmore | ⟨_, _, _, _, -, hpure, -⟩
      · refine (ih (count + 1) hctx hmore).behind [name, comma] fun u hu => ?_
        obtain ⟨names, faults, hu⟩ := hu
        exact ⟨[], _, _, by simpa using Names.more hname (by simpa using hcomma) hu⟩
      · exact absurd hpure pure_ne_error
    · exact absurd hpure pure_ne_error

theorem parameterList_completes (bound : Nat) :
    Completes (fun _ => IsParameters) (parameterList bound) := by
  intro ctx ts reports rest error hctx h
  unfold parameterList at h
  rw [peek_bind_apply] at h
  split at h
  · exact absurd h pure_ne_error
  · exact (parameters_completes bound 0 hctx h).imp fun u ⟨names, faults, hu⟩ =>
      ⟨names, faults, .some hu⟩

/-- What is nested in a statement: what is read is in the grammar, and what stops can be completed. -/
structure Nested.Recognizes (nested : Nested) : Prop where
  expression : Parser.Recognizes .assignment nested.expression
  reads_statement : ReadsStatements Statement nested.statement
  statement : Completes IsStatement nested.statement
  reads_declaration : ReadsStatements Declaration nested.declaration
  declaration : Completes IsDeclaration nested.declaration

variable {nested : Nested} (hnested : nested.Recognizes)

include hnested

theorem variableDeclaration_completes :
    Completes (fun _ => IsVariable) (variableDeclaration nested) := by
  intro ctx ts reports rest error hctx h
  rcases expect_bind_eq_error h with hmisses | ⟨name, mid, hname, rfl, hnext⟩
  · exact hmisses.stopped_here [Token.ofKind .identifier, Token.ofKind .semicolon]
      ⟨_, _, .bare rfl rfl⟩
  rcases passes_bind_eq_error hnext with ⟨op, mid, hop, rfl, hvalue⟩ | hbare
  · rcases terminated_eq_error hvalue with hmap | ⟨first, mid, _, hmap, hmisses⟩
    · refine (hnested.expression.completes hctx (map_eq_error hmap)).behind [name, op]
        fun u ⟨e, faults, hu⟩ => ?_
      exact ⟨[Token.ofKind .semicolon], _, _, .initialized hname hop hu rfl⟩
    · obtain ⟨e, he, -⟩ := map_eq_ok_iff.1 hmap
      obtain ⟨w, rfl, hw⟩ := hnested.expression.reads hctx he
      exact hmisses.stopped (name :: op :: w) [Token.ofKind .semicolon]
        ⟨_, _, .initialized hname hop hw rfl⟩
  · rcases terminated_eq_error hbare with hpure | ⟨first, mid, _, hpure, hmisses⟩
    · exact absurd hpure pure_ne_error
    · obtain ⟨-, rfl, -⟩ := pure_eq_ok_iff.1 hpure
      exact hmisses.stopped [name] [Token.ofKind .semicolon] ⟨_, _, .bare hname rfl⟩

theorem expressionStatement_completes : Completes IsStatement (expressionStatement nested) := by
  intro ctx ts reports rest error hctx h
  rcases terminated_eq_error h with he | ⟨first, mid, e, he, hmisses⟩
  · refine (hnested.expression.completes hctx he).inside fun u ⟨e, faults, hu⟩ => ?_
    exact ⟨[Token.ofKind .semicolon], _, _, _, .expression hu rfl⟩
  · obtain ⟨w, rfl, hw⟩ := hnested.expression.reads hctx he
    exact hmisses.stopped w [Token.ofKind .semicolon] ⟨_, _, _, .expression hw rfl⟩

theorem printed_completes {keyword : Token} (hkeyword : keyword.kind = .keyword .print)
    (hctx : ctx.ending.kind = .endOfInput)
    (h : printed nested ctx ts = ⟨reports, rest, .error error⟩) :
    Stopped (IsStatement ctx.inFunction) ctx (keyword :: ts) rest error := by
  rcases terminated_eq_error h with he | ⟨first, mid, e, he, hmisses⟩
  · refine (hnested.expression.completes hctx he).behind [keyword] fun u ⟨e, faults, hu⟩ => ?_
    exact ⟨[Token.ofKind .semicolon], _, _, _, .print hkeyword hu rfl⟩
  · obtain ⟨w, rfl, hw⟩ := hnested.expression.reads hctx he
    exact hmisses.stopped (keyword :: w) [Token.ofKind .semicolon]
      ⟨_, _, _, .print hkeyword hw rfl⟩

theorem result_completes {keyword : Token} (hkeyword : keyword.kind = .keyword .return)
    (hctx : ctx.ending.kind = .endOfInput)
    (h : result nested keyword ctx ts = ⟨reports, rest, .error error⟩) :
    Stopped (IsStatement ctx.inFunction) ctx (keyword :: ts) rest error := by
  unfold result at h
  rw [inFunction_bind_apply] at h
  obtain ⟨others, hvalue⟩ := misplaced_eq_error h
  rcases optional_eq_error hvalue with he | ⟨first, mid, value, _, he, hend⟩
  · refine (hnested.expression.completes hctx he).behind [keyword] fun u ⟨e, faults, hu⟩ => ?_
    exact ⟨[Token.ofKind .semicolon], _, _, _, .result hkeyword (.some hu) rfl⟩
  · obtain ⟨w, rfl, hw⟩ := optional_reads hnested.expression.reads hctx he
    rcases semicolon_bind_eq_error hend with hmisses | ⟨_, _, -, -, hpure⟩
    · exact hmisses.stopped (keyword :: w) [Token.ofKind .semicolon]
        ⟨_, _, _, .result hkeyword hw rfl⟩
    · exact absurd hpure pure_ne_error

theorem block_completes (bound : Nat) : Completes IsBlockEnd (block nested.declaration bound) := by
  have hempty (f : Bool) : IsBlockEnd f [Token.ofKind .rightBrace] :=
    ⟨[], _, _, _, rfl, .nil, rfl⟩
  induction bound with
  | zero =>
    intro ctx ts reports rest error _ h
    exact (misses_of_fail h).stopped_here _ (hempty _)
  | succ bound ih =>
    intro ctx ts reports rest error hctx h
    rw [block, peek_bind_apply] at h
    split at h
    · rcases expect_bind_eq_error h with hmisses | ⟨_, _, -, -, hpure⟩
      · exact hmisses.stopped_here _ (hempty _)
      · exact absurd hpure pure_ne_error
    -- the declaration that stops is completed, and the block is closed behind it
    · rcases bind_eq_error_iff.1 h with hfirst | ⟨first, mid, s, _, hfirst, hmore, rfl⟩
      · refine (hnested.declaration hctx hfirst).inside fun u hu => ?_
        obtain ⟨dangling, s, faults, hu⟩ := hu
        exact ⟨[Token.ofKind .rightBrace], u, _, _, _, rfl, by simpa using Block.cons hu .nil, rfl⟩
      · obtain ⟨w, dangling, rfl, hw, -⟩ := hnested.reads_declaration hctx hfirst
        rcases bind_eq_error_iff.1 hmore with hmore | ⟨_, _, _, _, -, hpure, -⟩
        · refine (ih hctx hmore).behind w fun u hu => ?_
          obtain ⟨v, close, ss, faults, hu, hv, hclose⟩ := hu
          exact ⟨[], w ++ v, close, _, _, by simp [hu], .cons hw hv, hclose⟩
        · exact absurd hpure pure_ne_error

theorem functionDeclaration_completes {bound : Nat} {keyword : Token}
    (hkeyword : keyword.kind = .keyword .fun) (hctx : ctx.ending.kind = .endOfInput)
    (h : functionDeclaration nested bound ctx ts = ⟨reports, rest, .error error⟩) :
    Stopped (IsDeclaration ctx.inFunction) ctx (keyword :: ts) rest error := by
  let identifier := Token.ofKind .identifier
  let leftParen := Token.ofKind .leftParen
  let rightParen := Token.ofKind .rightParen
  let leftBrace := Token.ofKind .leftBrace
  let rightBrace := Token.ofKind .rightBrace
  -- up to the body, what is missing is completed by empty lists and an empty body
  rcases expect_bind_eq_error h with hmisses | ⟨name, mid, hname, rfl, h₁⟩
  · exact hmisses.stopped [keyword] [identifier, leftParen, rightParen, leftBrace, rightBrace]
      ⟨_, _, _, .funDeclaration hkeyword rfl rfl .none rfl rfl .nil rfl⟩
  rcases expect_bind_eq_error h₁ with hmisses | ⟨l, mid, hl, rfl, h₂⟩
  · exact hmisses.stopped [keyword, name] [leftParen, rightParen, leftBrace, rightBrace]
      ⟨_, _, _, .funDeclaration hkeyword hname rfl .none rfl rfl .nil rfl⟩
  rcases bind_eq_error_iff.1 h₂ with hnames | ⟨_, mid, names, _, hnames, h₃, rfl⟩
  · refine (parameterList_completes bound hctx hnames).behind [keyword, name, l]
      fun u ⟨names, faults, hu⟩ => ?_
    exact ⟨[rightParen, leftBrace, rightBrace], _, _, _,
      .funDeclaration hkeyword hname hl hu rfl rfl .nil rfl⟩
  obtain ⟨w, rfl, hw⟩ := parameterList_reads hnames
  rcases expect_bind_eq_error h₃ with hmisses | ⟨r, mid, hr, rfl, h₄⟩
  · exact hmisses.stopped (keyword :: name :: l :: w) [rightParen, leftBrace, rightBrace]
      ⟨_, _, _, .funDeclaration hkeyword hname hl hw rfl rfl .nil rfl⟩
  rcases expect_bind_eq_error h₄ with hmisses | ⟨brace, mid, hbrace, rfl, h₅⟩
  · have hstopped := hmisses.stopped (Q := IsDeclaration ctx.inFunction)
      (keyword :: name :: l :: (w ++ [r])) [leftBrace, rightBrace]
      ⟨_, _, _, by simpa using .funDeclaration hkeyword hname hl hw hr rfl .nil rfl⟩
    simpa using hstopped
  rcases bind_eq_error_iff.1 h₅ with hbody | ⟨_, _, _, _, -, hpure, -⟩
  · -- the body is read as in a function, whatever stands around
    have hinner : ({ ctx with inFunction := true } : Context).ending.kind = .endOfInput := hctx
    have hblock : Stopped (IsBlockEnd true) ctx mid rest error :=
      block_completes hnested bound hinner hbody
    have hstopped := hblock.behind (Q := IsDeclaration ctx.inFunction)
      (keyword :: name :: l :: (w ++ [r, brace])) fun u ⟨v, close, ss, faults, hu, hv, hclose⟩ => by
        have hfunction : Declaration ctx.inFunction false _ _ _ :=
          .funDeclaration hkeyword hname hl hw hr hbrace hv hclose
        exact ⟨[], _, _, _, by simpa [hu] using hfunction⟩
    simpa using hstopped
  · exact absurd hpure pure_ne_error

theorem conditional_completes {keyword : Token} (hkeyword : keyword.kind = .keyword .if)
    (hctx : ctx.ending.kind = .endOfInput)
    (h : conditional nested ctx ts = ⟨reports, rest, .error error⟩) :
    Stopped (IsStatement ctx.inFunction) ctx (keyword :: ts) rest error := by
  -- what is missing is completed without an `else`, unless one was read
  have hnil := statement_nil ctx.inFunction
  rcases expect_bind_eq_error h with hmisses | ⟨l, mid, hl, rfl, h₁⟩
  · exact hmisses.stopped [keyword] (Token.ofKind .leftParen :: (_ ++ Token.ofKind .rightParen :: _))
      ⟨_, _, _, .ifThen hkeyword rfl (phrase_nil _) rfl hnil⟩
  rcases bind_eq_error_iff.1 h₁ with hc | ⟨_, mid, condition, _, hc, h₂, rfl⟩
  · refine (hnested.expression.completes hctx hc).behind [keyword, l] fun u ⟨e, faults, hu⟩ => ?_
    exact ⟨Token.ofKind .rightParen :: _, _, _, _, .ifThen hkeyword hl hu rfl hnil⟩
  obtain ⟨w, rfl, hw⟩ := hnested.expression.reads hctx hc
  rcases expect_bind_eq_error h₂ with hmisses | ⟨r, mid, hr, rfl, h₃⟩
  · exact hmisses.stopped (keyword :: l :: w) (Token.ofKind .rightParen :: _)
      ⟨_, _, _, .ifThen hkeyword hl hw rfl hnil⟩
  rcases bind_eq_error_iff.1 h₃ with hbody | ⟨_, mid, body, _, hbody, h₄, rfl⟩
  · have hstopped := (hnested.statement hctx hbody).behind (Q := IsStatement ctx.inFunction)
      (keyword :: l :: (w ++ [r])) fun u ⟨dangling, s, faults, hu⟩ =>
        ⟨[], _, _, _, by simpa using .ifThen hkeyword hl hw hr hu⟩
    simpa using hstopped
  obtain ⟨v, dangling, rfl, hv, hdangling⟩ := hnested.reads_statement hctx hbody
  rcases passes_bind_eq_error h₄ with ⟨otherwise, mid, hotherwise, rfl, h₅⟩ | hpure
  · rcases bind_eq_error_iff.1 h₅ with hother | ⟨_, _, _, _, -, hpure, -⟩
    · -- the `else` behind the first branch shows that no `if` in it waits for one
      have hclosed : dangling = false := by
        cases dangling
        · rfl
        · exact absurd hotherwise (hdangling rfl otherwise rfl)
      subst hclosed
      have hstopped := (hnested.statement hctx hother).behind (Q := IsStatement ctx.inFunction)
        (keyword :: l :: (w ++ r :: (v ++ [otherwise]))) fun u ⟨dangling, s, faults, hu⟩ =>
          ⟨[], _, _, _, by simpa using .ifElse hkeyword hl hw hr hv hotherwise hu⟩
      simpa using hstopped
    · exact absurd hpure pure_ne_error
  · exact absurd hpure pure_ne_error

theorem whileLoop_completes {keyword : Token} (hkeyword : keyword.kind = .keyword .while)
    (hctx : ctx.ending.kind = .endOfInput)
    (h : whileLoop nested ctx ts = ⟨reports, rest, .error error⟩) :
    Stopped (IsStatement ctx.inFunction) ctx (keyword :: ts) rest error := by
  have hnil := statement_nil ctx.inFunction
  rcases expect_bind_eq_error h with hmisses | ⟨l, mid, hl, rfl, h₁⟩
  · exact hmisses.stopped [keyword] (Token.ofKind .leftParen :: (_ ++ Token.ofKind .rightParen :: _))
      ⟨_, _, _, .whileLoop hkeyword rfl (phrase_nil _) rfl hnil⟩
  rcases bind_eq_error_iff.1 h₁ with hc | ⟨_, mid, condition, _, hc, h₂, rfl⟩
  · refine (hnested.expression.completes hctx hc).behind [keyword, l] fun u ⟨e, faults, hu⟩ => ?_
    exact ⟨Token.ofKind .rightParen :: _, _, _, _, .whileLoop hkeyword hl hu rfl hnil⟩
  obtain ⟨w, rfl, hw⟩ := hnested.expression.reads hctx hc
  rcases expect_bind_eq_error h₂ with hmisses | ⟨r, mid, hr, rfl, h₃⟩
  · exact hmisses.stopped (keyword :: l :: w) (Token.ofKind .rightParen :: _)
      ⟨_, _, _, .whileLoop hkeyword hl hw rfl hnil⟩
  rcases bind_eq_error_iff.1 h₃ with hbody | ⟨_, _, _, _, -, hpure, -⟩
  · have hstopped := (hnested.statement hctx hbody).behind (Q := IsStatement ctx.inFunction)
      (keyword :: l :: (w ++ [r])) fun u ⟨dangling, s, faults, hu⟩ =>
        ⟨[], _, _, _, by simpa using .whileLoop hkeyword hl hw hr hu⟩
    simpa using hstopped
  · exact absurd hpure pure_ne_error

theorem initializer_completes : Completes (fun _ => IsInitializer) (initializer nested) := by
  intro ctx ts reports rest error hctx h
  rcases passes_bind_eq_error h with ⟨_, _, -, -, hpure⟩ | hfirst
  · exact absurd hpure pure_ne_error
  rcases passes_bind_eq_error hfirst with ⟨keyword, mid, hkeyword, rfl, hmap⟩ | hmap
  · refine (variableDeclaration_completes hnested hctx (map_eq_error hmap)).behind [keyword]
      fun u ⟨s, faults, hu⟩ => ?_
    exact ⟨[], _, _, by simpa using .declared hkeyword hu⟩
  · rcases terminated_eq_error (map_eq_error hmap) with he | ⟨first, mid, e, he, hmisses⟩
    · refine (hnested.expression.completes hctx he).inside fun u ⟨e, faults, hu⟩ => ?_
      exact ⟨[Token.ofKind .semicolon], _, _, .expression hu rfl⟩
    · obtain ⟨w, rfl, hw⟩ := hnested.expression.reads hctx he
      exact hmisses.stopped w [Token.ofKind .semicolon] ⟨_, _, .expression hw rfl⟩

theorem forLoop_completes {keyword : Token} (hkeyword : keyword.kind = .keyword .for)
    (hctx : ctx.ending.kind = .endOfInput)
    (h : forLoop nested ctx ts = ⟨reports, rest, .error error⟩) :
    Stopped (IsStatement ctx.inFunction) ctx (keyword :: ts) rest error := by
  let leftParen := Token.ofKind .leftParen
  let semicolon := Token.ofKind .semicolon
  let rightParen := Token.ofKind .rightParen
  -- wherever reading stops, the shortest rest of a loop would go on from there
  have hnil := statement_nil ctx.inFunction
  rcases expect_bind_eq_error h with hmisses | ⟨l, mid, hl, rfl, h₁⟩
  · exact hmisses.stopped [keyword]
      (leftParen :: ([semicolon] ++ ([] ++ semicolon :: ([] ++ rightParen :: _))))
      ⟨_, _, _, .forLoop hkeyword rfl (.none rfl) .none rfl .none rfl hnil⟩
  rcases bind_eq_error_iff.1 h₁ with hinitial | ⟨_, mid, initial, _, hinitial, h₂, rfl⟩
  · refine (initializer_completes hnested hctx hinitial).behind [keyword, l]
      fun u ⟨initial, faults, hu⟩ => ?_
    exact ⟨[] ++ semicolon :: ([] ++ rightParen :: _), _, _, _,
      .forLoop hkeyword hl hu .none rfl .none rfl hnil⟩
  obtain ⟨w, rfl, hw⟩ := initializer_reads hnested.expression.reads hctx hinitial
  rcases optional_eq_error h₂ with hc | ⟨_, mid, condition, _, hc, h₃⟩
  · have hstopped := (hnested.expression.completes hctx hc).behind (Q := IsStatement ctx.inFunction)
      (keyword :: l :: w) fun u ⟨e, faults, hu⟩ =>
        ⟨semicolon :: ([] ++ rightParen :: _), _, _, _,
          .forLoop hkeyword hl hw (.some hu) rfl .none rfl hnil⟩
    exact hstopped
  obtain ⟨v, rfl, hv⟩ := optional_reads hnested.expression.reads hctx hc
  rcases semicolon_bind_eq_error h₃ with hmisses | ⟨semi, mid, hsemi, rfl, h₄⟩
  · have hstopped := hmisses.stopped (Q := IsStatement ctx.inFunction) (keyword :: l :: (w ++ v))
      (semicolon :: ([] ++ rightParen :: _))
      ⟨_, _, _, by simpa using .forLoop hkeyword hl hw hv rfl .none rfl hnil⟩
    simpa using hstopped
  rcases optional_eq_error h₄ with hn | ⟨_, mid, increment, _, hn, h₅⟩
  · have hstopped := (hnested.expression.completes hctx hn).behind (Q := IsStatement ctx.inFunction)
      (keyword :: l :: (w ++ (v ++ [semi]))) fun u ⟨e, faults, hu⟩ =>
        ⟨rightParen :: _, _, _, _, by
          simpa using .forLoop hkeyword hl hw hv hsemi (.some hu) rfl hnil⟩
    simpa using hstopped
  obtain ⟨u, rfl, hu⟩ := optional_reads hnested.expression.reads hctx hn
  rcases expect_bind_eq_error h₅ with hmisses | ⟨r, mid, hr, rfl, h₆⟩
  · have hstopped := hmisses.stopped (Q := IsStatement ctx.inFunction)
      (keyword :: l :: (w ++ (v ++ semi :: u))) (rightParen :: _)
      ⟨_, _, _, by simpa using .forLoop hkeyword hl hw hv hsemi hu rfl hnil⟩
    simpa using hstopped
  rcases bind_eq_error_iff.1 h₆ with hbody | ⟨_, _, _, _, -, hpure, -⟩
  · have hstopped := (hnested.statement hctx hbody).behind (Q := IsStatement ctx.inFunction)
      (keyword :: l :: (w ++ (v ++ semi :: (u ++ [r])))) fun x ⟨dangling, s, faults, hx⟩ =>
        ⟨[], _, _, _, by simpa using .forLoop hkeyword hl hw hv hsemi hu hr hx⟩
    simpa using hstopped
  · exact absurd hpure pure_ne_error

theorem statementWith_completes (bound : Nat) : Completes IsStatement (statementWith nested bound) := by
  intro ctx ts reports rest error hctx h
  rcases ts with - | ⟨t, ts⟩
  · rw [statementWith_nil hctx] at h
    exact expressionStatement_completes hnested hctx h
  · rw [statementWith_cons] at h
    split at h
    case h_1 ht => exact printed_completes hnested ht hctx h
    case h_2 ht =>
      refine (block_completes hnested bound hctx (map_eq_error h)).behind [t] fun u hu => ?_
      obtain ⟨v, close, ss, faults, hu, hv, hclose⟩ := hu
      exact ⟨[], _, _, _, by simpa [hu] using .block ht hv hclose⟩
    case h_3 ht => exact conditional_completes hnested ht hctx h
    case h_4 ht => exact whileLoop_completes hnested ht hctx h
    case h_5 ht => exact forLoop_completes hnested ht hctx h
    case h_6 ht => exact result_completes hnested ht hctx h
    case h_7 => exact expressionStatement_completes hnested hctx h

theorem declarationWith_completes (bound : Nat) :
    Completes IsDeclaration (declarationWith nested bound) := by
  intro ctx ts reports rest error hctx h
  have hstatement {ts : List Token} (h : Stopped (IsStatement ctx.inFunction) ctx ts rest error) :
      Stopped (IsDeclaration ctx.inFunction) ctx ts rest error :=
    h.imp fun u ⟨dangling, s, faults, hu⟩ => ⟨dangling, s, faults, .statement hu⟩
  rcases ts with - | ⟨t, ts⟩
  · rw [declarationWith_nil hctx] at h
    exact hstatement (expressionStatement_completes hnested hctx h)
  · rw [declarationWith_cons] at h
    split at h
    case h_1 ht =>
      refine (variableDeclaration_completes hnested hctx h).behind [t] fun u ⟨s, faults, hu⟩ => ?_
      exact ⟨[], _, _, _, by simpa using .varDeclaration ht hu⟩
    case h_2 ht => exact functionDeclaration_completes hnested ht hctx h
    case h_3 => exact hstatement (statementWith_completes hnested bound hctx h)

end Statements

/-- Where a statement or declaration stops, it can be completed. -/
theorem item_completes (bound : Nat) :
    Completes IsStatement (statement bound) ∧ Completes IsDeclaration (declaration bound) := by
  induction bound with
  | zero =>
    have hnil (f : Bool) := statement_nil f
    constructor
    · intro ctx ts reports rest error _ h
      exact (misses_of_fail h).stopped_here _ ⟨_, _, _, hnil _⟩
    · intro ctx ts reports rest error _ h
      exact (misses_of_fail h).stopped_here _ ⟨_, _, _, .statement (hnil _)⟩
  | succ bound ih =>
    have hnested : Nested.Recognizes ⟨Parser.expression (bound + 1), statement bound, declaration bound⟩ :=
      ⟨⟨expression_reads _, expression_completes _⟩, (item_reads bound).1, ih.1, (item_reads bound).2, ih.2⟩
    exact ⟨statementWith_completes hnested (bound + 1), declarationWith_completes hnested (bound + 1)⟩

end Parser

end LoxScript
