import LoxScript.Proofs.Syntax.Language

/-!
# One token ahead

A parser decides by the next token and never looks further. Its answer depends on the tokens that it passes
and on the one that it leaves next; what stands behind that one may be replaced by anything else. The bound
plays no part either, as long as it is not below the number of tokens.

Both facts are one: a parser under one bound is compared with the same parser under another bound and on
other tokens behind the first one that is left.

## Main definitions

* `Parser.FollowsAt`, `Parser.Follows`: the answers of one parser are those of another, up to the tokens
  behind the first one left.
* `Parser.Strict`: a parser that passes a token whenever it answers with a value.

## Main statements

* `Parser.follows_expression`, `Parser.follows_item`: expressions, statements and declarations.
* `Parser.declaration_eq_of_head?_eq`: what stands behind the token left next does not matter.
-/

namespace LoxScript.Parser

open Grammar

variable {α β : Type} {ctx : Context} {n m : Nat} {ts : List Token}

/-- What `p` answers to `ts` is what `q` answers to the tokens that `p` passes and any others behind them
that begin with the same token, except that these others are left. -/
def FollowsAt (ctx : Context) (ts : List Token) (p q : Parser α) : Prop :=
  ∃ begun, ts = begun ++ (p ctx ts).rest ∧
    ∀ rest, rest.head? = (p ctx ts).rest.head? →
      q ctx (begun ++ rest) = ⟨(p ctx ts).reports, rest, (p ctx ts).outcome⟩

/-- The same for all lists of at most `n` tokens. -/
def Follows (n : Nat) (p q : Parser α) : Prop :=
  ∀ ⦃ctx ts⦄, ctx.ending.kind = .endOfInput → ts.length ≤ n → FollowsAt ctx ts p q

/-- A parser that passes a token if it answers with a value. -/
def Strict (p : Parser α) : Prop :=
  ∀ ⦃ctx ts reports rest a⦄, ctx.ending.kind = .endOfInput → p ctx ts = ⟨reports, rest, .ok a⟩ →
    rest.length < ts.length

/-! ## Parsers in a row -/

section Rules

variable {p q p' q' : Parser α} {f g : α → Parser β}

theorem head?_append_congr {begun rest rest' : List Token} (h : rest.head? = rest'.head?) :
    (begun ++ rest).head? = (begun ++ rest').head? := by
  cases begun with
  | nil => exact h
  | cons t begun => rfl

theorem Follows.mono (h : Follows n p q) (hm : m ≤ n) : Follows m p q :=
  fun _ _ hctx hts => h hctx (Nat.le_trans hts hm)

/-- Only the next token may decide which parser is used. -/
theorem FollowsAt.of_eq (h : FollowsAt ctx ts p q) (hp : p' ctx ts = p ctx ts)
    (hq : ∀ ts', ts'.head? = ts.head? → q' ctx ts' = q ctx ts') : FollowsAt ctx ts p' q' := by
  obtain ⟨begun, hbegun, hrest⟩ := h
  refine ⟨begun, by rwa [hp], fun rest hhead => ?_⟩
  rw [hp] at hhead
  have hsame : (begun ++ rest).head? = ts.head? :=
    (head?_append_congr hhead).trans (congrArg List.head? hbegun.symm)
  rw [hq _ hsame, hp]
  exact hrest rest hhead

/-- A token in front is passed. -/
theorem FollowsAt.cons {t : Token} (h : FollowsAt ctx ts p q) (hp : p' ctx (t :: ts) = p ctx ts)
    (hq : ∀ ts', q' ctx (t :: ts') = q ctx ts') : FollowsAt ctx (t :: ts) p' q' := by
  obtain ⟨begun, hbegun, hrest⟩ := h
  refine ⟨t :: begun, by rw [hp, List.cons_append, ← hbegun], fun rest hhead => ?_⟩
  rw [hp] at hhead ⊢
  rw [List.cons_append, hq]
  exact hrest rest hhead

theorem FollowsAt.bind (h : FollowsAt ctx ts p q)
    (hnext : ∀ reports mid a, p ctx ts = ⟨reports, mid, .ok a⟩ → FollowsAt ctx mid (f a) (g a)) :
    FollowsAt ctx ts (p >>= f) (q >>= g) := by
  obtain ⟨begun, hbegun, hrest⟩ := h
  change FollowsAt ctx ts (Parser.bind p f) (Parser.bind q g)
  unfold FollowsAt
  rw [Parser.bind]
  rcases hreply : p ctx ts with ⟨reports, mid, e | a⟩ <;> rw [hreply] at hbegun hrest
  · refine ⟨begun, hbegun, fun rest hhead => ?_⟩
    rw [Parser.bind, hrest rest hhead]
  · obtain ⟨others, hothers, hrest'⟩ := hnext reports mid a hreply
    dsimp only at hbegun hrest ⊢
    refine ⟨begun ++ others, by rw [List.append_assoc, ← hothers, ← hbegun], fun rest hhead => ?_⟩
    -- behind the first part comes what the second passes, or else the token that is left next
    have hmid : (others ++ rest).head? = mid.head? :=
      (head?_append_congr hhead).trans (congrArg List.head? hothers.symm)
    rw [List.append_assoc, Parser.bind, hrest _ hmid]
    dsimp only
    rw [hrest' rest hhead]

theorem Follows.bind (hp : Follows n p q) (hnext : ∀ a, Follows n (f a) (g a)) :
    Follows n (p >>= f) (q >>= g) := by
  intro ctx ts hctx hts
  refine (hp hctx hts).bind fun reports mid a hreply => hnext a hctx ?_
  obtain ⟨begun, hbegun, -⟩ := hp hctx hts
  rw [hreply] at hbegun
  have hlength := congrArg List.length hbegun
  simp only [List.length_append] at hlength
  omega

/-- Behind a parser that passes a token there is one token less. -/
theorem Follows.bind_strict (hp : Follows n p q) (hstrict : Strict p)
    (hnext : ∀ a m, m < n → Follows m (f a) (g a)) : Follows n (p >>= f) (q >>= g) := by
  intro ctx ts hctx hts
  refine (hp hctx hts).bind fun reports mid a hreply => ?_
  have hlength := hstrict hctx hreply
  exact hnext a mid.length (by omega) hctx (Nat.le_refl _)

theorem follows_pure (a : α) : Follows n (pure a) (pure a) :=
  fun _ _ _ _ => ⟨[], rfl, fun _ _ => rfl⟩

theorem follows_fail (what : Expectation) : Follows n (fail what : Parser α) (fail what) := by
  intro ctx ts _ _
  refine ⟨[], rfl, fun rest hhead => ?_⟩
  change rest.head? = ts.head? at hhead
  simp [fail, hhead]

theorem follows_report (problem : SyntaxError.Problem) (t : Token) :
    Follows n (report problem t) (report problem t) :=
  fun _ _ _ _ => ⟨[], rfl, fun _ _ => rfl⟩

theorem Follows.map (hp : Follows n p q) (g : α → β) : Follows n (g <$> p) (g <$> q) :=
  hp.bind fun a => follows_pure (g a)

theorem follows_ite {c : Prop} [Decidable c] (hp : c → Follows n p q) (hq : ¬ c → Follows n p' q') :
    Follows n (if c then p else p') (if c then q else q') := by
  split
  · exact hp ‹_›
  · exact hq ‹_›

theorem Follows.insideFunction (hp : Follows n p q) :
    Follows n (insideFunction p) (insideFunction q) :=
  fun ctx ts hctx hts => @hp { ctx with inFunction := true } ts hctx hts

/-- Two parsers that agree where no tokens are left. -/
theorem follows_zero (h : ∀ ctx, ctx.ending.kind = .endOfInput → ∃ reports outcome,
    p ctx [] = ⟨reports, [], outcome⟩ ∧ q ctx [] = ⟨reports, [], outcome⟩) : Follows 0 p q := by
  intro ctx ts hctx hts
  obtain rfl := List.eq_nil_of_length_eq_zero (Nat.le_zero.1 hts)
  obtain ⟨reports, outcome, hp, hq⟩ := h ctx hctx
  refine ⟨[], by rw [hp]; rfl, fun rest hhead => ?_⟩
  rw [hp] at hhead
  obtain rfl : rest = [] := by simpa using hhead
  rw [hp]
  exact hq

end Rules

/-! ## Single tokens -/

section Tokens

variable {f g : Token → Parser β}

theorem followsAt_peek_bind (h : FollowsAt ctx ts (f (ts.head?.getD ctx.ending))
    (g (ts.head?.getD ctx.ending))) : FollowsAt ctx ts (peek >>= f) (peek >>= g) := by
  refine h.of_eq (peek_bind_apply f) fun ts' hhead => ?_
  rw [peek_bind_apply, hhead]

theorem follows_peek_bind (h : ∀ t, Follows n (f t) (g t)) : Follows n (peek >>= f) (peek >>= g) :=
  fun _ _ hctx hts => followsAt_peek_bind (h _ hctx hts)

/-- The next token, which is not the end, is looked at and passed. -/
theorem followsAt_skip_bind {t : Token} {f g : Unit → Parser β} (h : FollowsAt ctx ts (f ()) (g ())) :
    FollowsAt ctx (t :: ts) (skip >>= f) (skip >>= g) :=
  h.cons (skip_bind_apply f) fun _ => skip_bind_apply g

theorem follows_take?_bind {accepts : Token.Kind → Bool} {f g : Option Token → Parser β}
    (hnone : Follows n (f none) (g none))
    (hsome : ∀ t m, m < n → Follows m (f (some t)) (g (some t))) :
    Follows n (take? accepts >>= f) (take? accepts >>= g) := by
  have hother (next : Option Token → Parser β) {ctx : Context} {ts : List Token}
      (h : ∀ t ∈ ts.head?, ¬ accepts t.kind) : (take? accepts >>= next) ctx ts = next none ctx ts := by
    cases ts with
    | nil => exact bind_apply_of_eq_ok rfl
    | cons t ts => exact bind_apply_of_eq_ok (if_neg (h t rfl))
  have htaken (next : Option Token → Parser β) {ctx : Context} {t : Token} (h : accepts t.kind)
      (ts : List Token) : (take? accepts >>= next) ctx (t :: ts) = next (some t) ctx ts :=
    bind_apply_of_eq_ok (if_pos h)
  intro ctx ts hctx hts
  by_cases h : ∀ t ∈ ts.head?, ¬ accepts t.kind
  · exact (hnone hctx hts).of_eq (hother f h) fun ts' hhead => hother g (hhead ▸ h)
  · cases ts with
    | nil => simp at h
    | cons t ts =>
      have haccepts : accepts t.kind := by simpa using h
      refine (hsome t ts.length ?_ hctx (Nat.le_refl _)).cons (htaken f haccepts ts) (htaken g haccepts)
      exact hts

theorem follows_expect (kind : Token.Kind) (what : Expectation) :
    Follows n (expect kind what) (expect kind what) :=
  follows_take?_bind (follows_fail what) fun t _ _ => follows_pure t

theorem strict_expect (kind : Token.Kind) (what : Expectation) : Strict (expect kind what) := by
  intro ctx ts reports rest t _ h
  rcases take?_bind_eq_ok_iff.1 h with ⟨u, mid, -, rfl, hpure⟩ | ⟨-, hfail⟩
  · obtain ⟨-, rfl, -⟩ := pure_eq_ok_iff.1 hpure
    exact Nat.lt_succ_self _
  · exact absurd hfail fail_ne_ok

theorem follows_semicolon (what : Expectation) : Follows n (semicolon what) (semicolon what) :=
  (follows_expect _ _).bind fun _ => follows_pure ()

theorem follows_passes (kind : Token.Kind) : Follows n (passes kind) (passes kind) :=
  follows_take?_bind (follows_pure _) fun _ _ _ => follows_pure _

/-- The check before an item of a list. -/
theorem follows_check {problem : SyntaxError.Problem} {count : Nat} {f g : Unit → Parser α}
    (h : Follows n (f ()) (g ())) :
    Follows n (if maxArity ≤ count then peek >>= fun t => report problem t >>= f else f ())
      (if maxArity ≤ count then peek >>= fun t => report problem t >>= g else g ()) :=
  follows_ite (fun _ => follows_peek_bind fun t => (follows_report problem t).bind fun _ => h) fun _ => h

end Tokens

/-! ## Expressions -/

section Expressions

theorem ReadsPhrases.strict {L : Level} {p : Parser Expr} (h : ReadsPhrases L p) : Strict p := by
  intro ctx ts reports rest e hctx hread
  obtain ⟨w, rfl, hw⟩ := h hctx hread
  have hpos := List.length_pos_iff.2 hw.ne_nil
  rw [List.length_append]
  omega

theorem primary_nil (nested : Parser Expr) (hctx : ctx.ending.kind = .endOfInput) :
    primary nested ctx [] = ⟨[], [], .error ⟨.expected .expression, ctx.ending⟩⟩ := by
  unfold primary
  rw [peek_bind_apply, List.head?_nil, Option.getD_none, hctx]
  rfl

theorem unary_nil (nested : Parser Expr) (bound : Nat) (hctx : ctx.ending.kind = .endOfInput) :
    unary nested bound ctx [] = ⟨[], [], .error ⟨.expected .expression, ctx.ending⟩⟩ := by
  cases bound with
  | zero => rfl
  | succ bound =>
    rw [unary, bind_apply_of_eq_ok rfl]
    change Parser.bind (primary nested) _ ctx [] = _
    rw [Parser.bind, primary_nil nested hctx]

/-- At the end of the tokens an expression is missing. -/
theorem expression_nil (bound : Nat) (hctx : ctx.ending.kind = .endOfInput) :
    expression bound ctx [] = ⟨[], [], .error ⟨.expected .expression, ctx.ending⟩⟩ := by
  have hbind {γ : Type} {p : Parser Expr} {f : Expr → Parser γ} {reports rest e}
      (h : p ctx [] = ⟨reports, rest, .error e⟩) : (p >>= f) ctx [] = ⟨reports, rest, .error e⟩ := by
    change Parser.bind p f ctx [] = _
    rw [Parser.bind, h]
  cases bound with
  | zero => rfl
  | succ bound =>
    unfold expression assignment disjunction conjunction equality comparison term factor
    -- every level begins with the next tighter one
    iterate 7 refine hbind ?_
    exact unary_nil _ _ hctx

/-- Two readers for the expressions that are nested in one: what the first reads are expressions, the second
reads the same, and where no tokens are left both miss an expression. -/
structure Interchangeable (n : Nat) (p q : Parser Expr) : Prop where
  follows : Follows n p q
  reads : ReadsPhrases .assignment p
  first_nil : ∀ ctx, ctx.ending.kind = .endOfInput →
    p ctx [] = ⟨[], [], .error ⟨.expected .expression, ctx.ending⟩⟩
  second_nil : ∀ ctx, ctx.ending.kind = .endOfInput →
    q ctx [] = ⟨[], [], .error ⟨.expected .expression, ctx.ending⟩⟩

theorem exists_eq_succ {k a : Nat} (h : k + 1 ≤ a) : ∃ b, a = b + 1 ∧ k ≤ b :=
  ⟨a - 1, by omega, by omega⟩

theorem arguments_nil {nested : Parser Expr} (bound : Nat)
    (h : nested ctx [] = ⟨[], [], .error ⟨.expected .expression, ctx.ending⟩⟩) :
    arguments nested bound 0 ctx [] = ⟨[], [], .error ⟨.expected .expression, ctx.ending⟩⟩ := by
  cases bound with
  | zero => rfl
  | succ bound =>
    rw [arguments]
    change Parser.bind nested _ ctx [] = _
    rw [Parser.bind, h]

theorem follows_chain {isOperator : Token.Kind → Bool} {node : Token → Expr → Expr → Expr}
    {operand operand' : Parser Expr} (h : Follows m operand operand') {a b : Nat} (ha : m ≤ a)
    (hb : m ≤ b) :
    Follows m (chain isOperator node operand a) (chain isOperator node operand' b) := by
  refine h.bind fun left => ?_
  induction m using Nat.strongRecOn generalizing a b left with
  | ind m ih =>
    cases m with
    | zero =>
      exact follows_zero fun ctx _ =>
        ⟨[], .ok left, chainFrom_stop (by simp), chainFrom_stop (by simp)⟩
    | succ m =>
      obtain ⟨a, rfl, ha'⟩ := exists_eq_succ ha
      obtain ⟨b, rfl, hb'⟩ := exists_eq_succ hb
      refine follows_take?_bind (follows_pure left) fun operator k hk => ?_
      have hoperand := h.mono (Nat.le_of_lt hk)
      exact hoperand.bind fun right => ih k hk hoperand (by omega) (by omega) _

variable {nested nested' : Parser Expr} (h : Interchangeable n nested nested')

include h

theorem follows_primary : Follows (n + 1) (primary nested) (primary nested') := by
  intro ctx ts hctx hts
  refine followsAt_peek_bind ?_
  have hskip (e : Expr) : FollowsAt ctx ts (skip >>= fun _ => pure e) (skip >>= fun _ => pure e) := by
    cases ts with
    | nil => exact follows_zero (fun _ _ => ⟨[], .ok e, rfl, rfl⟩) hctx (Nat.le_refl _)
    | cons t ts => exact followsAt_skip_bind (follows_pure e hctx (Nat.le_refl _))
  split
  -- only behind a parenthesis there is more to read
  case h_7 hkind =>
    cases ts with
    | nil => simp [hctx] at hkind
    | cons t ts =>
      refine followsAt_skip_bind ?_
      have hinner := h.follows.bind fun inner =>
        (follows_expect .rightParen .parenAfterGrouping).bind fun _ =>
          follows_pure (Expr.grouping inner)
      exact hinner hctx (Nat.le_of_succ_le_succ hts)
  case h_8 => exact follows_fail _ hctx hts
  all_goals exact hskip _

/-- Behind an argument and a comma there are two tokens less, but the bound is only one less. Only for the
first argument it may be used up. -/
theorem follows_arguments {a b count : Nat} (hn : m ≤ n) (ha : m ≤ a) (hb : m ≤ b)
    (hcount : count = 0 ∨ m < a ∧ m < b) :
    Follows m (arguments nested a count) (arguments nested' b count) := by
  induction m using Nat.strongRecOn generalizing a b count with
  | ind m ih =>
    have hsucc (a b : Nat) (ha : m ≤ a + 1) (hb : m ≤ b + 1) :
        Follows m (arguments nested (a + 1) count) (arguments nested' (b + 1) count) := by
      unfold arguments
      refine follows_check ((h.follows.mono hn).bind_strict h.reads.strict fun argument k hk => ?_)
      refine follows_take?_bind (follows_pure _) fun _ l hl => ?_
      have hothers : Follows l (arguments nested a (count + 1)) (arguments nested' b (count + 1)) :=
        ih l (by omega) (by omega) (by omega) (by omega) (.inr ⟨by omega, by omega⟩)
      exact hothers.bind fun others => follows_pure _
    -- where a bound is used up no tokens are left, and both stop at the end
    rcases Nat.eq_zero_or_pos a with rfl | hapos
    · obtain rfl : m = 0 := by omega
      obtain rfl : count = 0 := by omega
      exact follows_zero fun ctx hctx =>
        ⟨[], _, arguments_nil _ (h.first_nil ctx hctx), arguments_nil _ (h.second_nil ctx hctx)⟩
    rcases Nat.eq_zero_or_pos b with rfl | hbpos
    · obtain rfl : m = 0 := by omega
      obtain rfl : count = 0 := by omega
      exact follows_zero fun ctx hctx =>
        ⟨[], _, arguments_nil _ (h.first_nil ctx hctx), arguments_nil _ (h.second_nil ctx hctx)⟩
    · obtain ⟨a, rfl, -⟩ := exists_eq_succ hapos
      obtain ⟨b, rfl, -⟩ := exists_eq_succ hbpos
      exact hsucc a b ha hb

theorem follows_argumentList {a b : Nat} (hn : m ≤ n) (ha : m ≤ a) (hb : m ≤ b) :
    Follows m (argumentList nested a) (argumentList nested' b) :=
  follows_peek_bind fun _ => follows_ite (fun _ => follows_pure _) fun _ =>
    follows_arguments h hn ha hb (.inl rfl)

theorem follows_calls {a b : Nat} (hn : m ≤ n + 1) (ha : m ≤ a) (hb : m ≤ b) (callee : Expr) :
    Follows m (calls nested a callee) (calls nested' b callee) := by
  induction m using Nat.strongRecOn generalizing a b callee with
  | ind m ih =>
    cases m with
    | zero =>
      exact follows_zero fun ctx _ => ⟨[], .ok callee, calls_stop (by simp), calls_stop (by simp)⟩
    | succ m =>
      obtain ⟨a, rfl, ha'⟩ := exists_eq_succ ha
      obtain ⟨b, rfl, hb'⟩ := exists_eq_succ hb
      refine follows_take?_bind (follows_pure callee) fun _ k hk => ?_
      refine (follows_argumentList h (by omega) (by omega) (by omega)).bind fun arguments => ?_
      refine (follows_expect _ _).bind_strict (strict_expect _ _) fun paren l hl => ?_
      exact ih l (by omega) (by omega) (by omega) (by omega) _

theorem follows_unary {a b : Nat} (hn : m ≤ n + 1) (ha : m ≤ a) (hb : m ≤ b) :
    Follows m (unary nested a) (unary nested' b) := by
  induction m generalizing a b with
  | zero => exact follows_zero fun ctx hctx => ⟨[], _, unary_nil _ _ hctx, unary_nil _ _ hctx⟩
  | succ m ih =>
    obtain ⟨a, rfl, ha'⟩ := exists_eq_succ ha
    obtain ⟨b, rfl, hb'⟩ := exists_eq_succ hb
    refine follows_take?_bind ?_ fun operator k hk => ?_
    · have hprimary := (follows_primary h).mono hn
      refine hprimary.bind_strict (primary_reads h.reads).strict fun callee k hk => ?_
      exact follows_calls h (by omega) (by omega) (by omega) callee
    · have hoperand := (ih (by omega) ha' hb').mono (Nat.le_of_lt_succ hk)
      exact hoperand.bind fun operand => follows_pure _

theorem follows_disjunction {a b : Nat} (hn : m ≤ n + 1) (ha : m ≤ a) (hb : m ≤ b) :
    Follows m (disjunction nested a) (disjunction nested' b) := by
  unfold disjunction conjunction equality comparison term factor
  iterate 6 refine follows_chain ?_ ha hb
  exact follows_unary h hn ha hb

theorem follows_assignment {a b : Nat} (ha : n + 1 ≤ a) (hb : n + 1 ≤ b) :
    Follows (n + 1) (assignment nested a) (assignment nested' b) := by
  refine (follows_disjunction h (Nat.le_refl _) ha hb).bind fun target => ?_
  refine follows_take?_bind (follows_pure target) fun equals k hk => ?_
  refine (h.follows.mono (Nat.le_of_lt_succ hk)).bind fun value => ?_
  cases target with
  | «variable» name => exact follows_pure _
  | literal | grouping | unary | binary | logical | assign | call =>
    exact (follows_report _ _).bind fun _ => follows_pure _

omit h in
/-- Any two bounds on the number of tokens serve an expression alike. -/
theorem follows_expression {n a b : Nat} (ha : n ≤ a) (hb : n ≤ b) :
    Follows n (expression a) (expression b) := by
  induction n generalizing a b with
  | zero => exact follows_zero fun ctx hctx => ⟨[], _, expression_nil a hctx, expression_nil b hctx⟩
  | succ n ih =>
    obtain ⟨a, rfl, ha'⟩ := exists_eq_succ ha
    obtain ⟨b, rfl, hb'⟩ := exists_eq_succ hb
    exact follows_assignment ⟨ih ha' hb', expression_reads a, fun _ hctx => expression_nil a hctx,
      fun _ hctx => expression_nil b hctx⟩ ha hb

end Expressions

/-! ## Statements -/

section Statements

theorem ReadsStatements.strict_declaration {p : Parser Stmt} (h : ReadsStatements Declaration p) :
    Strict p := by
  intro ctx ts reports rest s hctx hread
  obtain ⟨w, _, rfl, hw, -⟩ := h hctx hread
  have hpos := List.length_pos_iff.2 hw.ne_nil
  rw [List.length_append]
  omega

theorem block_nil (declaration : Parser Stmt) (bound : Nat) (hctx : ctx.ending.kind = .endOfInput) :
    block declaration bound ctx [] = ⟨[], [], .error ⟨.expected .braceAfterBlock, ctx.ending⟩⟩ := by
  cases bound with
  | zero => rfl
  | succ bound =>
    rw [block, peek_bind_apply, List.head?_nil, Option.getD_none, hctx]
    rfl

theorem parameters_nil (bound : Nat) :
    parameters bound 0 ctx [] = ⟨[], [], .error ⟨.expected .parameterName, ctx.ending⟩⟩ := by
  cases bound <;> rfl

theorem follows_parameters {a b count : Nat} (ha : m ≤ a) (hb : m ≤ b)
    (hcount : count = 0 ∨ m < a ∧ m < b) :
    Follows m (parameters a count) (parameters b count) := by
  induction m using Nat.strongRecOn generalizing a b count with
  | ind m ih =>
    have hsucc (a b : Nat) (ha : m ≤ a + 1) (hb : m ≤ b + 1) :
        Follows m (parameters (a + 1) count) (parameters (b + 1) count) := by
      unfold parameters
      refine follows_check ?_
      refine (follows_expect _ _).bind_strict (strict_expect _ _) fun parameter k hk => ?_
      refine follows_take?_bind (follows_pure _) fun _ l hl => ?_
      have hothers : Follows l (parameters a (count + 1)) (parameters b (count + 1)) :=
        ih l (by omega) (by omega) (by omega) (.inr ⟨by omega, by omega⟩)
      exact hothers.bind fun others => follows_pure _
    rcases Nat.eq_zero_or_pos a with rfl | hapos
    · obtain rfl : m = 0 := by omega
      obtain rfl : count = 0 := by omega
      exact follows_zero fun ctx _ => ⟨[], _, parameters_nil _, parameters_nil _⟩
    rcases Nat.eq_zero_or_pos b with rfl | hbpos
    · obtain rfl : m = 0 := by omega
      obtain rfl : count = 0 := by omega
      exact follows_zero fun ctx _ => ⟨[], _, parameters_nil _, parameters_nil _⟩
    · obtain ⟨a, rfl, -⟩ := exists_eq_succ hapos
      obtain ⟨b, rfl, -⟩ := exists_eq_succ hbpos
      exact hsucc a b ha hb

theorem follows_parameterList {a b : Nat} (ha : m ≤ a) (hb : m ≤ b) :
    Follows m (parameterList a) (parameterList b) :=
  follows_peek_bind fun _ => follows_ite (fun _ => follows_pure _) fun _ =>
    follows_parameters ha hb (.inl rfl)

theorem follows_block {declaration declaration' : Parser Stmt}
    (h : Follows m declaration declaration') (hstrict : Strict declaration) {a b : Nat} (ha : m ≤ a)
    (hb : m ≤ b) : Follows m (block declaration a) (block declaration' b) := by
  induction m using Nat.strongRecOn generalizing a b with
  | ind m ih =>
    cases m with
    | zero => exact follows_zero fun ctx hctx => ⟨[], _, block_nil _ _ hctx, block_nil _ _ hctx⟩
    | succ m =>
      obtain ⟨a, rfl, ha'⟩ := exists_eq_succ ha
      obtain ⟨b, rfl, hb'⟩ := exists_eq_succ hb
      refine follows_peek_bind fun t => follows_ite (fun _ => ?_) fun _ => ?_
      · exact (follows_expect _ _).bind fun _ => follows_pure _
      · refine h.bind_strict hstrict fun first k hk => ?_
        have hothers := ih k hk (h.mono (Nat.le_of_lt hk)) (by omega : k ≤ a) (by omega : k ≤ b)
        exact hothers.bind fun others => follows_pure _

/-- Two sets of readers for what is nested in a statement. An expression may begin at the first token of the
statement, a nested statement only behind it. -/
structure Nested.Follows (n : Nat) (nested nested' : Nested) : Prop where
  expression : Parser.Follows (n + 1) nested.expression nested'.expression
  statement : Parser.Follows n nested.statement nested'.statement
  declaration : Parser.Follows n nested.declaration nested'.declaration
  strict : Strict nested.declaration

theorem follows_optional {c : Prop} [Decidable c] {p q : Parser Expr} {f g : Option Expr → Parser β}
    (h : Follows n p q) (hnext : ∀ value, Follows n (f value) (g value)) :
    Follows n (if c then pure none >>= f else (some <$> p) >>= f)
      (if c then pure none >>= g else (some <$> q) >>= g) :=
  follows_ite (fun _ => (follows_pure none).bind hnext) fun _ => (h.map some).bind hnext

variable {nested nested' : Nested} (h : nested.Follows n nested')

include h

theorem follows_functionDeclaration {a b : Nat} (ha : n ≤ a) (hb : n ≤ b) :
    Follows n (functionDeclaration nested a) (functionDeclaration nested' b) :=
  (follows_expect _ _).bind fun _ => (follows_expect _ _).bind fun _ =>
    (follows_parameterList ha hb).bind fun _ => (follows_expect _ _).bind fun _ =>
      (follows_expect _ _).bind fun _ =>
        (follows_block h.declaration h.strict ha hb).insideFunction.bind fun _ => follows_pure _

theorem follows_variableDeclaration (hm : m ≤ n + 1) :
    Follows m (variableDeclaration nested) (variableDeclaration nested') := by
  refine (follows_expect _ _).bind fun name => (follows_passes _).bind fun found => ?_
  have hexpression := h.expression.mono hm
  cases found with
  | false =>
    exact (follows_pure none).bind fun _ => (follows_semicolon _).bind fun _ => follows_pure _
  | true =>
    exact (hexpression.map some).bind fun _ => (follows_semicolon _).bind fun _ => follows_pure _

theorem follows_expressionStatement (hm : m ≤ n + 1) :
    Follows m (expressionStatement nested) (expressionStatement nested') :=
  (h.expression.mono hm).bind fun _ => (follows_semicolon _).bind fun _ => follows_pure _

theorem follows_printed : Follows n (printed nested) (printed nested') :=
  (h.expression.mono (Nat.le_succ n)).bind fun _ => (follows_semicolon _).bind fun _ => follows_pure _

theorem follows_result (keyword : Token) : Follows n (result nested keyword) (result nested' keyword) := by
  have hexpression := h.expression.mono (Nat.le_succ n)
  have hinFunction : Follows n inFunction inFunction := fun _ _ _ _ => ⟨[], rfl, fun _ _ => rfl⟩
  have hvalue := follows_peek_bind (n := n) fun t =>
    follows_optional (c := t.kind = .semicolon) hexpression fun value =>
      (follows_semicolon .semicolonAfterResult).bind fun _ => follows_pure (Stmt.result keyword value)
  exact hinFunction.bind fun inside => follows_ite (fun _ => (follows_report _ _).bind fun _ => hvalue)
    fun _ => hvalue

theorem follows_conditional : Follows n (conditional nested) (conditional nested') := by
  have hexpression := h.expression.mono (Nat.le_succ n)
  refine (follows_expect _ _).bind fun _ => hexpression.bind fun _ => (follows_expect _ _).bind fun _ =>
    h.statement.bind fun _ => (follows_passes _).bind fun found => ?_
  cases found with
  | false => exact follows_pure _
  | true => exact h.statement.bind fun _ => follows_pure _

theorem follows_whileLoop : Follows n (whileLoop nested) (whileLoop nested') :=
  (follows_expect _ _).bind fun _ => (h.expression.mono (Nat.le_succ n)).bind fun _ =>
    (follows_expect _ _).bind fun _ => h.statement.bind fun _ => follows_pure _

theorem follows_initializer : Follows n (initializer nested) (initializer nested') := by
  refine (follows_passes _).bind fun empty => follows_ite (fun _ => follows_pure _) fun _ => ?_
  refine (follows_passes _).bind fun declared => follows_ite (fun _ => ?_) fun _ => ?_
  · exact (follows_variableDeclaration h (Nat.le_succ n)).map some
  · exact (follows_expressionStatement h (Nat.le_succ n)).map some

theorem follows_forLoop : Follows n (forLoop nested) (forLoop nested') := by
  have hexpression := h.expression.mono (Nat.le_succ n)
  exact (follows_expect _ _).bind fun _ => (follows_initializer h).bind fun _ =>
    follows_peek_bind fun _ => follows_optional hexpression fun _ =>
      (follows_semicolon _).bind fun _ => follows_peek_bind fun _ =>
        follows_optional hexpression fun _ => (follows_expect _ _).bind fun _ =>
          h.statement.bind fun _ => follows_pure _

theorem follows_statementWith {a b : Nat} (ha : n ≤ a) (hb : n ≤ b) :
    Follows (n + 1) (statementWith nested a) (statementWith nested' b) := by
  intro ctx ts hctx hts
  refine followsAt_peek_bind ?_
  cases ts with
  | nil =>
    -- at the end there is no keyword
    rw [List.head?_nil, Option.getD_none, hctx]
    exact follows_expressionStatement h (Nat.le_refl _) hctx hts
  | cons t ts =>
    have hts' : ts.length ≤ n := Nat.le_of_succ_le_succ hts
    rw [List.head?_cons, Option.getD_some]
    split
    case h_1 => exact followsAt_skip_bind (follows_printed h hctx hts')
    case h_2 =>
      exact followsAt_skip_bind ((follows_block h.declaration h.strict ha hb).map Stmt.block hctx hts')
    case h_3 => exact followsAt_skip_bind (follows_conditional h hctx hts')
    case h_4 => exact followsAt_skip_bind (follows_whileLoop h hctx hts')
    case h_5 => exact followsAt_skip_bind (follows_forLoop h hctx hts')
    case h_6 => exact followsAt_skip_bind (follows_result h t hctx hts')
    case h_7 => exact follows_expressionStatement h (Nat.le_refl _) hctx hts

theorem follows_declarationWith {a b : Nat} (ha : n ≤ a) (hb : n ≤ b) :
    Follows (n + 1) (declarationWith nested a) (declarationWith nested' b) := by
  intro ctx ts hctx hts
  refine followsAt_peek_bind ?_
  cases ts with
  | nil =>
    rw [List.head?_nil, Option.getD_none, hctx]
    exact follows_statementWith h ha hb hctx hts
  | cons t ts =>
    have hts' : ts.length ≤ n := Nat.le_of_succ_le_succ hts
    rw [List.head?_cons, Option.getD_some]
    split
    · exact followsAt_skip_bind (follows_variableDeclaration h (Nat.le_succ n) hctx hts')
    · exact followsAt_skip_bind (follows_functionDeclaration h ha hb hctx hts')
    · exact follows_statementWith h ha hb hctx hts

omit h

theorem item_nil (bound : Nat) (declarations : Bool) (hctx : ctx.ending.kind = .endOfInput) :
    item bound declarations ctx [] = ⟨[], [], .error ⟨.expected .expression, ctx.ending⟩⟩ := by
  cases bound with
  | zero => rfl
  | succ bound =>
    have hstatement (nested : Nested) (hnested : nested.expression = expression (bound + 1)) :
        expressionStatement nested ctx [] =
          ⟨[], [], .error ⟨.expected .expression, ctx.ending⟩⟩ := by
      change Parser.bind nested.expression _ ctx [] = _
      rw [hnested, Parser.bind, expression_nil _ hctx]
    unfold item
    dsimp only
    split
    · rw [declarationWith_nil hctx]
      exact hstatement _ rfl
    · rw [statementWith_nil hctx]
      exact hstatement _ rfl

/-- Any two bounds on the number of tokens serve a statement or declaration alike. -/
theorem follows_item {n a b : Nat} (ha : n ≤ a) (hb : n ≤ b) (declarations : Bool) :
    Follows n (item a declarations) (item b declarations) := by
  induction n generalizing a b declarations with
  | zero =>
    exact follows_zero fun ctx hctx => ⟨[], _, item_nil a _ hctx, item_nil b _ hctx⟩
  | succ n ih =>
    obtain ⟨a, rfl, ha'⟩ := exists_eq_succ ha
    obtain ⟨b, rfl, hb'⟩ := exists_eq_succ hb
    have hnested : Nested.Follows n ⟨expression (a + 1), item a false, item a true⟩
        ⟨expression (b + 1), item b false, item b true⟩ :=
      ⟨follows_expression ha hb, ih ha' hb' false, ih ha' hb' true,
        (item_reads a).2.strict_declaration⟩
    exact follows_ite (fun _ => follows_declarationWith hnested (by omega) (by omega))
      fun _ => follows_statementWith hnested (by omega) (by omega)

end Statements

/-- What stands behind the token that a declaration leaves next does not matter, and neither does the
bound. -/
theorem declaration_eq_of_head?_eq {begun rest rest' : List Token} {reports : List SyntaxError}
    {outcome : Except SyntaxError Stmt} {a b : Nat} (hctx : ctx.ending.kind = .endOfInput)
    (ha : (begun ++ rest).length ≤ a) (hb : (begun ++ rest).length ≤ b)
    (h : declaration a ctx (begun ++ rest) = ⟨reports, rest, outcome⟩)
    (hhead : rest'.head? = rest.head?) :
    declaration b ctx (begun ++ rest') = ⟨reports, rest', outcome⟩ := by
  obtain ⟨begun', hbegun, hfollows⟩ := follows_item ha hb true hctx (Nat.le_refl _)
  rw [declaration] at h
  rw [h] at hbegun hfollows
  obtain rfl : begun = begun' := List.append_cancel_right hbegun
  exact hfollows rest' hhead

end LoxScript.Parser
