import LoxScript.Proofs.Evaluation.Grounded
import LoxScript.Proofs.Evaluation.Results
import LoxScript.Proofs.Syntax.Soundness

/-!
# The meaning of `for` loops

A `for` loop has no node of its own. The parser makes a `while` loop of it, in the body of which the
increment stands in one block with the body, and it puts the initializer and that loop in a block around
both. So every turn runs in an empty scope that the text does not show.

Here the loop is given a meaning of its own, clause by clause, in which body and increment run in the
scope of the loop. A run of the tree and a run of this meaning end in the same way, write the same, and
leave the same variables. The scopes of the turns remain empty because the body is a statement and no
declaration: it declares nothing in the scope that it stands in.

The tree takes up to seven more from the bound than the meaning.

## Main definitions

* `ForLoop`, with `ForLoop.tree`: the clauses and the body, and what the parser makes of them.
* `ForLoop.meaning`: the loop, clause by clause.
* `Session.SameEnd`: two runs from one session ended in the same way.

## Main statements

* `ForLoop.exists_of_forLoop`: what the parser makes of a `for` loop is the tree of one.
* `Grammar.Statement.undeclaring`: what may be a body declares nothing in the scope that it stands in.
* `ForLoop.parallel_meaning`: the meaning and the tree run in parallel.
* `ForLoop.tree_run`: the tree means what the clauses say.
-/

namespace LoxScript

/-- The parser reads `a` from some tokens. -/
def Parser.Accepts {α : Type} (p : Parser α) (a : α) : Prop :=
  ∃ ctx ts reports rest, ctx.ending.kind = .endOfInput ∧ p ctx ts = ⟨reports, rest, .ok a⟩

/-- The readers of what stands inside a statement, under the given bounds. -/
def Parser.nested (bound depth : Nat) : Parser.Nested :=
  ⟨Parser.expression bound, Parser.statement depth, Parser.declaration depth⟩

/-- The clauses and the body of a `for` loop, each one that the parser accepts in its place. -/
structure ForLoop where
  /-- What runs first. -/
  initial : Option Stmt
  /-- What is asked before each turn. -/
  condition : Option Expr
  /-- What is evaluated after the body. -/
  increment : Option Expr
  /-- The body. -/
  body : Stmt
  initial_accepted : ∃ bound depth,
    (Parser.initializer (Parser.nested bound depth)).Accepts initial
  condition_accepted : ∀ e ∈ condition, ∃ bound, (Parser.expression bound).Accepts e
  increment_accepted : ∀ e ∈ increment, ∃ bound, (Parser.expression bound).Accepts e
  body_accepted : ∃ bound, (Parser.statement bound).Accepts body

namespace ForLoop

open Eval

variable {A : Arithmetic}

/-- The tree that the parser makes of the loop. -/
def tree (loop : ForLoop) : Stmt :=
  Parser.forTree loop.initial loop.condition loop.increment loop.body

/-- Whether there is another turn. Without a condition there is. -/
def test (A : Arithmetic) (loop : ForLoop) (bound : Nat) : Eval Bool :=
  match loop.condition with
  | none => pure true
  | some condition => do return (← evaluate A bound condition).truthy

/-- The increment, if there is one. -/
def advance (A : Arithmetic) (loop : ForLoop) (bound : Nat) : Eval Completion :=
  match loop.increment with
  | none => pure .normal
  | some increment => do
    let _ ← evaluate A bound increment
    pure .normal

/-- One turn: the body, and if that gives no result, the increment. -/
def turn (A : Arithmetic) (loop : ForLoop) (bound : Nat) : Eval Completion := do
  match ← execute A bound loop.body with
  | .normal => loop.advance A bound
  | .returned value => pure (.returned value)

/-- Turn after turn, as long as the condition holds and no turn gives a result. -/
def turns (A : Arithmetic) (loop : ForLoop) : (bound : Nat) → Eval Completion
  | 0 => throw .exhausted
  | bound + 1 => do
    if ← loop.test A bound then
      match ← loop.turn A bound with
      | .normal => loop.turns A bound
      | .returned value => pure (.returned value)
    else pure .normal

/-- The loop, clause by clause. The initializer runs once, in a scope of the loop, in which everything
else runs as well. -/
def meaning (A : Arithmetic) (loop : ForLoop) (bound : Nat) : Eval Completion :=
  match loop.initial with
  | none => loop.turns A bound
  | some initial => do
    inNewScope (← get).active do
      let _ ← execute A bound initial
      loop.turns A bound

end ForLoop

/-- Two runs from `s` ended in the same way: both at their end, both with the same result, or both for the
same reason. They wrote the same, and every name has the same value, wherever it is seen from. The scopes
are laid out as `U` says, which leaves those of `s` where they were: the second run has all the scopes of
the first, and empty ones besides. -/
structure Session.SameEnd (U : Layout) (s : Session) (o o' : Except Stop Completion × Session) :
    Prop where
  kept : Layout.identity s.scopes.next <+: U
  completion : Outcome.Moved (Completion.Moved U) o.1 o'.1
  output : o'.2.output = o.2.output
  values : ∀ {id id' : ScopeId} (name : String), U.Leads id id' →
    Option.Rel (Value.Moved U) (o.2.scopes.get? id name) (o'.2.scopes.get? id' name)
  session : Session.Moved U true o.2 o'.2

/-! ## What the parser accepts -/

theorem Parser.ReadsOptional.accepts {p : Parser Expr} {kind : Token.Kind} {ctx : Parser.Context}
    {ts rest : List Token} {reports : List SyntaxError} {e? : Option Expr}
    (h : Parser.ReadsOptional p kind ctx ts reports rest e?) (hctx : ctx.ending.kind = .endOfInput) :
    ∀ e ∈ e?, Parser.Accepts p e := by
  rcases h with ⟨-, rfl, -, -⟩ | ⟨-, e, rfl, he⟩
  · simp
  · rintro _ ⟨⟩
    exact ⟨ctx, ts, reports, rest, hctx, he⟩

/-- What the parser makes of a `for` loop, from behind the keyword, is the tree of a loop. -/
theorem ForLoop.exists_of_forLoop {bound depth : Nat} {s : Stmt}
    (h : (Parser.forLoop (Parser.nested bound depth)).Accepts s) : ∃ loop : ForLoop, s = loop.tree := by
  obtain ⟨ctx, ts, reports, rest, hctx, hread⟩ := h
  obtain ⟨l, semi, r, mid, mid', mid'', last, initial, condition, increment, body, first, second, third,
    fourth, -, -, hinitial, hcondition, -, hincrement, -, hbody, rfl, -⟩ :=
    Parser.forLoop_eq_ok_iff.1 hread
  let loop : ForLoop :=
    { initial, condition, increment, body
      initial_accepted := ⟨bound, depth, _, _, _, _, hctx, hinitial⟩
      condition_accepted := fun e he => ⟨bound, hcondition.accepts hctx e he⟩
      increment_accepted := fun e he => ⟨bound, hincrement.accepts hctx e he⟩
      body_accepted := ⟨depth, _, _, _, _, hctx, hbody⟩ }
  exact ⟨loop, rfl⟩

namespace Grammar

theorem loopTree_undeclaring (initial : Option Stmt) (condition increment : Option Expr) {body : Stmt}
    (hbody : body.Undeclaring) : (loopTree initial condition increment body).Undeclaring := by
  have hturn : (turn increment body).Undeclaring := by
    cases increment with
    | none => exact hbody
    | some e => exact .block _
  cases initial with
  | none => exact .loop _ hturn
  | some s => exact .block _

/-- A statement declares nothing in the scope that it stands in: `var` and `fun` begin declarations. -/
theorem Statement.undeclaring {f dangling : Bool} {w : List Token} {s : Stmt} {faults : List SyntaxError}
    (h : Statement f dangling w s faults) : s.Undeclaring := by
  match h with
  | .expression _ _ => exact .expression _
  | .print _ _ _ => exact .print _
  | .block _ _ _ => exact .block _
  | .ifThen _ _ _ _ hs => exact .ifThen _ hs.undeclaring
  | .ifElse _ _ _ _ hs _ ht => exact .ifElse _ hs.undeclaring ht.undeclaring
  | .whileLoop _ _ _ _ hs => exact .loop _ hs.undeclaring
  | .forLoop _ _ _ _ _ _ _ hs => exact loopTree_undeclaring _ _ _ hs.undeclaring
  | .result _ _ _ => exact .result _ _

end Grammar

/-! ## The tree -/

namespace Eval

open Session

variable {α β : Type} {pace : Pace} {W : Layout} {proper : Bool} {A : Arithmetic}
  {bound bound' : Nat}

/-- Nothing is added to an evaluation by looking at how it ended. -/
theorem match_completion (m : Eval Completion) :
    (do match ← m with
      | .normal => pure .normal
      | .returned value => pure (.returned value)) = m := by
  have hend : ∀ c : Completion, (match c with
      | .normal => pure .normal
      | .returned value => pure (.returned value) : Eval Completion) = pure c := by
    rintro (_ | _) <;> rfl
  simp only [hend, bind_pure]

theorem executeEach_singleton (s : Stmt) :
    executeEach A (bound + 2) [s] = execute A (bound + 1) s := by
  have hnil : executeEach A (bound + 1) [] = pure .normal := rfl
  rw [executeEach, hnil]
  exact match_completion _

/-- What runs in parallel with a statement runs in parallel with it at the end of a list. -/
theorem Parallel.singleton {R : Layout → α → Completion → Prop} {m : Eval α} {s : Stmt} {extra : Nat}
    (hm : ∀ bound', pace.Bounds (extra + 1) bound bound' →
      Parallel pace W proper R m (execute A bound' s))
    (happends : Appends m) (hbounds : pace.Bounds (extra + 2) bound bound') :
    Parallel pace W proper R m (executeEach A bound' [s]) := by
  cases bound' with
  | zero => exact parallel_of_short hbounds happends
  | succ bound' =>
    cases bound' with
    | zero => exact parallel_of_short hbounds.spend happends
    | succ bound' =>
      rw [executeEach_singleton]
      exact hm (bound' + 1) hbounds.spend

/-- Where the first run only ends with certain values, the comparison may go on with these. -/
theorem Parallel.only {R : Layout → α → β → Prop} {Q : α → Prop} {m : Eval α} {m' : Eval β}
    (hm : Parallel pace W proper R m m') (hQ : Only Q m) :
    Parallel pace W proper (fun U a b => R U a b ∧ Q a) m m' := by
  refine ⟨hm.appends, hm.appends', fun V s s' hV hs => (hm.run hV hs).imp_right ?_⟩
  rintro ⟨U, hU, houtcome, hrest⟩
  refine ⟨U, hU, ?_, hrest⟩
  have hvalue := hQ s
  generalize (s.run m).1 = r at houtcome hvalue
  generalize (s'.run m').1 = r' at houtcome
  cases houtcome with
  | ok h => exact .ok ⟨h, hvalue _ rfl⟩
  | error stop => exact .error stop

/-- A value decides as a condition that was asked. -/
def Decides (_ : Layout) (again : Bool) (v : Value) : Prop := v.truthy = again

instance : Total Decides where
  right W again := ⟨W, .bool again, List.prefix_rfl, rfl⟩
  left W v := ⟨W, v.truthy, List.prefix_rfl, rfl⟩

end Eval

namespace ForLoop

open Eval

variable {pace : Pace} {A : Arithmetic} {bound bound' : Nat} (W : Layout) (proper : Bool)
  (loop : ForLoop)

theorem body_undeclaring : loop.body.Undeclaring := by
  obtain ⟨bound, ctx, ts, reports, rest, hctx, hbody⟩ := loop.body_accepted
  obtain ⟨_, _, -, hstatement, -⟩ := (Parser.item_reads bound).1 hctx hbody
  exact hstatement.undeclaring

theorem appends_test (bound : Nat) : Appends (loop.test A bound) := by
  unfold test
  cases loop.condition with
  | none => exact appends_pure true
  | some condition => exact (appends_evaluate bound condition).bind fun v => appends_pure v.truthy

theorem appends_advance (bound : Nat) : Appends (loop.advance A bound) := by
  unfold advance
  cases loop.increment with
  | none => exact appends_pure _
  | some increment => exact (appends_evaluate bound increment).bind fun _ => appends_pure _

theorem appends_turn (bound : Nat) : Appends (loop.turn A bound) := by
  refine (appends_execute bound loop.body).bind fun c => ?_
  cases c with
  | normal => exact loop.appends_advance bound
  | returned value => exact appends_pure _

theorem appends_turns (bound : Nat) : Appends (loop.turns A bound) := by
  induction bound with
  | zero => exact appends_throw _
  | succ bound ih =>
    refine (loop.appends_test bound).bind fun again => ?_
    split
    · refine (loop.appends_turn bound).bind fun c => ?_
      cases c with
      | normal => exact ih
      | returned value => exact appends_pure _
    · exact appends_pure _

theorem appends_meaning (bound : Nat) : Appends (loop.meaning A bound) := by
  unfold meaning
  cases loop.initial with
  | none => exact loop.appends_turns bound
  | some initial =>
    refine Appends.inActiveScope ?_
    exact (appends_execute bound initial).bind fun _ => loop.appends_turns bound

/-- The condition that is written, or the one that stands in for it, decides as the clause does. -/
theorem parallel_test (hbounds : pace.Bounds 1 bound bound') :
    Parallel pace W proper Decides (loop.test A bound)
      (evaluate A bound' (loop.condition.getD (.literal (.bool true)))) := by
  unfold test
  cases loop.condition with
  | none =>
    cases bound' with
    | zero => exact parallel_of_short hbounds (appends_pure true)
    | succ bound' => exact parallel_pure fun _ _ => rfl
  | some condition =>
    have hsame := (Eval.parallel A (hbounds.le (Nat.zero_le 1))).evaluate W proper condition
    rw [Option.getD_some, ← bind_pure (evaluate A bound' condition)]
    exact hsame.bind fun V _ v v' hv => parallel_pure fun _ _ => hv.truthy

theorem parallel_expression (e : Expr) (hbounds : pace.Bounds 1 bound bound') :
    Parallel pace W proper Completion.Moved (do let _ ← evaluate A bound e; pure .normal)
      (execute A bound' (.expression e)) := by
  cases bound' with
  | zero =>
    exact parallel_of_short hbounds ((appends_evaluate bound e).bind fun _ => appends_pure _)
  | succ bound' =>
    refine ((Eval.parallel A hbounds.spend).evaluate W proper e).bind fun _ _ _ _ _ => ?_
    exact parallel_pure fun _ _ => .normal

/-- A turn of the tree runs in a scope of its own if there is an increment. The scope stays empty. -/
theorem parallel_turn (hbounds : pace.Bounds 4 bound bound') :
    Parallel pace W proper Completion.Moved (loop.turn A bound)
      (execute A bound' (Grammar.turn loop.increment loop.body)) := by
  have happends : Appends (loop.turn A bound) := loop.appends_turn bound
  unfold turn advance at happends ⊢
  -- without an increment the tree has no block around the body, so there is no scope either
  cases hincrement : loop.increment with
  | none =>
    dsimp only
    rw [match_completion]
    exact (Eval.parallel A (hbounds.le (Nat.zero_le 4))).execute W (.inr loop.body_undeclaring)
  | some increment =>
    rw [hincrement] at happends
    cases bound' with
    | zero => exact parallel_of_short hbounds happends
    | succ bound' =>
      refine Parallel.inEmptyScope ?_
      cases bound' with
      | zero => exact parallel_of_short hbounds.spend happends
      | succ bound' =>
        have hbounds := hbounds.spend.spend
        have hbody : Parallel pace W false Completion.Moved (execute A bound loop.body)
            (execute A bound' loop.body) :=
          (Eval.parallel A (hbounds.le (Nat.zero_le 2))).execute W (.inr loop.body_undeclaring)
        refine hbody.bind fun V _ c c' hc => ?_
        cases hc with
        | normal =>
          refine Parallel.singleton (fun _ => parallel_expression V false increment) ?_ hbounds
          exact (appends_evaluate bound increment).bind fun _ => appends_pure _
        | returned hv => exact parallel_pure fun _ hU => .returned (hv.mono hU)

/-- Turn after turn, the clauses run in parallel with the `while` loop in the tree. -/
theorem parallel_turns (hbounds : pace.Bounds 4 bound bound') :
    Parallel pace W proper Completion.Moved (loop.turns A bound)
      (execute A bound' (.loop (loop.condition.getD (.literal (.bool true)))
        (Grammar.turn loop.increment loop.body))) := by
  -- both sides take one from their bounds for each turn
  induction bound generalizing W bound' with
  | zero =>
    exact parallel_of_zero (hbounds.le (Nat.zero_le 4)) (.inl rfl) (loop.appends_turns 0)
      (appends_execute bound' _) (fun _ => rfl) (by rintro rfl; rfl)
  | succ bound ih =>
    cases bound' with
    | zero => exact parallel_of_short hbounds (loop.appends_turns (bound + 1))
    | succ bound' =>
      have hbounds := hbounds.pred
      refine (loop.parallel_test W proper (hbounds.le (by decide))).bind fun V _ again v hv => ?_
      rw [hv]
      split
      · refine (loop.parallel_turn V proper hbounds).bind fun U _ c c' hc => ?_
        cases hc with
        | normal => exact ih U hbounds
        | returned hv => exact parallel_pure fun _ hU => .returned (hv.mono hU)
      · exact parallel_pure fun _ _ => .normal

theorem initial_only_normal : ∀ s ∈ loop.initial, Only (· = .normal) (execute A bound s) := by
  intro s hs
  obtain ⟨limit, depth, ctx, ts, reports, rest, hctx, hinitial⟩ := loop.initial_accepted
  obtain ⟨_, -, hinitializer⟩ :=
    Parser.initializer_reads (Parser.expression_reads limit) hctx hinitial
  exact (endsNormally A bound).execute (hinitializer.resultFree s hs)

/-- The clauses run in parallel with the tree. -/
theorem parallel_meaning (hbounds : pace.Bounds 7 bound bound') :
    Parallel pace W proper Completion.Moved (loop.meaning A bound) (execute A bound' loop.tree) := by
  have happends : Appends (loop.meaning A bound) := loop.appends_meaning bound
  have hnormal : ∀ s ∈ loop.initial, Only (· = .normal) (execute A bound s) :=
    loop.initial_only_normal
  unfold tree
  rw [Parser.forTree_eq_loopTree]
  unfold Grammar.loopTree
  unfold meaning at happends ⊢
  cases hinitial : loop.initial with
  | none => exact loop.parallel_turns W proper (hbounds.le (by decide))
  | some initial =>
    rw [hinitial] at happends
    cases bound' with
    | zero => exact parallel_of_short hbounds happends
    | succ bound' =>
      refine Parallel.inActiveScope ?_
      have hturns : ∀ c : Completion, Appends (loop.turns A bound) := fun _ =>
        loop.appends_turns bound
      cases bound' with
      | zero =>
        exact parallel_of_short hbounds.spend ((appends_execute bound initial).bind hturns)
      | succ bound' =>
        have hbounds := hbounds.spend.spend
        have hfirst : Parallel pace W true Completion.Moved (execute A bound initial)
            (execute A bound' initial) :=
          (Eval.parallel A (hbounds.le (Nat.zero_le 5))).execute W (.inl rfl)
        refine (hfirst.only (hnormal initial hinitial)).bind_of_appends hturns (fun c => ?_) ?_
        · cases c with
          | normal => exact appends_executeEach bound' _
          | returned value => exact appends_pure _
        -- the initializer gives no result, so the tree goes on to the loop as well
        · rintro V _ c c' ⟨hc, rfl⟩
          cases hc with
          | normal =>
            exact Parallel.singleton (fun _ => loop.parallel_turns V true) (hturns .normal) hbounds

/-! ## The meaning of the tree -/

/-- Parallel runs from one session end in the same way, unless the one that decides reaches its bound. -/
theorem sameEnd_of_parallel {m m' : Eval Completion} {s : Session} (hs : s.Grounded)
    (hm : Parallel pace (Layout.identity s.scopes.next) true Completion.Moved m m') :
    pace.Escapes (s.run m) (s.run m') ∨ ∃ U, s.SameEnd U (s.run m) (s.run m') := by
  refine (hm.run List.prefix_rfl hs.moved_self).imp_right ?_
  rintro ⟨U, hU, houtcome, hsession, -⟩
  exact ⟨U, hU, houtcome, hsession.output, fun name hlead => hsession.scopes.get? name hlead, hsession⟩

/-- What the parser makes of a `for` loop is the tree of clauses and a body that it accepts, and that tree
means what the clauses say. From every session,

* if the loop, clause by clause, ends before it reaches its bound, then the tree ends in the same way under
  every bound that is greater by seven; and if not, the tree writes what the loop has written by then;
* if the tree ends before it reaches its bound, then the loop, clause by clause, ends in the same way under
  every bound that is not smaller; and if not, the loop writes what the tree has written by then;
* behind the body, each name belongs to the same scope as before it. So the increment, which is evaluated
  in the scope of the loop, sees no name that the body has declared.
-/
theorem tree_run (A : Arithmetic) :
    (∀ bound depth s, (Parser.forLoop (Parser.nested bound depth)).Accepts s →
      ∃ loop : ForLoop, s = loop.tree) ∧
    ∀ (loop : ForLoop) (s : Session), s.Grounded →
      (∀ bound bound', bound + 7 ≤ bound' →
        let clauses := s.run (loop.meaning A bound)
        let tree := s.run (execute A bound' loop.tree)
        clauses.1 = .error .exhausted ∧ clauses.2.WrittenIn tree.2 ∨ ∃ U, s.SameEnd U clauses tree) ∧
      (∀ bound bound', bound' ≤ bound →
        let clauses := s.run (loop.meaning A bound)
        let tree := s.run (execute A bound' loop.tree)
        tree.1 = .error .exhausted ∧ tree.2.WrittenIn clauses.2 ∨ ∃ U, s.SameEnd U clauses tree) ∧
      ∀ bound name, let t := (s.run (execute A bound loop.body)).2
        t.scopes.holder? name t.active = s.scopes.holder? name s.active := by
  refine ⟨fun bound depth s => exists_of_forLoop, fun loop s hs => ?_⟩
  refine ⟨fun bound bound' hbounds => ?_, fun bound bound' hbounds => ?_, fun bound name => ?_⟩
  · have hbounds : Pace.first.Bounds 7 bound bound' := hbounds
    exact sameEnd_of_parallel hs (loop.parallel_meaning _ true hbounds)
  · have hbounds : Pace.second.Bounds 7 bound bound' := hbounds
    exact sameEnd_of_parallel hs (loop.parallel_meaning _ true hbounds)
  · exact (hs.keeps loop.body_undeclaring bound).holder? hs name

/-- The loop `for (var a = true; a; a = false) print a;`. -/
def once : ForLoop :=
  let a : Token := ⟨.identifier, "a", 1⟩
  let semi : Token := ⟨.semicolon, ";", 1⟩
  let equal : Token := ⟨.equal, "=", 1⟩
  let yes : Token := ⟨.keyword .true, "true", 1⟩
  let no : Token := ⟨.keyword .false, "false", 1⟩
  let ctx : Parser.Context := ⟨Token.ending 1, false⟩
  { initial := some (.var a (some (.literal (.bool true))))
    condition := some (.variable a)
    increment := some (.assign a (.literal (.bool false)))
    body := .print (.variable a)
    initial_accepted :=
      ⟨3, 3, ctx, [⟨.keyword .var, "var", 1⟩, a, equal, yes, semi], [], [], rfl, by cbv⟩
    condition_accepted := by
      rintro _ ⟨⟩
      exact ⟨3, ctx, [a], [], [], rfl, by cbv⟩
    increment_accepted := by
      rintro _ ⟨⟩
      exact ⟨3, ctx, [a, equal, no], [], [], rfl, by cbv⟩
    body_accepted := ⟨3, ctx, [⟨.keyword .print, "print", 1⟩, a, semi], [], [], rfl, by cbv⟩ }

/-- In the session that scripts begin in, the loop has one turn, clause by clause, and so has its tree. -/
theorem tree_run_once :
    let s := Session.start (.stopped ⟨0⟩) .unlimited
    let clauses := s.run (once.meaning .binary64 5)
    s.Grounded ∧ clauses.1 = .ok .normal ∧ clauses.2.output = "true\n" ∧
      ∃ U, s.SameEnd U clauses (s.run (execute .binary64 12 once.tree)) := by
  intro s clauses
  have hnatives : ∀ native ∈ s.natives, native.Oblivious := by
    have hclock : s.natives = #[⟨0, .readClock⟩] := rfl
    rw [hclock]
    intro native hnative answer haction
    obtain rfl := List.mem_singleton.1 (Array.mem_def.1 hnative)
    cases haction
  have hs : s.Grounded := Session.Used.grounded (A := .binary64) (.start _ _) hnatives
  have hnormal : clauses.1 = .ok .normal := rfl
  refine ⟨hs, hnormal, rfl, ?_⟩
  obtain ⟨hclauses, -, -⟩ := (tree_run .binary64).2 once s hs
  rcases hclauses 5 12 (by decide) with ⟨hexhausted, -⟩ | hend
  · cases hnormal.symm.trans hexhausted
  · exact hend

end ForLoop

end LoxScript
