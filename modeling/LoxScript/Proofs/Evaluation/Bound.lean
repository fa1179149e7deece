import LoxScript.Proofs.Evaluation.Comparison
import LoxScript.Proofs.Evaluation.Elementary
import LoxScript.Proofs.Evaluation.Exact

/-!
# Bounds that are large enough

A run that ends before its bound is reached ends in the same way under every greater bound. Statements
in a row can then be run one part after the other, each under a bound of its own.

## Main definitions

* `Eval.Extends`: a run goes on where another one has reached its bound, and is the same otherwise.
* `Session.Ends`: how a script ends, whatever the bound.

## Main statements

* `Session.run_executeEach_add`: a greater bound changes nothing.
* `Session.run_executeEach_append`: statements in a row.
* `Session.Ends.eventually`, `Session.Ends.unique`: a script that ends does so under all large bounds, in one
  way.
-/

namespace LoxScript

namespace Eval

open Session

variable {α β : Type} {A : Arithmetic}

/-- The run of `m` reaches its bound, or `m'` does the same. -/
def Extends (R : α → β → Prop) (m : Eval α) (m' : Eval β) : Prop :=
  ∀ s : Session, (s.run m).1 = .error .exhausted ∨
    Outcome.Like (.exact fun _ => True) R (s.run m).1 (s.run m').1 ∧ (s.run m').2 = (s.run m).2

theorem extends_refl {R : α → α → Prop} (h : ∀ a, R a a) (m : Eval α) : Extends R m m := by
  intro s
  refine .inr ⟨?_, rfl⟩
  cases (s.run m).1 with
  | ok a => exact .ok (h a)
  | error stop => exact .error (Stop.like_exact_iff.2 rfl)

theorem Extends.bind {γ δ : Type} {R : α → β → Prop} {S : γ → δ → Prop} {m : Eval α} {m' : Eval β}
    {next : α → Eval γ} {next' : β → Eval δ} (hm : Extends R m m')
    (hnext : ∀ a b, R a b → Extends S (next a) (next' b)) :
    Extends S (m >>= next) (m' >>= next') := by
  intro s
  have h := hm s
  rw [run_bind, run_bind]
  generalize s.run m = o at h
  generalize s.run m' = o' at h
  obtain ⟨r, t⟩ := o
  obtain ⟨r', t'⟩ := o'
  -- where the first part ends, the second begins in the same session on both sides
  rcases h with h | ⟨houtcome, hsame⟩
  · obtain rfl : r = .error .exhausted := h
    exact .inl rfl
  · obtain rfl : t' = t := hsame
    cases houtcome with
    | ok h => exact hnext _ _ h t'
    | error h => exact .inr ⟨.error h, rfl⟩

theorem Extends.inNewScope {R : α → β → Prop} {m : Eval α} {m' : Eval β} (hm : Extends R m m')
    (parent : ScopeId) : Extends R (inNewScope parent m) (inNewScope parent m') := by
  intro s
  rw [run_inNewScope, run_inNewScope]
  rcases hm (s.enter parent) with h | ⟨houtcome, hsame⟩
  · exact .inl h
  · exact .inr ⟨houtcome, by rw [hsame]⟩

/-- Going on beyond a bound is a comparison. -/
def Comparison.extends : Comparison (.exact fun _ => True) where
  Rel := Extends
  pure h _ := .inr ⟨.ok h, rfl⟩
  bind := Extends.bind
  raise problem _ _ h _ := .inr ⟨.error (.runtime problem h), rfl⟩
  malformed _ := .inr ⟨.error .malformed, rfl⟩
  lookup := by
    rintro name _ rfl
    exact extends_refl Value.like_self _
  assign := by
    rintro name _ v v' rfl hv
    obtain ⟨rfl, -⟩ := Value.like_exact_iff.1 hv
    exact extends_refl (fun _ => trivial) _
  define name v v' hv := by
    obtain ⟨rfl, -⟩ := Value.like_exact_iff.1 hv
    exact extends_refl (fun _ => trivial) _
  makeFunction := by
    rintro name _ parameters parameters' body body' rfl hparameters hbody
    obtain rfl := Likeness.tokens_exact_iff.1 hparameters
    obtain rfl := Stmt.eq_of_likeEach hbody
    exact extends_refl Function.like_self _
  printLine hv := by
    obtain ⟨rfl, -⟩ := Value.like_exact_iff.1 hv
    exact extends_refl (fun _ => trivial) _
  callNative := by
    rintro index paren _ arguments arguments' rfl harguments
    obtain ⟨rfl, -⟩ := Value.likeEach_exact_iff.1 harguments
    exact extends_refl Value.like_self _
  inNewScope hm _ := hm.inNewScope _
  inActiveScope hm s := hm.inNewScope s.active s

/-- A greater bound goes on beyond a smaller one. -/
theorem extending (A : Arithmetic) (bound extra : Nat) :
    Comparison.extends.Within A A bound extra := by
  refine Comparison.within _ (Likeness.exact_lawful A) ?_ bound
  constructor <;>
  · intros
    exact fun s => .inl rfl

end Eval

namespace Session

variable {A : Arithmetic} {bound : Nat} {s : Session}

/-- Statements that end before the bound is reached end in the same way under a greater one. -/
theorem run_executeEach_add {ss : List Stmt}
    (h : (s.run (Eval.executeEach A bound ss)).1 ≠ .error .exhausted) (extra : Nat) :
    s.run (Eval.executeEach A (bound + extra) ss) = s.run (Eval.executeEach A bound ss) := by
  rcases (Eval.extending A bound extra).executeEach (Stmt.likeEach_refl ss) s with
    hexhausted | ⟨houtcome, hsame⟩
  · exact absurd hexhausted h
  · exact Prod.ext (Completion.outcome_eq_of_like houtcome) hsame

theorem run_executeEach_cons (s : Session) (bound : Nat) (first : Stmt) (ss : List Stmt) :
    s.run (Eval.executeEach A (bound + 1) (first :: ss)) =
      match s.run (Eval.execute A bound first) with
      | (.ok .normal, t) => t.run (Eval.executeEach A bound ss)
      | ended => ended := by
  rw [Eval.executeEach, run_bind]
  rcases s.run (Eval.execute A bound first) with ⟨_ | _ | _, t⟩ <;> rfl

/-- Statements in a row, under a bound that is large enough to reach the second part. -/
theorem run_executeEach_append (s : Session) (bound : Nat) (ss ts : List Stmt) :
    s.run (Eval.executeEach A (ss.length + (bound + 1)) (ss ++ ts)) =
      match s.run (Eval.executeEach A (ss.length + (bound + 1)) ss) with
      | (.ok .normal, t) => t.run (Eval.executeEach A (bound + 1) ts)
      | ended => ended := by
  -- each statement takes one from the bound; behind the first part there is as much left as stated
  induction ss generalizing s with
  | nil => simp [Eval.executeEach]
  | cons first ss ih =>
    rw [List.length_cons, Nat.add_right_comm, List.cons_append, run_executeEach_cons,
      run_executeEach_cons]
    rcases s.run (Eval.execute A (ss.length + (bound + 1)) first) with ⟨_ | _ | _, t⟩
    · rfl
    · exact ih t
    · rfl

/-! ## Runs that end -/

/-- How a program looks from outside when its statements have ended. -/
def ended : Except Stop Completion → Except Failure Unit
  | .ok _ => .ok ()
  | .error stop => .error (.stopped stop)

theorem interpret_eq (s : Session) (bound : Nat) (program : Program) :
    s.interpret A bound program =
      (ended (s.run (Eval.executeEach A bound program)).1,
        (s.run (Eval.executeEach A bound program)).2) := by
  unfold interpret
  rcases s.run (Eval.executeEach A bound program) with ⟨_ | _, t⟩ <;> rfl

/-- The script ends with `r` and leaves the session `t`, under a bound that it does not reach. -/
def Ends (A : Arithmetic) (source : String) (s : Session) (r : Except Failure Unit) (t : Session) :
    Prop :=
  ∃ bound, s.runSource A bound source = (r, t) ∧ r ≠ .error (.stopped .exhausted)

/-- A script that is accepted ends as its statements do. -/
theorem ends_iff {source : String} {p : Program} (hp : Program.ofSource A source = .ok p)
    {r : Except Failure Unit} {t : Session} :
    s.Ends A source r t ↔
      ∃ bound o, s.run (Eval.executeEach A bound p) = (o, t) ∧ o ≠ .error .exhausted ∧
        ended o = r := by
  unfold Ends runSource
  simp only [hp, interpret_eq]
  constructor
  · rintro ⟨bound, hrun, hexhausted⟩
    obtain ⟨rfl, rfl⟩ := Prod.mk.inj hrun
    exact ⟨bound, _, rfl, fun h => hexhausted (congrArg ended h), rfl⟩
  · rintro ⟨bound, o, hrun, hexhausted, rfl⟩
    refine ⟨bound, by rw [hrun], fun h => hexhausted ?_⟩
    cases o with
    | ok c => cases h
    | error stop =>
      cases h
      rfl

/-- A script whose statements end without an error ends well. -/
theorem Ends.of_isOk {source : String} {p : Program} (hp : Program.ofSource A source = .ok p)
    (bound : Nat) (h : (s.run (Eval.executeEach A bound p)).1.isOk) :
    s.Ends A source (.ok ()) (s.run (Eval.executeEach A bound p)).2 := by
  rcases hrun : s.run (Eval.executeEach A bound p) with ⟨stop | completion, t⟩
  · rw [hrun] at h
    cases h
  · exact (ends_iff hp).2 ⟨bound, .ok completion, hrun, by simp, rfl⟩

/-- A script whose statements stop ends there, unless the bound stopped them. -/
theorem Ends.of_stop {source : String} {p : Program} (hp : Program.ofSource A source = .ok p)
    (bound : Nat) {stop : Stop} (hne : stop ≠ .exhausted)
    (h : (s.run (Eval.executeEach A bound p)).1.map (fun _ => ()) = .error stop) :
    s.Ends A source (.error (.stopped stop)) (s.run (Eval.executeEach A bound p)).2 := by
  rcases hrun : s.run (Eval.executeEach A bound p) with ⟨stop' | completion, t⟩ <;> rw [hrun] at h
  · obtain rfl := Except.error.inj h
    exact (ends_iff hp).2 ⟨bound, .error stop', hrun, by simpa using hne, rfl⟩
  · cases h

/-- A script that ends does so under every bound that is large enough. -/
theorem Ends.eventually {source : String} {r : Except Failure Unit} {t : Session}
    (h : s.Ends A source r t) :
    ∃ enough, ∀ bound, enough ≤ bound → s.runSource A bound source = (r, t) := by
  obtain ⟨enough, hrun, hexhausted⟩ := h
  refine ⟨enough, fun bound hbound => ?_⟩
  obtain ⟨extra, rfl⟩ := Nat.exists_eq_add_of_le hbound
  rw [← hrun]
  unfold runSource
  cases hp : Program.ofSource A source with
  | error reason => rfl
  | ok p =>
    dsimp only
    rw [interpret_eq, interpret_eq, run_executeEach_add]
    -- the bound was not reached, or the script would have ended there
    intro hreached
    unfold runSource at hrun
    simp only [hp, interpret_eq, hreached] at hrun
    exact hexhausted (Prod.mk.inj hrun).1.symm

/-- A script does not end in two ways. -/
theorem Ends.unique {source : String} {r r' : Except Failure Unit} {t t' : Session}
    (h : s.Ends A source r t) (h' : s.Ends A source r' t') : r' = r ∧ t' = t := by
  obtain ⟨enough, hrun⟩ := h.eventually
  obtain ⟨enough', hrun'⟩ := h'.eventually
  -- under the greater of the two bounds the script ends in both ways at once
  have hboth := hrun (max enough enough') (Nat.le_max_left _ _)
  rw [hrun' (max enough enough') (Nat.le_max_right _ _)] at hboth
  exact Prod.mk.inj hboth

end Session

end LoxScript
