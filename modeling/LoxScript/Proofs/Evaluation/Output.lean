import LoxScript.Proofs.Evaluation.Bound
import LoxScript.Proofs.Evaluation.Changes

/-!
# Output that is refused

A sink that refuses output cuts a run short, and does nothing else. A run is compared with the run of the
same trees in a session with a sink that takes everything. The two runs do the same step by step, until
the first one is refused a part of a text. It stops there, while the other one goes on and writes at least
the rest of that text. Only appending changes output, so all that the first run has written stands at the
beginning of what the second one writes.

The second session may have had more output before. It makes no difference to a sink that takes
everything.

## Main definitions

* `Sink.Withholds`: what a sink took of a text, and what was not written therefore.
* `Session.behind`: a session with a sink that takes everything, and with more output before.
* `Eval.Cut`: how a run may end compared with one in such a session.

## Main statements

* `Eval.cutting`: every evaluation is only cut short by a sink.
* `Session.runSource_behind_unlimited`: output that was there before makes no difference.
* `Session.ends_cut_short`: a script, with a sink that refuses output and with one that does not.
-/

namespace LoxScript

/-- The output ends with what the sink took of a text. The rest of that text, which is not empty, is the
beginning of `more`. -/
def Sink.Withholds (sink : Sink) (output more : Output) : Prop :=
  ∃ (before : Output) (text : String) (rest others : Output),
    output = before ++ sink.take before text ∧ sink.take before text ++ rest = text ∧ rest ≠ "" ∧
      more = rest ++ others

namespace Sink.Withholds

variable {sink : Sink} {output more : Output}

theorem append (h : sink.Withholds output more) (others : Output) :
    sink.Withholds output (more ++ others) := by
  obtain ⟨before, text, rest, others', houtput, htext, hrest, rfl⟩ := h
  exact ⟨before, text, rest, others' ++ others, houtput, htext, hrest, Output.append_assoc ..⟩

theorem ne_empty (h : sink.Withholds output more) : more ≠ "" := by
  obtain ⟨-, -, rest, others, -, -, hrest, rfl⟩ := h
  exact fun hnone => hrest (Output.append_eq_empty_iff.1 hnone).1

end Sink.Withholds

/-- Of a text that a sink does not take as a whole it withholds the rest. -/
theorem Sink.exists_withholds {sink : Sink} {output : Output} {text : String}
    (h : sink.take output text ≠ text) :
    ∃ rest, sink.take output text ++ rest = text ∧
      sink.Withholds (output ++ sink.take output text) rest := by
  obtain ⟨rest, hrest⟩ := sink.exists_take_append output text
  refine ⟨rest, hrest, output, text, rest, "", rfl, hrest, ?_, (Output.append_empty rest).symm⟩
  rintro rfl
  rw [Output.append_empty] at hrest
  exact h hrest

namespace Session

/-- The session with a sink that takes everything, behind some output. -/
def behind (s : Session) (before : Output) : Session :=
  { s with output := before ++ s.output, sink := .unlimited }

@[simp] theorem behind_output (s : Session) (before : Output) :
    (s.behind before).output = before ++ s.output := rfl

@[simp] theorem behind_natives (s : Session) (before : Output) :
    (s.behind before).natives = s.natives := rfl

theorem enter_behind (s : Session) (before : Output) (parent : ScopeId) :
    (s.behind before).enter parent = (s.enter parent).behind before := rfl

/-- The session with a sink that takes everything. -/
def unlimited (s : Session) : Session := { s with sink := .unlimited }

theorem behind_empty (s : Session) : s.behind "" = s.unlimited := by
  rw [behind, unlimited, Output.empty_append]

end Session

namespace Eval

open Session

variable {α β γ δ : Type} {R : α → β → Prop} {S : γ → δ → Prop} {extra : Nat}

/-! ## Runs that are cut short -/

/-- The run reached its bound, which the other run may exceed by `extra`, or the sink withheld the
beginning of `more` after the output in `t`. -/
def Unfinished (extra : Nat) (sink : Sink) (stop : Stop) (t : Session) (more : Output) : Prop :=
  stop = .exhausted ∧ 0 < extra ∨
    stop = .outputRefused sink.refusal ∧ sink.Withholds t.output more

theorem Unfinished.append {extra : Nat} {sink : Sink} {stop : Stop} {t : Session} {more : Output}
    (h : Unfinished extra sink stop t more) (others : Output) :
    Unfinished extra sink stop t (more ++ others) :=
  h.imp_right fun ⟨hrefused, hmore⟩ => ⟨hrefused, hmore.append others⟩

/-- How a run with the sink `sink` ends compared with one behind the output `before` whose sink takes
everything. Either they end in like ways, and in the same session but for the sink and that output. Or
the first one ended early: at its bound, or with a refusal. Its output is then the beginning of that of
the second run, which is longer if there was a refusal. -/
inductive Cut (extra : Nat) (R : α → β → Prop) (before : Output) (sink : Sink) :
    Except Stop α × Session → Except Stop β × Session → Prop where
  | same {o : Except Stop α} {o' : Except Stop β} {t : Session}
      (h : Outcome.Like (.exact fun _ => True) R o o')
      (hrefused : ∀ reason, o ≠ .error (.outputRefused reason)) (hsink : t.sink = sink) :
      Cut extra R before sink (o, t) (o', t.behind before)
  | early {stop : Stop} {o' : Except Stop β} {t t' : Session} (more : Output)
      (hstop : Unfinished extra sink stop t more) (h : t'.output = before ++ t.output ++ more) :
      Cut extra R before sink (.error stop, t) (o', t')

/-- `m` is only cut short by a sink, compared with `m'`, and `m'` only adds to the output. -/
def CutsShort (extra : Nat) (R : α → β → Prop) (m : Eval α) (m' : Eval β) : Prop :=
  (∀ (s : Session) (before : Output),
    Cut extra R before s.sink (s.run m) ((s.behind before).run m')) ∧
    Changing (fun b => ∃ a, R a b) m'

theorem CutsShort.bind {m : Eval α} {m' : Eval β} {next : α → Eval γ} {next' : β → Eval δ}
    (hm : CutsShort extra R m m') (hnext : ∀ a b, R a b → CutsShort extra S (next a) (next' b)) :
    CutsShort extra S (m >>= next) (m' >>= next') := by
  refine ⟨fun s before => ?_, hm.2.bind fun b ⟨a, hab⟩ => (hnext a b hab).2⟩
  have hcut := hm.1 s before
  have hchanging := hm.2 (s.behind before)
  rw [run_bind, run_bind]
  generalize s.run m = first at hcut
  generalize (s.behind before).run m' = second at hcut hchanging
  cases hcut with
  | @same o o' t h hrefused hsink =>
    cases h with
    | @ok a b hab =>
      -- both go on in the same session, so the second parts are compared from there
      rw [← hsink]
      exact (hnext a b hab).1 t before
    | error h => exact .same (.error h) (by simpa using hrefused) hsink
  | @early stop o' t t' more hstop h =>
    cases o' with
    | error stop' => exact .early more hstop h
    | ok b =>
      -- the first run is over, and the second one can only write more
      obtain ⟨a, hab⟩ := hchanging.2 b rfl
      obtain ⟨others, hothers⟩ := ((hnext a b hab).2 t').1.output
      have houtput : (t'.run (next' b)).2.output = before ++ t.output ++ (more ++ others) := by
        rw [hothers, h, Output.append_assoc]
      exact .early (more ++ others) (hstop.append others) houtput

theorem CutsShort.inNewScope {m : Eval α} {m' : Eval β} (hm : CutsShort extra R m m') (parent : ScopeId) :
    CutsShort extra R (inNewScope parent m) (inNewScope parent m') := by
  refine ⟨fun s before => ?_, hm.2.inNewScope parent⟩
  have hcut := hm.1 (s.enter parent) before
  rw [run_inNewScope, run_inNewScope, enter_behind]
  generalize (s.enter parent).run m = first at hcut
  generalize ((s.enter parent).behind before).run m' = second at hcut
  cases hcut with
  | @same o o' t h hrefused hsink =>
    exact .same (t := { t with active := s.active }) h hrefused hsink
  | early more hstop h => exact .early more hstop h

/-! ## Elementary evaluations -/

theorem cutsShort_pure {a : α} {b : β} (h : R a b) : CutsShort extra R (pure a) (pure b) :=
  ⟨fun s before => .same (t := s) (.ok h) (by simp) rfl, changing_pure ⟨a, h⟩⟩

theorem cutsShort_throw {stop stop' : Stop} (h : Stop.Like (.exact fun _ => True) stop stop')
    (hrefused : ∀ reason, stop ≠ .outputRefused reason) :
    CutsShort extra R (throw stop) (throw stop') :=
  ⟨fun s before => .same (t := s) (.error h) (by simpa using hrefused) rfl, changing_throw stop'⟩

/-- An evaluation that has nothing to do with output. -/
theorem cutsShort_of_silent {R : α → α → Prop} (hR : ∀ a, R a a) {m : Eval α}
    (hm : Changing (fun _ => True) m)
    (hsilent : ∀ (s : Session) (before : Output),
      (s.behind before).run m = ((s.run m).1, (s.run m).2.behind before))
    (hrefused : ∀ (s : Session) reason, (s.run m).1 ≠ .error (.outputRefused reason)) :
    CutsShort extra R m m := by
  refine ⟨fun s before => ?_, fun s => ⟨(hm s).1, fun a _ => ⟨a, hR a⟩⟩⟩
  rw [hsilent]
  have hend := hrefused s
  have hsink := (hm s).1.sink
  generalize s.run m = first at hend hsink
  obtain ⟨stop | a, t⟩ := first
  · exact .same (.error (Stop.like_exact_iff.2 rfl)) hend hsink
  · exact .same (.ok (hR a)) hend hsink

theorem cutsShort_lookup (name : Token) :
    CutsShort extra (Value.Like (.exact fun _ => True)) (lookup name) (lookup name) := by
  refine cutsShort_of_silent Value.like_self (changing_lookup (fun _ => trivial) name) ?_ ?_
  · intro s before
    rw [run_lookup, run_lookup]
    simp only [behind]
    cases s.scopes.get? s.active name.lexeme <;> rfl
  · intro s reason
    rw [run_lookup]
    cases s.scopes.get? s.active name.lexeme <;> simp

theorem cutsShort_assign (name : Token) (v : Value) :
    CutsShort extra (fun _ _ => True) (assign name v) (assign name v) := by
  refine cutsShort_of_silent (fun _ => trivial) (changing_assign trivial name v) ?_ ?_
  · intro s before
    rw [run_assign, run_assign]
    simp only [behind]
    cases s.scopes.holder? name.lexeme s.active <;> rfl
  · intro s reason
    rw [run_assign]
    cases s.scopes.holder? name.lexeme s.active <;> simp

theorem cutsShort_act (action : Native.Action) (arguments : List Value) :
    CutsShort extra Eq (act action arguments) (act action arguments) := by
  refine cutsShort_of_silent (fun _ => rfl) (changing_act (fun _ => trivial) action arguments) ?_ ?_
  · intro s before
    cases action <;> rfl
  · intro s reason
    cases action <;> simp

theorem cutsShort_ofOperation (operator : Token) (operation : Operation) :
    CutsShort extra (Value.Like (.exact fun _ => True)) (ofOperation operator operation)
      (ofOperation operator operation) := by
  rcases operation with - | problem | v
  · exact cutsShort_throw .malformed (by simp)
  · exact cutsShort_throw (.runtime problem rfl) (by simp)
  · exact cutsShort_pure v.like_self

theorem cutsShort_answer (native : Native) (paren : Token) (arguments : List Value) :
    CutsShort extra (Value.Like (.exact fun _ => True)) (answer native paren arguments)
      (answer native paren arguments) := by
  refine (cutsShort_act native.action arguments).bind fun answer answer' h => ?_
  rw [h]
  exact cutsShort_ofOperation paren _

theorem cutsShort_callNative (index : Nat) (paren : Token) (arguments : List Value) :
    CutsShort extra (Value.Like (.exact fun _ => True)) (callNative index paren arguments)
      (callNative index paren arguments) := by
  refine ⟨fun s before => ?_,
    changing_callNative (fun v => ⟨v, v.like_self⟩) index paren arguments⟩
  rw [run_callNative, run_callNative, behind_natives]
  cases s.natives[index]? with
  | none => exact (cutsShort_throw .malformed (by simp)).1 s before
  | some native =>
    dsimp only
    by_cases harity : arguments.length = native.arity
    · rw [if_pos harity, if_pos harity]
      exact (cutsShort_answer native paren arguments).1 s before
    · rw [if_neg harity, if_neg harity]
      exact (cutsShort_throw (.runtime _ rfl) (by simp)).1 s before

theorem run_write_behind (s : Session) (before : Output) (text : String) :
    (s.behind before).run (write text) =
      (.ok (), ({ s with output := s.output ++ text } : Session).behind before) := by
  have hwritten : ({ s.behind before with output := (s.behind before).output ++ text } : Session) =
      ({ s with output := s.output ++ text } : Session).behind before := by
    simp only [behind, Output.append_assoc]
  rw [run_write, ← hwritten]
  exact congrArg (·, _) (if_pos rfl)

/-- A text is written on both sides, or the first side is refused a part of it. -/
theorem cutsShort_write (text : String) :
    CutsShort extra (fun _ _ => True) (write text) (write text) := by
  refine ⟨fun s before => ?_, changing_write ⟨(), trivial⟩ text⟩
  rw [run_write_behind, run_write]
  by_cases hall : s.sink.take s.output text = text
  · rw [if_pos hall, hall]
    exact .same (.ok trivial) (by simp) rfl
  · rw [if_neg hall]
    obtain ⟨rest, hrest, hwithholds⟩ := Sink.exists_withholds hall
    refine .early rest (.inr ⟨rfl, hwithholds⟩) ?_
    show before ++ (s.output ++ text) = before ++ (s.output ++ s.sink.take s.output text) ++ rest
    rw [Output.append_assoc, Output.append_assoc, hrest]

/-! ## All evaluations -/

/-- Being cut short only is a comparison. -/
def Comparison.cutsShort (extra : Nat) : Comparison (.exact fun _ => True) where
  Rel := CutsShort extra
  pure := cutsShort_pure
  bind := CutsShort.bind
  raise problem _ _ h := cutsShort_throw (.runtime problem h) (by simp)
  malformed := cutsShort_throw .malformed (by simp)
  lookup := by
    rintro name _ rfl
    exact cutsShort_lookup name
  assign := by
    rintro name _ v v' rfl hv
    obtain ⟨rfl, -⟩ := Value.like_exact_iff.1 hv
    exact cutsShort_assign name v
  define name v v' hv := by
    obtain ⟨rfl, -⟩ := Value.like_exact_iff.1 hv
    exact cutsShort_of_silent (fun _ => trivial) (fun s => ⟨.define s name v, fun _ _ => trivial⟩)
      (fun _ _ => rfl) (by simp)
  makeFunction := by
    rintro name _ parameters parameters' body body' rfl hparameters hbody
    obtain rfl := Likeness.tokens_exact_iff.1 hparameters
    obtain rfl := Stmt.eq_of_likeEach hbody
    exact cutsShort_of_silent Function.like_self (fun s => ⟨.make s, fun _ _ => trivial⟩)
      (fun _ _ => rfl) (by simp)
  printLine hv := by
    obtain ⟨rfl, -⟩ := Value.like_exact_iff.1 hv
    exact (cutsShort_write _).bind fun _ _ _ => cutsShort_write _
  callNative index paren paren' arguments arguments' hparen harguments := by
    obtain rfl : paren = paren' := hparen
    obtain ⟨rfl, -⟩ := Value.likeEach_exact_iff.1 harguments
    exact cutsShort_callNative index paren arguments
  inNewScope hm _ := hm.inNewScope _
  inActiveScope hm := by
    refine ⟨fun s before => ?_, fun s => (hm.2.inNewScope s.active) s⟩
    exact (hm.inNewScope s.active).1 s before

/-- Where the first run has no bound left, it has not written anything yet. -/
theorem cutsShort_exhausted {P : β → Prop} {R : β → β → Prop} {m' : Eval β} (hm : Changing P m')
    (hR : ∀ b, R b b) (hextra : extra = 0 → m' = throw .exhausted) :
    CutsShort extra R (throw .exhausted) m' := by
  by_cases hnone : extra = 0
  -- neither has the second one then
  · rw [hextra hnone]
    exact cutsShort_throw .exhausted (by simp)
  · refine ⟨fun s before => ?_, fun s => ⟨(hm s).1, fun b _ => ⟨b, hR b⟩⟩⟩
    obtain ⟨more, hmore⟩ := (hm (s.behind before)).1.output
    exact .early more (.inl ⟨rfl, Nat.pos_of_ne_zero hnone⟩) hmore

/-- Every evaluation is only cut short by a sink. -/
theorem cutting (A : Arithmetic) (bound extra : Nat) :
    (Comparison.cutsShort extra).Within A A bound extra := by
  refine Comparison.within _ (Likeness.exact_lawful A) ?_ bound
  -- without a bound on the first side, only that the second side adds to the output is needed
  have hchanging := changing A (0 + extra)
  constructor
  · intro e e' _
    exact cutsShort_exhausted (hchanging.evaluate e'.like_refl) Value.like_self (by rintro rfl; rfl)
  · intro es es' _
    exact cutsShort_exhausted (hchanging.evaluateEach (Expr.likeEach_refl es')) Value.likeEach_self
      (by rintro rfl; rfl)
  · intro f f' paren paren' arguments arguments' _ _ _
    exact cutsShort_exhausted (hchanging.call f'.like_self rfl (Value.likeEach_self arguments'))
      Value.like_self (by rintro rfl; rfl)
  · intro s s' _
    exact cutsShort_exhausted (hchanging.execute s'.like_refl) Completion.like_self
      (by rintro rfl; rfl)
  · intro ss ss' _
    exact cutsShort_exhausted (hchanging.executeEach (Stmt.likeEach_refl ss')) Completion.like_self
      (by rintro rfl; rfl)

end Eval

/-! ## Scripts -/

namespace Session

variable {A : Arithmetic} {s t : Session} {source : String} {r : Except Failure Unit}

/-- A script that ends changes a session by the steps of an evaluation. -/
theorem Ends.changes (h : s.Ends A source r t) : s.Changes t := by
  obtain ⟨bound, hrun, -⟩ := h
  have hchanges := s.changes_runSource (A := A) bound source
  rwa [hrun] at hchanges

/-- The script ended because the sink took no more output. -/
def Refused (r : Except Failure Unit) : Prop :=
  ∃ reason, r = .error (.stopped (.outputRefused reason))

/-- A script, and the same script behind some output with a sink that takes everything and a bound that
may be greater. Unless the first run ends early, the second one is the same. -/
theorem runSource_behind (A : Arithmetic) (s : Session) (before : Output) (bound extra : Nat)
    (source : String) :
    (s.behind before).runSource A (bound + extra) source =
        ((s.runSource A bound source).1, (s.runSource A bound source).2.behind before) ∧
      ¬Refused (s.runSource A bound source).1 ∨
    ∃ more,
      ((s.behind before).runSource A (bound + extra) source).2.output =
        before ++ (s.runSource A bound source).2.output ++ more ∧
      ∃ stop, (s.runSource A bound source).1 = .error (.stopped stop) ∧
        Eval.Unfinished extra s.sink stop (s.runSource A bound source).2 more := by
  unfold runSource
  cases hp : Program.ofSource A source with
  | error reason => exact .inl ⟨rfl, by simp [Refused]⟩
  | ok p =>
    have hcut := ((Eval.cutting A bound extra).executeEach (Stmt.likeEach_refl p)).1 s before
    dsimp only
    rw [interpret_eq, interpret_eq]
    generalize s.run (Eval.executeEach A bound p) = first at hcut
    generalize (s.behind before).run (Eval.executeEach A (bound + extra) p) = second at hcut
    cases hcut with
    | @same o o' t h hrefused hsink =>
      obtain rfl := Completion.outcome_eq_of_like h
      refine .inl ⟨rfl, ?_⟩
      rintro ⟨reason, hended⟩
      cases o' with
      | ok c => cases hended
      | error stop =>
        cases hended
        exact hrefused reason rfl
    | early more hstop h => exact .inr ⟨more, h, _, rfl, hstop⟩

/-- How a script that ends compares with the same script behind some output, where nothing is refused. -/
theorem Ends.compare (h : s.Ends A source r t) (before : Output) :
    ¬Refused r ∧ (s.behind before).Ends A source r (t.behind before) ∨
    r = .error (.stopped (.outputRefused s.sink.refusal)) ∧
      ∃ enough, ∀ bound, enough ≤ bound → ∃ more,
        ((s.behind before).runSource A bound source).2.output = before ++ t.output ++ more ∧
          s.sink.Withholds t.output more := by
  obtain ⟨enough, hrun, hexhausted⟩ := h
  have hcompare (extra : Nat) := s.runSource_behind A before enough extra source
  simp only [hrun] at hcompare
  by_cases hrefused : Refused r
  · refine .inr ?_
    -- the reason does not depend on how far the second run goes, but what that run writes does
    have hearly (extra : Nat) := (hcompare extra).resolve_left fun h => h.2 hrefused
    obtain ⟨-, -, stop, rfl, ⟨-, hextra⟩ | ⟨rfl, -⟩⟩ := hearly 0
    · exact absurd hextra (Nat.lt_irrefl 0)
    · refine ⟨rfl, enough, fun bound hbound => ?_⟩
      obtain ⟨extra, rfl⟩ := Nat.exists_eq_add_of_le hbound
      obtain ⟨more, hmore, stop, hstop, hunfinished⟩ := hearly extra
      cases hstop
      rcases hunfinished with ⟨hbound, -⟩ | ⟨-, hwithholds⟩
      · cases hbound
      · exact ⟨more, hmore, hwithholds⟩
  · refine .inl ⟨hrefused, ?_⟩
    rcases hcompare 0 with ⟨hsame, -⟩ | ⟨-, -, stop, rfl, ⟨-, hextra⟩ | ⟨rfl, -⟩⟩
    · exact ⟨enough, hsame, hexhausted⟩
    · exact absurd hextra (Nat.lt_irrefl 0)
    · exact absurd ⟨_, rfl⟩ hrefused

/-- A sink that takes everything withholds nothing. -/
theorem not_withholds_unlimited {output more : Output} : ¬Sink.unlimited.Withholds output more := by
  rintro ⟨before, text, rest, others, -, htext, hrest, -⟩
  rw [Sink.take_unlimited] at htext
  exact hrest ((Output.append_right_inj _).1 (htext.trans (Output.append_empty _).symm))

/-- Output that was there before makes no difference to a sink that takes everything, whatever the
bound. -/
theorem runSource_behind_unlimited (hs : s.sink = .unlimited) (A : Arithmetic) (before : Output)
    (bound : Nat) (source : String) :
    (s.behind before).runSource A bound source =
      ((s.runSource A bound source).1, (s.runSource A bound source).2.behind before) := by
  rcases s.runSource_behind A before bound 0 source with
    ⟨hsame, -⟩ | ⟨more, -, stop, -, ⟨-, hextra⟩ | ⟨-, hwithholds⟩⟩
  · exact hsame
  · exact absurd hextra (Nat.lt_irrefl 0)
  · rw [hs] at hwithholds
    exact absurd hwithholds not_withholds_unlimited

/-- A sink that refuses output only cuts a script short. However the script ends,

* what was written before it stays in front of what it has written;
* it does the same where nothing is refused, unless it ended with a refusal;
* a refusal is that of the sink;
* where nothing is refused, it writes at least the same, and more if it ended with a refusal, both if it
  ends there and if it goes on without end: it goes on with the rest of the text of which the sink took
  only a part.
-/
theorem ends_cut_short (h : s.Ends A source r t) :
    (∃ written, t.output = s.output ++ written) ∧
    (¬Refused r → s.unlimited.Ends A source r t.unlimited) ∧
    (Refused r → r = .error (.stopped (.outputRefused s.sink.refusal))) ∧
    (∀ r' t', s.unlimited.Ends A source r' t' →
      ∃ more, t'.output = t.output ++ more ∧
        (Refused r → more ≠ "" ∧ s.sink.Withholds t.output more)) ∧
    ∃ enough, ∀ bound, enough ≤ bound → ∃ more,
      (s.unlimited.runSource A bound source).2.output = t.output ++ more ∧
        (Refused r → more ≠ "" ∧ s.sink.Withholds t.output more) := by
  -- a session is compared with itself, behind nothing
  have hcompare := h.compare ""
  rw [behind_empty, behind_empty, Output.empty_append] at hcompare
  -- the unlimited run need not end: what it writes within each large bound is compared
  have hoften : ∃ enough, ∀ bound, enough ≤ bound → ∃ more,
      (s.unlimited.runSource A bound source).2.output = t.output ++ more ∧
        (Refused r → more ≠ "" ∧ s.sink.Withholds t.output more) := by
    rcases hcompare with ⟨hrefused, hsame⟩ | ⟨-, enough, hmore⟩
    · obtain ⟨enough, hrun⟩ := hsame.eventually
      refine ⟨enough, fun bound hbound => ⟨"", ?_, fun h => absurd h hrefused⟩⟩
      rw [hrun bound hbound, Output.append_empty, unlimited]
    · refine ⟨enough, fun bound hbound => ?_⟩
      obtain ⟨more, houtput, hwithholds⟩ := hmore bound hbound
      exact ⟨more, houtput, fun _ => ⟨hwithholds.ne_empty, hwithholds⟩⟩
  refine ⟨h.changes.output, ?_, ?_, ?_, hoften⟩
  · intro hrefused
    rcases hcompare with ⟨-, hsame⟩ | ⟨hstop, -⟩
    · exact hsame
    · exact absurd ⟨_, hstop⟩ hrefused
  · intro hrefused
    rcases hcompare with ⟨hnot, -⟩ | ⟨hstop, -⟩
    · exact absurd hrefused hnot
    · exact hstop
  · intro r' t' h'
    obtain ⟨enough, hmore⟩ := hoften
    obtain ⟨enough', hrun⟩ := h'.eventually
    obtain ⟨more, houtput, hwithholds⟩ := hmore (max enough enough') (Nat.le_max_left _ _)
    rw [hrun _ (Nat.le_max_right _ _)] at houtput
    exact ⟨more, houtput, hwithholds⟩

/-- A sink that takes three bytes, and a script that prints a letter, and then in a call in an argument a
letter of two bytes, of which only the first is written. -/
theorem ends_cut_short_within_letter :
    let sink : Sink := ⟨fun output => .bytes (3 - output.bytes.size), "sink full"⟩
    let s := start (.stopped ⟨0⟩) sink
    let source := "fun f(x) \x7b print x; return \"é\"; \x7d f(f(\"a\"));"
    let r : Except Failure Unit := .error (.stopped (.outputRefused "sink full"))
    ∃ t u, s.Ends .binary64 source r t ∧ t.output = ⟨⟨#[97, 10, 195]⟩⟩ ∧ Refused r ∧
      s.unlimited.Ends .binary64 source (.ok ()) u ∧ u.output = "a\né\n" ∧
      ∃ more, u.output = t.output ++ more ∧ more ≠ "" := by
  intro sink s source r
  have hscan : Scan.ofSource .binary64 source =
      ⟨[⟨.keyword .fun, "fun", 1⟩, ⟨.identifier, "f", 1⟩, ⟨.leftParen, "(", 1⟩,
        ⟨.identifier, "x", 1⟩, ⟨.rightParen, ")", 1⟩, ⟨.leftBrace, "\x7b", 1⟩,
        ⟨.keyword .print, "print", 1⟩, ⟨.identifier, "x", 1⟩, ⟨.semicolon, ";", 1⟩,
        ⟨.keyword .return, "return", 1⟩, ⟨.string "é", "\"é\"", 1⟩, ⟨.semicolon, ";", 1⟩,
        ⟨.rightBrace, "\x7d", 1⟩, ⟨.identifier, "f", 1⟩, ⟨.leftParen, "(", 1⟩,
        ⟨.identifier, "f", 1⟩, ⟨.leftParen, "(", 1⟩, ⟨.string "a", "\"a\"", 1⟩,
        ⟨.rightParen, ")", 1⟩, ⟨.rightParen, ")", 1⟩, ⟨.semicolon, ";", 1⟩, Token.ending 1], []⟩ := by
    decide +kernel
  let f : Expr := .variable ⟨.identifier, "f", 1⟩
  let paren : Token := ⟨.rightParen, ")", 1⟩
  let p : Program := [.function ⟨.identifier, "f", 1⟩ [⟨.identifier, "x", 1⟩]
      [.print (.variable ⟨.identifier, "x", 1⟩),
        .result ⟨.keyword .return, "return", 1⟩ (some (.literal (.string "é")))],
    .expression (.call f paren [.call f paren [.literal (.string "a")]])]
  have hread : Program.ofSource .binary64 source = .ok p := by
    rw [Program.ofSource, hscan]
    rfl
  let t := (s.run (Eval.executeEach .binary64 20 p)).2
  have hends : s.Ends .binary64 source r t := Ends.of_stop hread 20 (by simp) (by decide +kernel)
  let u := (s.unlimited.run (Eval.executeEach .binary64 20 p)).2
  have hends' : s.unlimited.Ends .binary64 source (.ok ()) u :=
    Ends.of_isOk hread 20 (by decide +kernel)
  have houtput : t.output = ⟨⟨#[97, 10, 195]⟩⟩ := by decide +kernel
  have houtput' : u.output = "a\né\n" := by decide +kernel
  obtain ⟨-, -, -, hlonger, -⟩ := ends_cut_short hends
  obtain ⟨more, hmore, hne⟩ := hlonger (.ok ()) u hends'
  have hrefused : Refused r := ⟨"sink full", rfl⟩
  exact ⟨t, u, hends, houtput, hrefused, hends', houtput', more, hmore, (hne hrefused).1⟩

end Session

end LoxScript
