import LoxScript.Proofs.Evaluation.Comparison
import LoxScript.Proofs.Evaluation.Elementary
import LoxScript.Proofs.Evaluation.Exact

/-!
# What an evaluation changes

An evaluation changes a session step by step, and there are few kinds of steps: it binds a name, makes a
function object, reads the clock, writes. In between it enters a new scope, goes on there and comes
back. What every step keeps is kept by every evaluation, however it ends.

## Main definitions

* `Session.Changes`: one session comes from another by such steps.

## Main statements

* `Eval.changing`: every evaluation changes a session by such steps.
* `Session.Used.active`: between two uses of a session the active scope is the global one.
-/

namespace LoxScript

namespace Session

/-- The session `t` comes from `s` by the steps of an evaluation. -/
inductive Changes : Session → Session → Prop where
  | none (s : Session) : Changes s s
  | seq {s t u : Session} (first : Changes s t) (second : Changes t u) : Changes s u
  | define (s : Session) (name : String) (value : Value) :
      Changes s { s with scopes := s.scopes.define s.active name value }
  | assign {s : Session} {name : String} {holder : ScopeId} (value : Value)
      (hholder : s.scopes.holder? name s.active = some holder) :
      Changes s { s with scopes := s.scopes.define holder name value }
  | make (s : Session) : Changes s { s with objects := s.objects + 1 }
  | read (s : Session) : Changes s { s with readings := s.readings + 1 }
  | write (s : Session) (text : String) :
      Changes s { s with output := s.output ++ s.sink.take s.output text }
  | inside {s t : Session} (parent : ScopeId) (h : Changes (s.enter parent) t) :
      Changes s { t with active := s.active }

theorem Changes.active {s t : Session} (h : Changes s t) : t.active = s.active := by
  induction h with
  | seq _ _ first second => exact second.trans first
  | none | define | assign | make | read | write | inside => rfl

/-- The output only grows. -/
theorem Changes.output {s t : Session} (h : s.Changes t) : ∃ more, t.output = s.output ++ more := by
  induction h with
  | seq _ _ first second =>
    obtain ⟨more, hmore⟩ := first
    obtain ⟨others, hothers⟩ := second
    exact ⟨more ++ others, by rw [hothers, hmore, Output.append_assoc]⟩
  | write s text => exact ⟨_, rfl⟩
  | inside parent _ ih => exact ih
  | none | define | assign | make | read => exact ⟨"", (Output.append_empty _).symm⟩

theorem Changes.sink {s t : Session} (h : s.Changes t) : t.sink = s.sink := by
  induction h with
  | seq _ _ first second => exact second.trans first
  | inside parent _ ih => exact ih
  | none | define | assign | make | read | write => rfl

/-- Where nothing is refused, what is written is a text. -/
theorem Changes.exists_text {s t : Session} (h : s.Changes t) (hsink : s.sink = .unlimited) :
    ∃ text : String, t.output = s.output ++ text := by
  induction h with
  | seq hfirst _ first second =>
    obtain ⟨text, htext⟩ := first hsink
    obtain ⟨others, hothers⟩ := second (hfirst.sink.trans hsink)
    exact ⟨text ++ others, by rw [hothers, htext, Output.append_assoc, Output.ofString_append]⟩
  | write s text => exact ⟨text, by rw [hsink, Sink.take_unlimited]⟩
  | inside parent _ ih => exact ih hsink
  | none | define | assign | make | read => exact ⟨"", (Output.append_empty _).symm⟩

theorem Changes.natives {s t : Session} (h : s.Changes t) : t.natives = s.natives := by
  induction h with
  | seq _ _ first second => exact second.trans first
  | inside parent _ ih => exact ih
  | none | define | assign | make | read | write => rfl

end Session

namespace Eval

open Session

variable {α β : Type} {A : Arithmetic}

/-- However `m` ends, it has changed the session by steps, and if with a value, then with one in `Q`. -/
def Changing (Q : α → Prop) (m : Eval α) : Prop :=
  ∀ s : Session, s.Changes (s.run m).2 ∧ ∀ a, (s.run m).1 = .ok a → Q a

theorem changing_pure {Q : α → Prop} {a : α} (h : Q a) : Changing Q (pure a) := by
  refine fun s => ⟨.none s, ?_⟩
  rintro _ ⟨⟩
  exact h

theorem changing_throw {Q : α → Prop} (stop : Stop) : Changing Q (throw stop) :=
  fun s => ⟨.none s, by rintro _ ⟨⟩⟩

theorem Changing.bind {Q : α → Prop} {P : β → Prop} {m : Eval α} {next : α → Eval β}
    (hm : Changing Q m) (hnext : ∀ a, Q a → Changing P (next a)) : Changing P (m >>= next) := by
  intro s
  obtain ⟨hfirst, hvalue⟩ := hm s
  -- an error ends the steps where they are, a value goes on with those of the second part
  rcases h : s.run m with ⟨stop | a, t⟩
  · rw [run_bind_of_error next h]
    rw [h] at hfirst
    exact ⟨hfirst, by rintro _ ⟨⟩⟩
  · rw [run_bind_of_ok next h]
    rw [h] at hfirst hvalue
    obtain ⟨hsecond, hresult⟩ := hnext a (hvalue a rfl) t
    exact ⟨hfirst.seq hsecond, hresult⟩

theorem Changing.inNewScope {Q : α → Prop} {m : Eval α} (hm : Changing Q m) (parent : ScopeId) :
    Changing Q (inNewScope parent m) := by
  intro s
  rw [run_inNewScope]
  exact ⟨.inside parent (hm _).1, (hm _).2⟩

theorem changing_lookup {Q : Value → Prop} (hQ : ∀ v, Q v) (name : Token) :
    Changing Q (lookup name) := by
  intro s
  rw [run_lookup]
  cases s.scopes.get? s.active name.lexeme <;> exact ⟨.none s, fun v _ => hQ v⟩

theorem changing_assign {Q : Unit → Prop} (hQ : Q ()) (name : Token) (value : Value) :
    Changing Q (assign name value) := by
  intro s
  rw [run_assign]
  cases h : s.scopes.holder? name.lexeme s.active with
  | none => exact ⟨.none s, fun _ _ => hQ⟩
  | some holder => exact ⟨.assign value h, fun _ _ => hQ⟩

theorem changing_write {Q : Unit → Prop} (hQ : Q ()) (text : String) : Changing Q (write text) := by
  intro s
  rw [run_write]
  exact ⟨.write s text, fun _ _ => hQ⟩

theorem changing_ofOperation {Q : Value → Prop} (hQ : ∀ v, Q v) (operator : Token)
    (operation : Operation) : Changing Q (ofOperation operator operation) := by
  rcases operation with - | problem | v
  · exact changing_throw .malformed
  · exact changing_throw _
  · exact changing_pure (hQ v)

/-- Of what native functions do, only reading the clock is a step, whether it fails or not. -/
theorem changing_act {Q : Except RuntimeError.Problem Value → Prop} (hQ : ∀ answer, Q answer)
    (action : Native.Action) (arguments : List Value) : Changing Q (act action arguments) := by
  intro s
  cases action with
  | readClock => exact ⟨.read s, fun answer _ => hQ answer⟩
  | compute answer => exact ⟨.none s, fun answer _ => hQ answer⟩

theorem changing_callNative {Q : Value → Prop} (hQ : ∀ v, Q v) (index : Nat) (paren : Token)
    (arguments : List Value) : Changing Q (callNative index paren arguments) := by
  intro s
  rw [run_callNative]
  cases s.natives[index]? with
  | none => exact ⟨.none s, fun v _ => hQ v⟩
  | some native =>
    dsimp only
    split
    · exact (changing_act (fun _ => trivial) native.action arguments).bind
        (fun _ _ => changing_ofOperation hQ paren _) s
    · exact ⟨.none s, fun v _ => hQ v⟩

/-- Changing a session by steps is a comparison of a run with itself. -/
def Comparison.changing : Comparison (.exact fun _ => True) where
  Rel R m _ := Changing (fun a => ∃ b, R a b) m
  pure h := changing_pure ⟨_, h⟩
  bind hm hnext := hm.bind fun a ⟨b, hb⟩ => hnext a b hb
  raise problem t _ _ := changing_throw (.runtime ⟨problem, t.line⟩)
  malformed := changing_throw .malformed
  lookup _ := changing_lookup (fun v => ⟨v, v.like_self⟩) _
  assign _ _ := changing_assign ⟨(), trivial⟩ _ _
  define name _ _ _ s := ⟨.define s name _, fun _ _ => ⟨(), trivial⟩⟩
  makeFunction _ hparameters hbody s := by
    refine ⟨.make s, ?_⟩
    rintro _ ⟨⟩
    exact ⟨_, .declared hparameters hbody trivial⟩
  printLine _ := (changing_write (Q := fun _ => True) trivial _).bind fun _ _ =>
    changing_write ⟨(), trivial⟩ _
  callNative _ _ _ _ _ _ _ := changing_callNative (fun v => ⟨v, v.like_self⟩) _ _ _
  inNewScope hm _ := hm.inNewScope _
  inActiveScope hm s := hm.inNewScope s.active s

/-- However an evaluation ends, it has changed the session by steps. -/
theorem changing (A : Arithmetic) (bound : Nat) : Comparison.changing.Within A A bound 0 := by
  refine Comparison.within _ (Likeness.exact_lawful A) ?_ bound
  constructor <;> intros <;> exact changing_throw .exhausted

end Eval

namespace Session

variable {A : Arithmetic}

theorem changes_evaluate (s : Session) (bound : Nat) (e : Expr) :
    s.Changes (s.run (Eval.evaluate A bound e)).2 :=
  ((Eval.changing A bound).evaluate e.like_refl s).1

theorem changes_call (s : Session) (bound : Nat) (callee : Value) (paren : Token)
    (arguments : List Value) : s.Changes (s.run (Eval.call A bound callee paren arguments)).2 :=
  ((Eval.changing A bound).call callee.like_self rfl (Value.likeEach_self arguments) s).1

theorem changes_execute (s : Session) (bound : Nat) (statement : Stmt) :
    s.Changes (s.run (Eval.execute A bound statement)).2 :=
  ((Eval.changing A bound).execute statement.like_refl s).1

theorem changes_executeEach (s : Session) (bound : Nat) (statements : List Stmt) :
    s.Changes (s.run (Eval.executeEach A bound statements)).2 :=
  ((Eval.changing A bound).executeEach (Stmt.likeEach_refl statements) s).1

/-- The sessions that a host can have: it gives a session native functions, runs scripts, and runs
programs, which need not come from a script. -/
inductive Used (A : Arithmetic) : Session → Prop where
  | start (clock : Clock) (sink : Sink) : Used A (start clock sink)
  | defineNative {s : Session} (h : Used A s) (name : String) (native : Native) :
      Used A (s.defineNative name native)
  | interpret {s : Session} (h : Used A s) (bound : Nat) (program : Program) :
      Used A (s.interpret A bound program).2
  | runSource {s : Session} (h : Used A s) (bound : Nat) (source : String) :
      Used A (s.runSource A bound source).2

theorem interpret_snd (s : Session) (bound : Nat) (program : Program) :
    (s.interpret A bound program).2 = (s.run (Eval.executeEach A bound program)).2 := by
  unfold interpret
  rcases s.run (Eval.executeEach A bound program) with ⟨_ | _, t⟩ <;> rfl

/-- Running a program changes a session by the steps of an evaluation. -/
theorem changes_interpret (s : Session) (bound : Nat) (program : Program) :
    s.Changes (s.interpret A bound program).2 := by
  rw [interpret_snd]
  exact s.changes_executeEach bound program

/-- A script changes a session by the steps of an evaluation, or not at all. -/
theorem changes_runSource (s : Session) (bound : Nat) (source : String) :
    s.Changes (s.runSource A bound source).2 := by
  unfold runSource
  split
  · exact s.changes_interpret bound _
  · exact .none s

/-- Between two uses of a session the active scope is the global one. -/
theorem Used.active {s : Session} (h : Used A s) : s.active = globals := by
  induction h with
  | start clock sink => rfl
  | defineNative _ name native ih => exact ih
  | interpret _ bound program ih => exact (changes_interpret _ bound program).active.trans ih
  | runSource _ bound source ih => exact (changes_runSource _ bound source).active.trans ih

/-- A script that is rejected leaves the session as it is. -/
theorem runSource_of_rejected {s : Session} {bound : Nat} {source : String} {reason : Rejection}
    (h : (s.runSource A bound source).1 = .error (.rejected reason)) :
    (s.runSource A bound source).2 = s := by
  unfold runSource at h ⊢
  split at h
  · unfold interpret at h
    split at h <;> cases h
  · rfl

/-- However statements, an expression or a call end, the active scope is the one from before. So it is
the global one between any two uses of a session, and a rejected script changes nothing. -/
theorem active_restored (A : Arithmetic) :
    (∀ (bound : Nat) (s : Session),
      (∀ statement, (s.run (Eval.execute A bound statement)).2.active = s.active) ∧
      (∀ statements, (s.run (Eval.executeEach A bound statements)).2.active = s.active) ∧
      (∀ e, (s.run (Eval.evaluate A bound e)).2.active = s.active) ∧
      (∀ callee paren arguments,
        (s.run (Eval.call A bound callee paren arguments)).2.active = s.active)) ∧
    (∀ s, Used A s → s.active = globals) ∧
    ∀ (s : Session) (bound : Nat) (source : String) (reason : Rejection),
      (s.runSource A bound source).1 = .error (.rejected reason) →
        (s.runSource A bound source).2 = s := by
  refine ⟨fun bound s => ?_, fun s h => h.active, fun s bound source reason => runSource_of_rejected⟩
  exact ⟨fun statement => (s.changes_execute bound statement).active,
    fun statements => (s.changes_executeEach bound statements).active,
    fun e => (s.changes_evaluate bound e).active,
    fun callee paren arguments => (s.changes_call bound callee paren arguments).active⟩

end Session

end LoxScript
