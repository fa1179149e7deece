import LoxScript.Evaluation.Run

/-!
# Elementary evaluations

What the elementary evaluations do when they run in a session, and how evaluations in a row run. Nothing
about evaluation unfolds an elementary evaluation after this.

## Main statements

* `Session.run_bind`: two evaluations in a row.
* `Session.run_inNewScope`: an evaluation in a scope of its own.
-/

namespace LoxScript

open Eval

/-! ## Clocks -/

namespace Clock

variable {clock : Clock} {reading : Nat}

/-- A reading that does not fail gives a number. -/
theorem eq_number_of_value {v : Value} (h : clock.value reading = .ok v) : ∃ time, v = .number time := by
  unfold value at h
  split at h
  · cases h
    exact ⟨_, rfl⟩
  · cases h

/-- A reading that fails is the complaint of a native function. -/
theorem eq_native_of_value {problem : RuntimeError.Problem} (h : clock.value reading = .error problem) :
    ∃ message, problem = .native message := by
  unfold value at h
  split at h
  · cases h
  · cases h
    exact ⟨_, rfl⟩

end Clock

/-! ## Runs -/

variable {α β : Type}

namespace Session

@[simp]
theorem run_pure (s : Session) (a : α) : s.run (pure a) = (.ok a, s) := rfl

@[simp]
theorem run_throw (s : Session) (stop : Stop) : s.run (throw stop : Eval α) = (.error stop, s) := rfl

@[simp]
theorem run_raise (s : Session) (problem : RuntimeError.Problem) (t : Token) :
    s.run (raise problem t : Eval α) = (.error (.runtime ⟨problem, t.line⟩), s) := rfl

theorem run_bind (s : Session) (m : Eval α) (next : α → Eval β) :
    s.run (m >>= next) =
      match s.run m with
      | (.ok a, t) => t.run (next a)
      | (.error stop, t) => (.error stop, t) := by
  -- runs end in pairs, where the monad has a type of results of its own
  have hbind : (m >>= next) s = EStateM.bind m next s := rfl
  unfold run
  rw [hbind]
  unfold EStateM.bind
  rcases m s with ⟨a, t⟩ | ⟨stop, t⟩ <;> rfl

theorem run_bind_of_ok {s t : Session} {m : Eval α} {a : α} (next : α → Eval β)
    (h : s.run m = (.ok a, t)) : s.run (m >>= next) = t.run (next a) := by
  rw [run_bind, h]

theorem run_bind_of_error {s t : Session} {m : Eval α} {stop : Stop} (next : α → Eval β)
    (h : s.run m = (.error stop, t)) : s.run (m >>= next) = (.error stop, t) := by
  rw [run_bind, h]

@[simp]
theorem run_get_bind (s : Session) (next : Session → Eval β) :
    s.run (get >>= next) = s.run (next s) := rfl

theorem run_lookup (s : Session) (name : Token) :
    s.run (lookup name) =
      match s.scopes.get? s.active name.lexeme with
      | some value => (.ok value, s)
      | none => (.error (.runtime ⟨.undefinedVariable name.lexeme, name.line⟩), s) := by
  unfold lookup
  rw [run_get_bind]
  cases s.scopes.get? s.active name.lexeme <;> rfl

theorem run_assign (s : Session) (name : Token) (value : Value) :
    s.run (assign name value) =
      match s.scopes.holder? name.lexeme s.active with
      | some holder => (.ok (), { s with scopes := s.scopes.define holder name.lexeme value })
      | none => (.error (.runtime ⟨.undefinedVariable name.lexeme, name.line⟩), s) := by
  unfold run assign
  cases s.scopes.holder? name.lexeme s.active <;> rfl

@[simp]
theorem run_define (s : Session) (name : String) (value : Value) :
    s.run (define name value) =
      (.ok (), { s with scopes := s.scopes.define s.active name value }) := rfl

@[simp]
theorem run_makeFunction (s : Session) (name : Token) (parameters : List Token) (body : List Stmt) :
    s.run (makeFunction name parameters body) =
      (.ok (.declared ⟨s.objects, name.lexeme⟩ parameters body s.active),
        { s with objects := s.objects + 1 }) := rfl

/-- The session in which an evaluation in a new scope begins. -/
def enter (s : Session) (parent : ScopeId) : Session :=
  { s with scopes := s.scopes.newChild parent, active := s.scopes.next }

theorem run_inNewScope (s : Session) (parent : ScopeId) (m : Eval α) :
    s.run (inNewScope parent m) =
      (((s.enter parent).run m).1, { ((s.enter parent).run m).2 with active := s.active }) := by
  unfold run inNewScope enter
  dsimp only
  rcases m { s with scopes := s.scopes.newChild parent, active := s.scopes.next } with
    ⟨a, t⟩ | ⟨stop, t⟩ <;> rfl

theorem run_write (s : Session) (text : String) :
    s.run (write text) =
      (if s.sink.take s.output text = text then .ok () else .error (.outputRefused s.sink.refusal),
        { s with output := s.output ++ s.sink.take s.output text }) := by
  unfold run write
  by_cases hall : s.sink.take s.output text = text
  · simp only [if_pos hall]
  · simp only [if_neg hall]

@[simp]
theorem run_act_readClock (s : Session) (arguments : List Value) :
    s.run (act .readClock arguments) =
      (.ok (s.clock.value s.readings), { s with readings := s.readings + 1 }) := rfl

@[simp]
theorem run_act_compute (s : Session) (answer : List Value → Except RuntimeError.Problem Value)
    (arguments : List Value) :
    s.run (act (.compute answer) arguments) = (.ok (answer arguments), s) := rfl

theorem run_callNative (s : Session) (index : Nat) (paren : Token) (arguments : List Value) :
    s.run (callNative index paren arguments) =
      match s.natives[index]? with
      | some native =>
        if arguments.length = native.arity then s.run (answer native paren arguments)
        else (.error (.runtime ⟨.arityMismatch native.arity arguments.length, paren.line⟩), s)
      | none => (.error .malformed, s) := by
  unfold callNative
  rw [run_get_bind]
  cases s.natives[index]? with
  | none => rfl
  | some native =>
    dsimp only
    split <;> rfl

end Session

end LoxScript
