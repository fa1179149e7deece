import LoxScript.Proofs.Evaluation.Elementary
import LoxScript.Proofs.Syntax.Grammar

/-!
# Results stay in functions

A `return` belongs to a function. Statements in which every one stands in a function that they declare
never end at a result themselves, and the programs of the language consist of such statements. So no
result ends a script.

## Main definitions

* `Stmt.ResultFree`: statements without a result of their own.
* `Eval.Only`: evaluations that only end with certain values.

## Main statements

* `Grammar.IsProgram.resultFree`: programs have no result of their own.
* `Eval.executeEach_only_normal`: statements without a result of their own end at their end.
-/

namespace LoxScript

/-- Statements in which every result stands in a function that they declare. -/
inductive Stmt.ResultFree : Stmt → Prop where
  | expression (value : Expr) : ResultFree (.expression value)
  | print (value : Expr) : ResultFree (.print value)
  | var (name : Token) (initial : Option Expr) : ResultFree (.var name initial)
  | block {body : List Stmt} (hbody : ∀ s ∈ body, ResultFree s) : ResultFree (.block body)
  | ifThen (condition : Expr) {body : Stmt} (hbody : ResultFree body) :
      ResultFree (.ifThen condition body)
  | ifElse (condition : Expr) {body otherwise : Stmt} (hbody : ResultFree body)
      (hotherwise : ResultFree otherwise) : ResultFree (.ifElse condition body otherwise)
  | loop (condition : Expr) {body : Stmt} (hbody : ResultFree body) :
      ResultFree (.loop condition body)
  | function (name : Token) (parameters : List Token) (body : List Stmt) :
      ResultFree (.function name parameters body)

/-! ## Programs -/

namespace Grammar

theorem Variable.resultFree {w : List Token} {s : Stmt} {faults : List SyntaxError}
    (h : Variable w s faults) : s.ResultFree := by
  cases h with
  | bare | initialized => exact .var _ _

theorem Initializer.resultFree {w : List Token} {initial : Option Stmt} {faults : List SyntaxError}
    (h : Initializer w initial faults) : ∀ s ∈ initial, s.ResultFree := by
  cases h with
  | none => simp
  | declared _ hs => simpa using hs.resultFree
  | expression => simpa using Stmt.ResultFree.expression _

theorem loopTree_resultFree {initial : Option Stmt} {condition increment : Option Expr} {body : Stmt}
    (hinitial : ∀ s ∈ initial, s.ResultFree) (hbody : body.ResultFree) :
    (loopTree initial condition increment body).ResultFree := by
  have hturn : (turn increment body).ResultFree := by
    cases increment with
    | none => exact hbody
    | some e => exact .block (by simpa using ⟨hbody, .expression e⟩)
  cases initial with
  | none => exact .loop _ hturn
  | some s =>
    have hloop := Stmt.ResultFree.loop (condition.getD (.literal (.bool true))) hturn
    exact .block (by simpa using ⟨hinitial s rfl, hloop⟩)

mutual

/-- A statement without faults outside a function has no result of its own: its `return` would be a
fault. -/
theorem Statement.resultFree {f dangling : Bool} {w : List Token} {s : Stmt}
    {faults : List SyntaxError} (h : Statement f dangling w s faults) (hf : f = false)
    (hfaults : faults = []) : s.ResultFree := by
  match h with
  | .expression _ _ => exact .expression _
  | .print _ _ _ => exact .print _
  | .block _ hss _ => exact .block (hss.resultFree hf hfaults)
  | .ifThen _ _ _ _ hs =>
    exact .ifThen _ (hs.resultFree hf (List.append_eq_nil_iff.1 hfaults).2)
  | .ifElse _ _ _ _ hs _ ht =>
    obtain ⟨hmore, hothers⟩ := List.append_eq_nil_iff.1 (List.append_eq_nil_iff.1 hfaults).2
    exact .ifElse _ (hs.resultFree hf hmore) (ht.resultFree hf hothers)
  | .whileLoop _ _ _ _ hs =>
    exact .loop _ (hs.resultFree hf (List.append_eq_nil_iff.1 hfaults).2)
  | .forLoop _ _ hi _ _ _ _ hs =>
    simp only [List.append_eq_nil_iff] at hfaults
    exact loopTree_resultFree hi.resultFree (hs.resultFree hf hfaults.2.2.2)
  | .result _ _ _ =>
    -- outside a function the keyword is a fault, and there are none
    subst hf
    simp [misplaced] at hfaults

theorem Declaration.resultFree {f dangling : Bool} {w : List Token} {s : Stmt}
    {faults : List SyntaxError} (h : Declaration f dangling w s faults) (hf : f = false)
    (hfaults : faults = []) : s.ResultFree := by
  match h with
  | .varDeclaration _ hs => exact hs.resultFree
  -- its results are its own
  | .funDeclaration _ _ _ _ _ _ _ _ => exact .function _ _ _
  | .statement hs => exact hs.resultFree hf hfaults

theorem Block.resultFree {f : Bool} {w : List Token} {ss : List Stmt} {faults : List SyntaxError}
    (h : Block f w ss faults) (hf : f = false) (hfaults : faults = []) :
    ∀ s ∈ ss, s.ResultFree := by
  match h with
  | .nil => simp
  | .cons hs hss =>
    obtain ⟨hfirst, hmore⟩ := List.append_eq_nil_iff.1 hfaults
    exact List.forall_mem_cons.2 ⟨hs.resultFree hf hfirst, hss.resultFree hf hmore⟩

end

/-- The programs of the language have no result of their own. -/
theorem IsProgram.resultFree {w : List Token} {p : List Stmt} (h : IsProgram w p) :
    ∀ s ∈ p, s.ResultFree :=
  Block.resultFree h rfl rfl

end Grammar

/-! ## Runs -/

namespace Eval

open Session

variable {α β : Type} {A : Arithmetic}

/-- Where `m` ends with a value, it is one in `Q`. -/
def Only (Q : α → Prop) (m : Eval α) : Prop :=
  ∀ (s : Session) (a : α), (s.run m).1 = .ok a → Q a

theorem only_pure {Q : α → Prop} {a : α} (h : Q a) : Only Q (pure a) := by
  rintro s _ ⟨⟩
  exact h

theorem only_true (m : Eval α) : Only (fun _ => True) m := fun _ _ _ => trivial

theorem Only.bind {Q : α → Prop} {P : β → Prop} {m : Eval α} {next : α → Eval β} (hm : Only Q m)
    (hnext : ∀ a, Q a → Only P (next a)) : Only P (m >>= next) := by
  intro s b hb
  rcases h : s.run m with ⟨stop | a, t⟩
  · rw [run_bind_of_error next h] at hb
    cases hb
  · rw [run_bind_of_ok next h] at hb
    exact hnext a (hm s a (by rw [h])) t b hb

/-- Whatever comes first, the value of the second of two evaluations in a row counts. -/
theorem only_bind {P : β → Prop} {m : Eval α} {next : α → Eval β} (hnext : ∀ a, Only P (next a)) :
    Only P (m >>= next) :=
  (only_true m).bind fun a _ => hnext a

theorem Only.inNewScope {Q : α → Prop} {m : Eval α} (hm : Only Q m) (parent : ScopeId) :
    Only Q (inNewScope parent m) := by
  intro s a ha
  rw [run_inNewScope] at ha
  exact hm _ a ha

/-- Statements under a bound that have no result of their own end at their end. -/
structure EndsNormally (A : Arithmetic) (bound : Nat) : Prop where
  execute : ∀ {s : Stmt}, s.ResultFree → Only (· = .normal) (execute A bound s)
  executeEach : ∀ {ss : List Stmt}, (∀ s ∈ ss, s.ResultFree) →
    Only (· = .normal) (executeEach A bound ss)

namespace EndsNormally

variable {bound : Nat} (h : EndsNormally A bound)

include h

theorem execute_succ {s : Stmt} (hs : s.ResultFree) :
    Only (· = .normal) (Eval.execute A (bound + 1) s) := by
  -- an expression gives no result, and what a function body gives ends with its call
  cases hs with
  | expression value => exact only_bind fun _ => only_pure rfl
  | print value => exact only_bind fun _ => only_bind fun _ => only_pure rfl
  | var name initial =>
    cases initial with
    | none => exact only_bind fun _ => only_pure rfl
    | some initial => exact only_bind fun _ => only_bind fun _ => only_pure rfl
  | block hbody =>
    exact only_bind fun s => (h.executeEach hbody).inNewScope s.active
  | ifThen condition hbody =>
    refine only_bind fun v => ?_
    split
    · exact h.execute hbody
    · exact only_pure rfl
  | ifElse condition hbody hotherwise =>
    refine only_bind fun v => ?_
    split
    · exact h.execute hbody
    · exact h.execute hotherwise
  | loop condition hbody =>
    refine only_bind fun v => ?_
    split
    · refine (h.execute hbody).bind fun c hc => ?_
      subst hc
      exact h.execute (.loop condition hbody)
    · exact only_pure rfl
  | function name parameters body =>
    exact only_bind fun _ => only_bind fun _ => only_pure rfl

theorem executeEach_succ {ss : List Stmt} (hss : ∀ s ∈ ss, s.ResultFree) :
    Only (· = .normal) (Eval.executeEach A (bound + 1) ss) := by
  cases ss with
  | nil => exact only_pure rfl
  | cons s ss =>
    obtain ⟨hs, hss⟩ := List.forall_mem_cons.1 hss
    -- no statement ends the list early
    refine (h.execute hs).bind fun c hc => ?_
    subst hc
    exact h.executeEach hss

end EndsNormally

theorem endsNormally (A : Arithmetic) (bound : Nat) : EndsNormally A bound := by
  induction bound with
  | zero => constructor <;> rintro _ _ s _ ⟨⟩
  | succ bound ih => exact ⟨ih.execute_succ, ih.executeEach_succ⟩

/-- Statements that have no result of their own end at their end, if they end with anything but an
error. -/
theorem executeEach_only_normal {bound : Nat} {ss : List Stmt} (hss : ∀ s ∈ ss, s.ResultFree) :
    Only (· = .normal) (executeEach A bound ss) :=
  (endsNormally A bound).executeEach hss

end Eval

end LoxScript
