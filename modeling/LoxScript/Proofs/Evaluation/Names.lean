import LoxScript.Proofs.Evaluation.Chain
import LoxScript.Proofs.Evaluation.ForLoop
import LoxScript.Proofs.Evaluation.Keeping
import LoxScript.Proofs.Syntax.Language
import Mathlib.Data.Set.Insert

/-!
# The names in a scope

No name ever goes from a scope, and names come to the active scope only, by the statement that declares them.
Other statements leave the names in the active scope as they are, however deep in them there are declarations,
and whatever they call.

That rests on the grammar: the branches of an `if` and the bodies of loops are statements that declare
nothing in the scope that they stand in. It is so everywhere in a program, also in the bodies of functions.

## Main definitions

* `Session.names`: the names that a scope binds.
* `Stmt.declared?`: the name that a statement declares.
* `Stmt.Part`: a statement in another one, at any depth.
* `Stmt.Scoped`: all branches and bodies of loops declare nothing in the scope that they stand in.

## Main statements

* `Grammar.Block.scoped`: the statements of a program are of that kind, and so are their parts.
* `Session.Changes.names_subset`: no name goes from a scope.
* `Session.names_execute`: which names there are after a statement of a program was executed.
-/

namespace LoxScript

/-- The names that the scope `id` binds. -/
def Session.names (s : Session) (id : ScopeId) : Set String :=
  {name | s.scopes.bound? id name ≠ none}

namespace Stmt

/-- The name that a statement declares in the scope that it stands in. -/
def declared? : Stmt → Option String
  | .var name _ | .function name _ _ => some name.lexeme
  | _ => none

/-- `Part s t`: the statement `s` stands in `t`, at any depth, or is all of it. -/
inductive Part : Stmt → Stmt → Prop where
  | all (s : Stmt) : Part s s
  | block {s t : Stmt} {body : List Stmt} (ht : t ∈ body) (h : Part s t) : Part s (.block body)
  | ifThen {s body : Stmt} (condition : Expr) (h : Part s body) : Part s (.ifThen condition body)
  | ifElse {s body : Stmt} (condition : Expr) (otherwise : Stmt) (h : Part s body) :
      Part s (.ifElse condition body otherwise)
  | otherwise {s otherwise : Stmt} (condition : Expr) (body : Stmt) (h : Part s otherwise) :
      Part s (.ifElse condition body otherwise)
  | loop {s body : Stmt} (condition : Expr) (h : Part s body) : Part s (.loop condition body)
  | function {s t : Stmt} {body : List Stmt} (name : Token) (parameters : List Token) (ht : t ∈ body)
      (h : Part s t) : Part s (.function name parameters body)

/-- All branches and bodies of loops, at any depth, declare nothing in the scope that they stand in. -/
inductive Scoped : Stmt → Prop where
  | expression (value : Expr) : Scoped (.expression value)
  | print (value : Expr) : Scoped (.print value)
  | var (name : Token) (initial : Option Expr) : Scoped (.var name initial)
  | block {body : List Stmt} (hbody : ∀ s ∈ body, Scoped s) : Scoped (.block body)
  | ifThen (condition : Expr) {body : Stmt} (hnone : body.Undeclaring) (hbody : Scoped body) :
      Scoped (.ifThen condition body)
  | ifElse (condition : Expr) {body otherwise : Stmt} (hnone : body.Undeclaring) (hbody : Scoped body)
      (hnone' : otherwise.Undeclaring) (hotherwise : Scoped otherwise) :
      Scoped (.ifElse condition body otherwise)
  | loop (condition : Expr) {body : Stmt} (hnone : body.Undeclaring) (hbody : Scoped body) :
      Scoped (.loop condition body)
  | function (name : Token) (parameters : List Token) {body : List Stmt} (hbody : ∀ s ∈ body, Scoped s) :
      Scoped (.function name parameters body)
  | result (keyword : Token) (value : Option Expr) : Scoped (.result keyword value)

/-- What is true of all branches and bodies is true of those in a part. -/
theorem Part.scoped {s t : Stmt} (h : s.Part t) (ht : t.Scoped) : s.Scoped := by
  induction h with
  | all => exact ht
  | block hmem _ ih =>
    cases ht with
    | block hbody => exact ih (hbody _ hmem)
  | ifThen _ _ ih =>
    cases ht with
    | ifThen _ _ hbody => exact ih hbody
  | ifElse _ _ _ ih =>
    cases ht with
    | ifElse _ _ hbody _ _ => exact ih hbody
  | otherwise _ _ _ ih =>
    cases ht with
    | ifElse _ _ _ _ hotherwise => exact ih hotherwise
  | loop _ _ ih =>
    cases ht with
    | loop _ _ hbody => exact ih hbody
  | function _ _ hmem _ ih =>
    cases ht with
    | function _ _ hbody => exact ih (hbody _ hmem)

/-- A statement that declares no name itself has no branch and no body that does. -/
theorem Scoped.undeclaring {s : Stmt} (h : s.Scoped) (hnone : s.declared? = none) : s.Undeclaring := by
  cases h with
  | expression value => exact .expression value
  | print value => exact .print value
  | block _ => exact .block _
  | ifThen condition hbody _ => exact .ifThen condition hbody
  | ifElse condition hbody _ hotherwise _ => exact .ifElse condition hbody hotherwise
  | loop condition hbody _ => exact .loop condition hbody
  | result keyword value => exact .result keyword value
  | var | function => cases hnone

end Stmt

/-! ## The grammar -/

namespace Grammar

theorem Variable.scoped {w : List Token} {s : Stmt} {faults : List SyntaxError}
    (h : Variable w s faults) : s.Scoped := by
  cases h <;> exact .var _ _

theorem Initializer.scoped {w : List Token} {initial : Option Stmt} {faults : List SyntaxError}
    (h : Initializer w initial faults) : ∀ s ∈ initial, s.Scoped := by
  cases h with
  | none => simp
  | declared _ hs =>
    rintro _ ⟨⟩
    exact hs.scoped
  | expression _ _ =>
    rintro _ ⟨⟩
    exact .expression _

theorem loopTree_scoped {initial : Option Stmt} {body : Stmt} (condition increment : Option Expr)
    (hinitial : ∀ s ∈ initial, s.Scoped) (hnone : body.Undeclaring) (hbody : body.Scoped) :
    (loopTree initial condition increment body).Scoped := by
  have hturn : (turn increment body).Undeclaring ∧ (turn increment body).Scoped := by
    cases increment with
    | none => exact ⟨hnone, hbody⟩
    | some e => exact ⟨.block _, .block (by simpa using ⟨hbody, .expression e⟩)⟩
  have hloop := Stmt.Scoped.loop (condition.getD (.literal (.bool true))) hturn.1 hturn.2
  cases initial with
  | none => exact hloop
  | some s => exact .block (by simpa using ⟨hinitial s rfl, hloop⟩)

mutual

theorem Statement.scoped {f dangling : Bool} {w : List Token} {s : Stmt} {faults : List SyntaxError}
    (h : Statement f dangling w s faults) : s.Scoped := by
  match h with
  | .expression _ _ => exact .expression _
  | .print _ _ _ => exact .print _
  | .block _ hss _ => exact .block hss.scoped
  | .ifThen _ _ _ _ hs => exact .ifThen _ hs.undeclaring hs.scoped
  | .ifElse _ _ _ _ hs _ ht => exact .ifElse _ hs.undeclaring hs.scoped ht.undeclaring ht.scoped
  | .whileLoop _ _ _ _ hs => exact .loop _ hs.undeclaring hs.scoped
  | .forLoop _ _ hi _ _ _ _ hs => exact loopTree_scoped _ _ hi.scoped hs.undeclaring hs.scoped
  | .result _ _ _ => exact .result _ _

theorem Declaration.scoped {f dangling : Bool} {w : List Token} {s : Stmt} {faults : List SyntaxError}
    (h : Declaration f dangling w s faults) : s.Scoped := by
  match h with
  | .varDeclaration _ hs => exact hs.scoped
  | .funDeclaration _ _ _ _ _ _ hbody _ => exact .function _ _ hbody.scoped
  | .statement hs => exact hs.scoped

/-- Wherever there is a branch or the body of a loop in a text, it is a statement and no declaration. -/
theorem Block.scoped {f : Bool} {w : List Token} {ss : List Stmt} {faults : List SyntaxError}
    (h : Block f w ss faults) : ∀ s ∈ ss, s.Scoped := by
  match h with
  | .nil => exact List.forall_mem_nil _
  | .cons hs hss => exact List.forall_mem_cons.2 ⟨hs.scoped, hss.scoped⟩

end

end Grammar

/-! ## Names -/

/-- Nothing is bound in a scope that there is not. -/
theorem Scopes.define_of_le {s : Scopes} {target : ScopeId} (h : s.next ≤ target) (name : String)
    (v : Value) : s.define target name v = s := by
  have hall : (s.define target name v).all = s.all := by
    refine Array.ext_getElem? fun i => ?_
    rw [getElem?_define]
    by_cases heq : target = i
    · have hnone : s.all[i]? = none := Array.getElem?_eq_none (heq ▸ h)
      rw [if_pos heq, hnone, Option.map_none]
    · rw [if_neg heq]
  exact congrArg Scopes.mk hall

namespace Session

variable {s t : Session} {declares : Bool} {id : ScopeId}

/-- A scope that was there has the names that it had, unless it is the active one and may get others. -/
theorem Keeps.names (h : s.Keeps declares t) (hid : id < s.scopes.next)
    (hactive : declares = true → id ≠ s.active) : t.names id = s.names id := by
  have houtline := h.outline id hid hactive
  have hscope : s.scopes.all[id]? = some s.scopes.all[id] := Array.getElem?_eq_getElem hid
  unfold Session.outline at houtline
  rw [hscope] at houtline
  obtain ⟨scope', hscope', heq⟩ := Option.map_eq_some_iff.1 houtline
  have hbinds := (Prod.mk.inj heq).1
  ext name
  have hname : (scope'.get? name).isSome = (s.scopes.all[id].get? name).isSome := congrFun hbinds name
  simp only [Session.names, Set.mem_ofPred_eq, Scopes.bound?_of_getElem? hscope,
    Scopes.bound?_of_getElem? hscope', ← Option.isSome_iff_ne_none, hname]

/-- A scope that is given a value for a name has this name besides those it had, and no other has more. -/
theorem names_define (target : ScopeId) (name : String) (v : Value) :
    s.names id ⊆ names { s with scopes := s.scopes.define target name v } id ∧
      names { s with scopes := s.scopes.define target name v } id ⊆ insert name (s.names id) := by
  by_cases htarget : target < s.scopes.next
  · constructor
    · intro other hother
      show (s.scopes.define target name v).bound? id other ≠ none
      rw [Scopes.bound?_define htarget]
      by_cases hhere : id = target ∧ other = name
      · rw [if_pos hhere]
        simp
      · rw [if_neg hhere]
        exact hother
    · intro other hother
      replace hother : (s.scopes.define target name v).bound? id other ≠ none := hother
      rw [Scopes.bound?_define htarget] at hother
      by_cases hhere : id = target ∧ other = name
      · exact .inl hhere.2
      · rw [if_neg hhere] at hother
        exact .inr hother
  · -- in a scope that there is not, nothing is bound
    rw [Scopes.define_of_le (Nat.le_of_not_lt htarget)]
    exact ⟨subset_rfl, Set.subset_insert _ _⟩

/-- No step of an evaluation takes a name from a scope. -/
theorem Changes.names_subset (h : s.Changes t) (id : ScopeId) : s.names id ⊆ t.names id := by
  induction h with
  | none | make | read | write => exact subset_rfl
  | seq _ _ first second => exact first.trans second
  | define s name value => exact (names_define s.active name value).1
  | assign value hholder => exact (names_define _ _ value).1
  | @inside s t parent _ ih =>
    intro name hname
    have hentered : name ∈ (s.enter parent).names id := by
      show (s.scopes.add (.within (some parent))).bound? id name ≠ Option.none
      rw [Scopes.bound?_add]
      exact hname
    exact ih hentered

variable {A : Arithmetic}

/-- What a declaration does ends at the latest when its name is bound. Up to then there are the same names. -/
theorem names_execute_subset_insert {statement : Stmt} {name : String}
    (h : statement.declared? = some name) (bound : Nat) (s : Session) (hid : id < s.scopes.next) :
    (s.run (Eval.execute A bound statement)).2.names id ⊆ insert name (s.names id) := by
  cases bound with
  | zero => exact Set.subset_insert _ _
  | succ bound =>
    cases statement with
    | var token initial =>
      -- the initial value is evaluated first, and may be all that is
      obtain rfl := Option.some.inj h
      cases initial with
      | none => exact (names_define s.active token.lexeme .nil).2
      | some e =>
        have hvalue := (Eval.keeping_evaluate A bound).1 e s
        unfold Eval.execute
        rcases hrun : s.run (Eval.evaluate A bound e) with ⟨stop | v, t⟩ <;> rw [hrun] at hvalue
        · rw [run_bind_of_error _ hrun, hvalue.names hid (by simp)]
          exact Set.subset_insert _ _
        · rw [run_bind_of_ok _ hrun, ← hvalue.names hid (by simp)]
          exact (names_define t.active token.lexeme v).2
    | function token parameters body =>
      obtain rfl := Option.some.inj h
      exact (names_define s.active token.lexeme _).2
    | _ => cases h

/-- Names only come, and only to the active scope. After a statement of a program was executed, however that
ended, all other scopes there were have the names that they had, and so has the active one unless the
statement is a declaration itself, which gives it at most its own name. -/
theorem names_execute {ts : List Token} {p : Program} (hp : Program.ofTokens ts = .ok p)
    {root statement : Stmt} (hroot : root ∈ p) (hpart : statement.Part root) (A : Arithmetic)
    (bound : Nat) (s : Session) :
    let t := (s.run (Eval.execute A bound statement)).2
    (∀ id, s.names id ⊆ t.names id) ∧
    (∀ id < s.scopes.next, id ≠ s.active → t.names id = s.names id) ∧
    (statement.declared? = none → ∀ id < s.scopes.next, t.names id = s.names id) ∧
    ∀ name, statement.declared? = some name →
      ∀ id < s.scopes.next, t.names id ⊆ insert name (s.names id) := by
  intro t
  have hchanges : s.Changes t := s.changes_execute bound statement
  -- that branches and bodies are no declarations comes from the grammar
  have hscoped : statement.Scoped := by
    have hblock := Program.ofTokens_eq_ok_iff.1 hp
    exact hpart.scoped (hblock.scoped root hroot)
  refine ⟨hchanges.names_subset, fun id hid hactive => ?_, fun hnone id hid => ?_,
    fun name hname id hid => ?_⟩
  · exact hchanges.keeps.names hid fun _ => hactive
  · exact (Eval.keeping_execute A bound (hscoped.undeclaring hnone) s).names hid (by simp)
  · exact names_execute_subset_insert hname bound s hid

/-- In the program that declares a variable in a block, the declaration gives the active scope at most the
name of the variable, and the block gives it none. -/
theorem names_execute_variable_in_block :
    let a : Token := ⟨.identifier, "a", 1⟩
    let ts : List Token := [⟨.leftBrace, "\x7b", 1⟩, ⟨.keyword .var, "var", 1⟩, a,
      ⟨.semicolon, ";", 1⟩, ⟨.rightBrace, "\x7d", 1⟩, Token.ending 1]
    let declaration : Stmt := .var a none
    let s := start (.stopped ⟨0⟩) .unlimited
    Program.ofTokens ts = .ok [.block [declaration]] ∧
      (s.run (Eval.execute .binary64 5 (.block [declaration]))).2.names globals = s.names globals ∧
      (s.run (Eval.execute .binary64 5 declaration)).2.names globals ⊆ insert "a" (s.names globals) := by
  intro a ts declaration s
  have hp : Program.ofTokens ts = .ok [.block [declaration]] := by cbv
  have hroot : Stmt.block [declaration] ∈ [Stmt.block [declaration]] := List.mem_singleton_self _
  have hinside : declaration.Part (.block [declaration]) :=
    .block (List.mem_singleton_self _) (.all declaration)
  have hglobals : globals < s.scopes.next := Nat.zero_lt_one
  obtain ⟨-, -, hblock, -⟩ := names_execute hp hroot (.all _) .binary64 5 s
  obtain ⟨-, -, -, hvariable⟩ := names_execute hp hroot hinside .binary64 5 s
  exact ⟨hp, hblock rfl globals hglobals, hvariable "a" rfl globals hglobals⟩

end Session

end LoxScript
