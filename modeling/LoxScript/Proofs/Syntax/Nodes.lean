import LoxScript.Proofs.Syntax.Printing
import LoxScript.Proofs.Syntax.WellFormed

/-!
# The nodes of a tree

The expressions that occur in a tree, at any depth, with the expressions in statements and in the bodies
of functions. Every one of them was read as an expression of its own: the grammar has a text for it, the
tokens of which are tokens of the script. Whatever holds of a text without faults therefore holds of all
nodes of an accepted script.

A `for` loop without condition is the one place where a node has no text in the script. Its condition is
`true`, which has a text as well.

## Main definitions

* `Expr.nodes`, `Stmt.nodes`: the expressions that occur in a tree.
* `Expr.Derived`: an expression with a text of its own.

## Main statements

* `Grammar.Phrase.nodes_derived`, `Grammar.Block.nodes_derived`: the nodes of a tree without faults.
* `Program.derived_of_ofSource`: the nodes of an accepted script.
-/

namespace LoxScript

namespace Expr

mutual

/-- The expressions that occur in an expression, which is the first of them. -/
def nodes : Expr → List Expr
  | .literal value => [.literal value]
  | .grouping inner => .grouping inner :: inner.nodes
  | .unary operator operand => .unary operator operand :: operand.nodes
  | .binary operator left right => .binary operator left right :: (left.nodes ++ right.nodes)
  | .logical operator left right => .logical operator left right :: (left.nodes ++ right.nodes)
  | .variable name => [.variable name]
  | .assign name value => .assign name value :: value.nodes
  | .call callee paren arguments =>
    .call callee paren arguments :: (callee.nodes ++ nodesEach arguments)

/-- The expressions that occur in several expressions. -/
def nodesEach : List Expr → List Expr
  | [] => []
  | e :: es => e.nodes ++ nodesEach es

end

end Expr

namespace Stmt

mutual

/-- The expressions that occur in a statement. -/
def nodes : Stmt → List Expr
  | .expression value | .print value => value.nodes
  | .var _ value | .result _ value => value.elim [] Expr.nodes
  | .block body | .function _ _ body => nodesEach body
  | .ifThen condition body | .loop condition body => condition.nodes ++ body.nodes
  | .ifElse condition body otherwise => condition.nodes ++ (body.nodes ++ otherwise.nodes)

/-- The expressions that occur in several statements. -/
def nodesEach : List Stmt → List Expr
  | [] => []
  | s :: ss => s.nodes ++ nodesEach ss

end

end Stmt

/-- The expressions that occur in a program. -/
def Program.nodes (p : Program) : List Expr := Stmt.nodesEach p

/-! ## Properties of all nodes -/

namespace Expr

variable {N : Expr → Prop}

/-- All these expressions are in `N`. -/
def AllIn (N : Expr → Prop) (es : List Expr) : Prop := ∀ e ∈ es, N e

@[simp] theorem allIn_nil : AllIn N [] := List.forall_mem_nil _

@[simp] theorem allIn_cons {e : Expr} {es : List Expr} : AllIn N (e :: es) ↔ N e ∧ AllIn N es :=
  List.forall_mem_cons

@[simp] theorem allIn_append {es es' : List Expr} :
    AllIn N (es ++ es') ↔ AllIn N es ∧ AllIn N es' :=
  List.forall_mem_append

/-- An expression occurs in itself. -/
theorem AllIn.root {e : Expr} (h : AllIn N e.nodes) : N e := by
  cases e <;> exact h _ (List.mem_cons_self ..)

end Expr

/-! ## Nodes of derived trees -/

variable {A : Arithmetic}

/-- There is a text of this expression without faults, and its tokens have been read. -/
def Expr.Derived (A : Arithmetic) (e : Expr) : Prop :=
  ∃ L w, Grammar.Phrase L w e [] ∧ Token.AllLexed A w

theorem Expr.Derived.wellFormed {e : Expr} (h : e.Derived A) : e.WellFormed := by
  obtain ⟨L, w, hderived, -⟩ := h
  exact hderived.wellFormed rfl

theorem Expr.Derived.spelled {e : Expr} (h : e.Derived A) (hA : A.ReadsBack)
    (hfinite : Number.AllFinite e.numbers) : Token.AllLexed A e.spelled := by
  obtain ⟨L, w, hderived, hlexed⟩ := h
  exact (hderived.spelled hA rfl hlexed hfinite).2

namespace Grammar

open LoxScript.Expr (AllIn Derived)

theorem nodes_join (L : Level) (op : Token) (a b : Expr) :
    (L.join op a b).nodes = L.join op a b :: (a.nodes ++ b.nodes) := by
  cases L <;> rfl

/-! ## Expressions -/

mutual

/-- All nodes of an expression without faults have a text of their own. -/
theorem Phrase.nodes_derived {L : Level} {w : List Token} {e : Expr} {faults : List SyntaxError}
    (h : Phrase L w e faults) (hfaults : faults = []) (hw : Token.AllLexed A w) :
    AllIn (Derived A) e.nodes := by
  -- the root has the whole text, and each other node a text inside that of a part
  have hroot : e.Derived A := ⟨L, w, hfaults ▸ h, hw⟩
  match h with
  | .literal _ | .name _ => simpa [Expr.nodes] using hroot
  | .grouping _ he _ =>
    simp only [Token.allLexed_cons, Token.allLexed_append] at hw
    exact Expr.allIn_cons.2 ⟨hroot, he.nodes_derived hfaults hw.2.1⟩
  | .call hf _ hargs _ =>
    obtain ⟨hfirst, hmore⟩ := List.append_eq_nil_iff.1 hfaults
    simp only [Token.allLexed_cons, Token.allLexed_append] at hw
    have hcallee := hf.nodes_derived hfirst hw.1
    have harguments := hargs.nodes_derived hmore hw.2.2.1
    exact Expr.allIn_cons.2 ⟨hroot, Expr.allIn_append.2 ⟨hcallee, harguments⟩⟩
  | .unary _ he =>
    have hoperand := he.nodes_derived hfaults (Token.allLexed_cons.1 hw).2
    exact Expr.allIn_cons.2 ⟨hroot, hoperand⟩
  | .binary ha _ hb =>
    obtain ⟨hfirst, hmore⟩ := List.append_eq_nil_iff.1 hfaults
    simp only [Token.allLexed_cons, Token.allLexed_append] at hw
    have hleft := ha.nodes_derived hfirst hw.1
    have hright := hb.nodes_derived hmore hw.2.2
    rw [nodes_join]
    exact Expr.allIn_cons.2 ⟨hroot, Expr.allIn_append.2 ⟨hleft, hright⟩⟩
  | .assign _ _ he =>
    simp only [Token.allLexed_cons] at hw
    exact Expr.allIn_cons.2 ⟨hroot, he.nodes_derived hfaults hw.2.2⟩
  -- an assignment to anything but a variable is a fault
  | .misassign _ _ _ _ => simp at hfaults
  | .tighter he => exact he.nodes_derived hfaults hw

theorem Items.nodes_derived {count : Nat} {w : List Token} {es : List Expr}
    {faults : List SyntaxError} (h : Items count w es faults) (hfaults : faults = [])
    (hw : Token.AllLexed A w) : AllIn (Derived A) (Expr.nodesEach es) := by
  match h with
  | .one he =>
    have hitem := he.nodes_derived (List.append_eq_nil_iff.1 hfaults).2 hw
    exact Expr.allIn_append.2 ⟨hitem, Expr.allIn_nil⟩
  | .more he _ hes =>
    obtain ⟨hfirst, hmore⟩ := List.append_eq_nil_iff.1 (List.append_eq_nil_iff.1 hfaults).2
    simp only [Token.allLexed_cons, Token.allLexed_append] at hw
    have hitem := he.nodes_derived hfirst hw.1
    exact Expr.allIn_append.2 ⟨hitem, hes.nodes_derived hmore hw.2.2⟩

theorem Arguments.nodes_derived {w : List Token} {es : List Expr} {faults : List SyntaxError}
    (h : Arguments w es faults) (hfaults : faults = []) (hw : Token.AllLexed A w) :
    AllIn (Derived A) (Expr.nodesEach es) := by
  match h with
  | .none => exact Expr.allIn_nil
  | .some hitems => exact hitems.nodes_derived hfaults hw

end

/-! ## Statements -/

theorem Optional.nodes_derived {w : List Token} {value : Option Expr} {faults : List SyntaxError}
    (h : Optional w value faults) (hfaults : faults = []) (hw : Token.AllLexed A w) :
    AllIn (Derived A) (value.elim [] Expr.nodes) := by
  cases h with
  | none => exact Expr.allIn_nil
  | some he => exact he.nodes_derived hfaults hw

theorem Variable.nodes_derived {w : List Token} {s : Stmt} {faults : List SyntaxError}
    (h : Variable w s faults) (hfaults : faults = []) (hw : Token.AllLexed A w) :
    AllIn (Derived A) s.nodes := by
  cases h with
  | bare _ _ => exact Expr.allIn_nil
  | initialized _ _ he _ =>
    simp only [Token.allLexed_cons, Token.allLexed_append] at hw
    exact he.nodes_derived hfaults hw.2.2.1

theorem Initializer.nodes_derived {w : List Token} {initial : Option Stmt}
    {faults : List SyntaxError} (h : Initializer w initial faults) (hfaults : faults = [])
    (hw : Token.AllLexed A w) : AllIn (Derived A) (initial.elim [] Stmt.nodes) := by
  cases h with
  | none _ => exact Expr.allIn_nil
  | declared _ hs => exact hs.nodes_derived hfaults (Token.allLexed_cons.1 hw).2
  | expression he _ => exact he.nodes_derived hfaults (Token.allLexed_append.1 hw).1

/-- The condition that a `for` loop without condition has. -/
theorem derived_true : (Expr.literal (.bool true)).Derived A :=
  ⟨.primary, [Token.word .true], .literal rfl, by simp⟩

theorem nodes_derived_loopTree {initial : Option Stmt} {condition increment : Option Expr}
    {body : Stmt} (hinitial : AllIn (Derived A) (initial.elim [] Stmt.nodes))
    (hcondition : AllIn (Derived A) (condition.elim [] Expr.nodes))
    (hincrement : AllIn (Derived A) (increment.elim [] Expr.nodes)) (hbody : AllIn (Derived A) body.nodes) :
    AllIn (Derived A) (loopTree initial condition increment body).nodes := by
  have hturn : AllIn (Derived A) (turn increment body).nodes := by
    cases increment with
    | none => exact hbody
    | some e => simpa [turn, Stmt.nodes, Stmt.nodesEach] using ⟨hbody, hincrement⟩
  have htest : AllIn (Derived A) (condition.getD (.literal (.bool true))).nodes := by
    cases condition with
    | none => simpa [Expr.nodes] using derived_true
    | some e => exact hcondition
  cases initial with
  | none => exact Expr.allIn_append.2 ⟨htest, hturn⟩
  | some s => simpa [loopTree, Stmt.nodes, Stmt.nodesEach] using ⟨hinitial, htest, hturn⟩

mutual

/-- All nodes of a statement without faults have a text of their own. -/
theorem Statement.nodes_derived {f dangling : Bool} {w : List Token} {s : Stmt}
    {faults : List SyntaxError} (h : Statement f dangling w s faults) (hfaults : faults = [])
    (hw : Token.AllLexed A w) : AllIn (Derived A) s.nodes := by
  -- the nodes of a statement are those of its parts, and the tokens of the parts are among its own
  match h with
  | .expression he _ => exact he.nodes_derived hfaults (Token.allLexed_append.1 hw).1
  | .print _ he _ =>
    simp only [Token.allLexed_cons, Token.allLexed_append] at hw
    exact he.nodes_derived hfaults hw.2.1
  | .block _ hss _ =>
    simp only [Token.allLexed_cons, Token.allLexed_append] at hw
    exact hss.nodes_derived hfaults hw.2.1
  | .ifThen _ _ hc _ hs | .whileLoop _ _ hc _ hs =>
    obtain ⟨hfirst, hmore⟩ := List.append_eq_nil_iff.1 hfaults
    simp only [Token.allLexed_cons, Token.allLexed_append] at hw
    have hcondition := hc.nodes_derived hfirst hw.2.2.1
    exact Expr.allIn_append.2 ⟨hcondition, hs.nodes_derived hmore hw.2.2.2.2⟩
  | .ifElse _ _ hc _ hs _ ht =>
    simp only [List.append_eq_nil_iff] at hfaults
    obtain ⟨hfirst, hmore, hothers⟩ := hfaults
    simp only [Token.allLexed_cons, Token.allLexed_append] at hw
    have hcondition := hc.nodes_derived hfirst hw.2.2.1
    have hbody := hs.nodes_derived hmore hw.2.2.2.2.1
    have hotherwise := ht.nodes_derived hothers hw.2.2.2.2.2.2
    exact Expr.allIn_append.2 ⟨hcondition, Expr.allIn_append.2 ⟨hbody, hotherwise⟩⟩
  | .forLoop _ _ hi hc _ hn _ hs =>
    simp only [List.append_eq_nil_iff] at hfaults
    obtain ⟨hfirst, hmore, hothers, hlast⟩ := hfaults
    simp only [Token.allLexed_cons, Token.allLexed_append] at hw
    obtain ⟨-, -, hw₁, hw₂, -, hw₃, -, hw₄⟩ := hw
    exact nodes_derived_loopTree (hi.nodes_derived hfirst hw₁) (hc.nodes_derived hmore hw₂)
      (hn.nodes_derived hothers hw₃) (hs.nodes_derived hlast hw₄)
  | .result _ hvalue _ =>
    simp only [Token.allLexed_cons, Token.allLexed_append] at hw
    exact hvalue.nodes_derived (List.append_eq_nil_iff.1 hfaults).2 hw.2.1

theorem Declaration.nodes_derived {f dangling : Bool} {w : List Token} {s : Stmt}
    {faults : List SyntaxError} (h : Declaration f dangling w s faults) (hfaults : faults = [])
    (hw : Token.AllLexed A w) : AllIn (Derived A) s.nodes := by
  match h with
  | .varDeclaration _ hs => exact hs.nodes_derived hfaults (Token.allLexed_cons.1 hw).2
  | .funDeclaration _ _ _ _ _ _ hbody _ =>
    simp only [Token.allLexed_cons, Token.allLexed_append] at hw
    obtain ⟨-, -, -, -, -, -, hw, -⟩ := hw
    exact hbody.nodes_derived (List.append_eq_nil_iff.1 hfaults).2 hw
  | .statement hs => exact hs.nodes_derived hfaults hw

theorem Block.nodes_derived {f : Bool} {w : List Token} {ss : List Stmt}
    {faults : List SyntaxError} (h : Block f w ss faults) (hfaults : faults = [])
    (hw : Token.AllLexed A w) : AllIn (Derived A) (Stmt.nodesEach ss) := by
  match h with
  | .nil => exact Expr.allIn_nil
  | .cons hs hss =>
    obtain ⟨hfirst, hmore⟩ := List.append_eq_nil_iff.1 hfaults
    obtain ⟨hw, hw'⟩ := Token.allLexed_append.1 hw
    have hstatement := hs.nodes_derived hfirst hw
    exact Expr.allIn_append.2 ⟨hstatement, hss.nodes_derived hmore hw'⟩

end

end Grammar

/-- Every expression that occurs in an accepted script has a text of its own. -/
theorem Program.derived_of_ofSource {source : String} {p : Program}
    (h : Program.ofSource A source = .ok p) {e : Expr} (he : e ∈ p.nodes) : e.Derived A :=
  Grammar.Block.nodes_derived (Program.ofSource_eq_ok_iff.1 h).2 rfl
    (fun _ => Scan.lexed_of_mem_content) e he

end LoxScript
