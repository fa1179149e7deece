import LoxScript.Proofs.Syntax.Language

/-!
# Well formed trees

The types of trees allow more than the parser builds: any token could stand in the place of an operator
or of a name. In a well formed tree every token is of the kind that its place asks for, lists of
arguments and parameters have no more than `maxArity` items, and a result stands in a function body. The
trees of programs are well formed, to every depth.

## Main definitions

* `Expr.WellFormed`, `Stmt.WellFormed`: well formed trees.

## Main statements

* `Grammar.Phrase.wellFormed`, `Grammar.Declaration.wellFormed`: a text without faults has a well formed
  tree.
* `Program.wellFormed_of_ofTokens`, `Program.wellFormed_of_ofSource`: so has everything that is read.
-/

namespace LoxScript

/-- The operators between operands that are both evaluated. -/
def Expr.binaryOperators : List Token.Kind :=
  [.plus, .minus, .star, .slash, .greater, .greaterEqual, .less, .lessEqual, .equalEqual, .bangEqual]

/-- Expressions in which every token is of the right kind and no call has too many arguments. -/
inductive Expr.WellFormed : Expr → Prop where
  | literal (value : Literal) : WellFormed (.literal value)
  | grouping {inner : Expr} (h : WellFormed inner) : WellFormed (.grouping inner)
  | unary {op : Token} {operand : Expr} (hop : op.kind ∈ [.minus, .bang]) (h : WellFormed operand) :
      WellFormed (.unary op operand)
  | binary {op : Token} {left right : Expr} (hop : op.kind ∈ binaryOperators)
      (hleft : WellFormed left) (hright : WellFormed right) : WellFormed (.binary op left right)
  | logical {op : Token} {left right : Expr} (hop : op.kind ∈ [.keyword .and, .keyword .or])
      (hleft : WellFormed left) (hright : WellFormed right) : WellFormed (.logical op left right)
  | variable {name : Token} (hname : name.kind = .identifier) : WellFormed (.variable name)
  | assign {name : Token} {value : Expr} (hname : name.kind = .identifier) (h : WellFormed value) :
      WellFormed (.assign name value)
  | call {callee : Expr} {paren : Token} {arguments : List Expr} (hcallee : WellFormed callee)
      (hparen : paren.kind = .rightParen) (harguments : ∀ e ∈ arguments, WellFormed e)
      (hcount : arguments.length ≤ maxArity) : WellFormed (.call callee paren arguments)

/-- `WellFormed f s`: a statement like that which may stand in a function body, and only there if it has
a result of its own and `f` is `false`. -/
inductive Stmt.WellFormed : Bool → Stmt → Prop where
  | expression {f : Bool} {value : Expr} (h : value.WellFormed) : WellFormed f (.expression value)
  | print {f : Bool} {value : Expr} (h : value.WellFormed) : WellFormed f (.print value)
  | var {f : Bool} {name : Token} {initial : Option Expr} (hname : name.kind = .identifier)
      (hinitial : ∀ e ∈ initial, e.WellFormed) : WellFormed f (.var name initial)
  | block {f : Bool} {body : List Stmt} (hbody : ∀ s ∈ body, WellFormed f s) :
      WellFormed f (.block body)
  | ifThen {f : Bool} {condition : Expr} {body : Stmt} (hcondition : condition.WellFormed)
      (hbody : WellFormed f body) : WellFormed f (.ifThen condition body)
  | ifElse {f : Bool} {condition : Expr} {body otherwise : Stmt} (hcondition : condition.WellFormed)
      (hbody : WellFormed f body) (hotherwise : WellFormed f otherwise) :
      WellFormed f (.ifElse condition body otherwise)
  | loop {f : Bool} {condition : Expr} {body : Stmt} (hcondition : condition.WellFormed)
      (hbody : WellFormed f body) : WellFormed f (.loop condition body)
  | function {f : Bool} {name : Token} {parameters : List Token} {body : List Stmt}
      (hname : name.kind = .identifier) (hparameters : ∀ t ∈ parameters, t.kind = .identifier)
      (hcount : parameters.length ≤ maxArity) (hbody : ∀ s ∈ body, WellFormed true s) :
      WellFormed f (.function name parameters body)
  | result {keyword : Token} {value : Option Expr} (hkeyword : keyword.kind = .keyword .return)
      (hvalue : ∀ e ∈ value, e.WellFormed) : WellFormed true (.result keyword value)

namespace Grammar

/-! ## Expressions -/

theorem join_wellFormed {L : Level} {op : Token} {a b : Expr} (hop : op.kind ∈ L.operators)
    (ha : a.WellFormed) (hb : b.WellFormed) : (L.join op a b).WellFormed := by
  cases L
  case disjunction | conjunction =>
    refine .logical ?_ ha hb
    simp_all [Level.operators]
  case equality | comparison | term | factor =>
    refine .binary ((?_ : Level.operators _ ⊆ Expr.binaryOperators) hop) ha hb
    simp [Level.operators, Expr.binaryOperators]
  -- the other levels have no operators between operands
  all_goals simp [Level.operators] at hop

mutual

/-- An expression without faults has a well formed tree. -/
theorem Phrase.wellFormed {L : Level} {w : List Token} {e : Expr} {faults : List SyntaxError}
    (h : Phrase L w e faults) (hfaults : faults = []) : e.WellFormed := by
  match h with
  | .literal _ => exact .literal _
  | .name ht => exact .variable ht
  | .grouping _ he _ => exact .grouping (he.wellFormed hfaults)
  | .call hf _ hargs hr =>
    obtain ⟨hfirst, hmore⟩ := List.append_eq_nil_iff.1 hfaults
    exact .call (hf.wellFormed hfirst) hr (hargs.wellFormed hmore).1 (hargs.wellFormed hmore).2
  | .unary hop he =>
    refine .unary ?_ (he.wellFormed hfaults)
    simp only [List.mem_cons, List.not_mem_nil, or_false] at hop ⊢
    exact hop.symm
  | .binary ha hop hb =>
    obtain ⟨hfirst, hmore⟩ := List.append_eq_nil_iff.1 hfaults
    exact join_wellFormed hop (ha.wellFormed hfirst) (hb.wellFormed hmore)
  | .assign hname _ he => exact .assign hname (he.wellFormed hfaults)
  -- an assignment to anything but a variable is a fault
  | .misassign _ _ _ _ => simp at hfaults
  | .tighter he => exact he.wellFormed hfaults

theorem Items.wellFormed {count : Nat} {w : List Token} {es : List Expr} {faults : List SyntaxError}
    (h : Items count w es faults) (hfaults : faults = []) : ∀ e ∈ es, e.WellFormed := by
  match h with
  | .one he =>
    exact List.forall_mem_singleton.2 (he.wellFormed (List.append_eq_nil_iff.1 hfaults).2)
  | .more he _ hes =>
    obtain ⟨hfirst, hmore⟩ := List.append_eq_nil_iff.1 (List.append_eq_nil_iff.1 hfaults).2
    exact List.forall_mem_cons.2 ⟨he.wellFormed hfirst, hes.wellFormed hmore⟩

theorem Arguments.wellFormed {w : List Token} {es : List Expr} {faults : List SyntaxError}
    (h : Arguments w es faults) (hfaults : faults = []) :
    (∀ e ∈ es, e.WellFormed) ∧ es.length ≤ maxArity := by
  match h with
  | .none => exact ⟨List.forall_mem_nil _, Nat.zero_le _⟩
  | .some hitems =>
    have hcount := hitems.length_le hfaults
    rw [Nat.zero_add] at hcount
    exact ⟨hitems.wellFormed hfaults, hcount⟩

end

/-! ## Statements -/

theorem Optional.wellFormed {w : List Token} {value : Option Expr} {faults : List SyntaxError}
    (h : Optional w value faults) (hfaults : faults = []) : ∀ e ∈ value, e.WellFormed := by
  cases h with
  | none => simp
  | some he =>
    rintro _ ⟨⟩
    exact he.wellFormed hfaults

theorem Variable.wellFormed {f : Bool} {w : List Token} {s : Stmt} {faults : List SyntaxError}
    (h : Variable w s faults) (hfaults : faults = []) : s.WellFormed f := by
  cases h with
  | bare hname _ => exact .var hname (by simp)
  | initialized hname _ he _ =>
    refine .var hname ?_
    rintro _ ⟨⟩
    exact he.wellFormed hfaults

theorem Names.identifiers {count : Nat} {w names : List Token} {faults : List SyntaxError}
    (h : Names count w names faults) : ∀ t ∈ names, t.kind = .identifier := by
  induction h with
  | one hname => exact List.forall_mem_singleton.2 hname
  | more hname _ _ ih => exact List.forall_mem_cons.2 ⟨hname, ih⟩

theorem Parameters.wellFormed {w names : List Token} {faults : List SyntaxError}
    (h : Parameters w names faults) (hfaults : faults = []) :
    (∀ t ∈ names, t.kind = .identifier) ∧ names.length ≤ maxArity := by
  cases h with
  | none => exact ⟨List.forall_mem_nil _, Nat.zero_le _⟩
  | some hnames =>
    have hcount := hnames.length_le hfaults
    rw [Nat.zero_add] at hcount
    exact ⟨hnames.identifiers, hcount⟩

theorem Initializer.wellFormed {f : Bool} {w : List Token} {initial : Option Stmt}
    {faults : List SyntaxError} (h : Initializer w initial faults) (hfaults : faults = []) :
    ∀ s ∈ initial, s.WellFormed f := by
  cases h with
  | none => simp
  | declared _ hs =>
    rintro _ ⟨⟩
    exact hs.wellFormed hfaults
  | expression he _ =>
    rintro _ ⟨⟩
    exact .expression (he.wellFormed hfaults)

/-- The tree of a `for` loop is well formed if its parts are. -/
theorem loopTree_wellFormed {f : Bool} {initial : Option Stmt} {condition increment : Option Expr}
    {body : Stmt} (hinitial : ∀ s ∈ initial, s.WellFormed f)
    (hcondition : ∀ e ∈ condition, e.WellFormed) (hincrement : ∀ e ∈ increment, e.WellFormed)
    (hbody : body.WellFormed f) : (loopTree initial condition increment body).WellFormed f := by
  have hturn : (turn increment body).WellFormed f := by
    cases increment with
    | none => exact hbody
    | some e => exact .block (by simpa using ⟨hbody, .expression (hincrement e rfl)⟩)
  have htest : (condition.getD (.literal (.bool true))).WellFormed := by
    cases condition with
    | none => exact .literal _
    | some e => exact hcondition e rfl
  cases initial with
  | none => exact .loop htest hturn
  | some s => exact .block (by simpa using ⟨hinitial s rfl, .loop htest hturn⟩)

mutual

/-- A statement without faults has a well formed tree. -/
theorem Statement.wellFormed {f dangling : Bool} {w : List Token} {s : Stmt}
    {faults : List SyntaxError} (h : Statement f dangling w s faults) (hfaults : faults = []) :
    s.WellFormed f := by
  match h with
  | .expression he _ => exact .expression (he.wellFormed hfaults)
  | .print _ he _ => exact .print (he.wellFormed hfaults)
  | .block _ hss _ => exact .block (hss.wellFormed hfaults)
  | .ifThen _ _ hc _ hs =>
    obtain ⟨hfirst, hmore⟩ := List.append_eq_nil_iff.1 hfaults
    exact .ifThen (hc.wellFormed hfirst) (hs.wellFormed hmore)
  | .ifElse _ _ hc _ hs _ ht =>
    simp only [List.append_eq_nil_iff] at hfaults
    obtain ⟨hfirst, hmore, hothers⟩ := hfaults
    exact .ifElse (hc.wellFormed hfirst) (hs.wellFormed hmore) (ht.wellFormed hothers)
  | .whileLoop _ _ hc _ hs =>
    obtain ⟨hfirst, hmore⟩ := List.append_eq_nil_iff.1 hfaults
    exact .loop (hc.wellFormed hfirst) (hs.wellFormed hmore)
  | .forLoop _ _ hi hc _ hn _ hs =>
    simp only [List.append_eq_nil_iff] at hfaults
    obtain ⟨hfirst, hmore, hothers, hlast⟩ := hfaults
    exact loopTree_wellFormed (hi.wellFormed hfirst) (hc.wellFormed hmore) (hn.wellFormed hothers)
      (hs.wellFormed hlast)
  | .result hkeyword hvalue _ =>
    obtain ⟨hplace, hmore⟩ := List.append_eq_nil_iff.1 hfaults
    -- outside a function the keyword would be a fault
    cases f with
    | false => simp [misplaced] at hplace
    | true => exact .result hkeyword (hvalue.wellFormed hmore)

theorem Declaration.wellFormed {f dangling : Bool} {w : List Token} {s : Stmt}
    {faults : List SyntaxError} (h : Declaration f dangling w s faults) (hfaults : faults = []) :
    s.WellFormed f := by
  match h with
  | .varDeclaration _ hs => exact hs.wellFormed hfaults
  | .funDeclaration _ hname _ hnames _ _ hbody _ =>
    obtain ⟨hfirst, hmore⟩ := List.append_eq_nil_iff.1 hfaults
    exact .function hname (hnames.wellFormed hfirst).1 (hnames.wellFormed hfirst).2
      (hbody.wellFormed hmore)
  | .statement hs => exact hs.wellFormed hfaults

theorem Block.wellFormed {f : Bool} {w : List Token} {ss : List Stmt} {faults : List SyntaxError}
    (h : Block f w ss faults) (hfaults : faults = []) : ∀ s ∈ ss, s.WellFormed f := by
  match h with
  | .nil => exact List.forall_mem_nil _
  | .cons hs hss =>
    obtain ⟨hfirst, hmore⟩ := List.append_eq_nil_iff.1 hfaults
    exact List.forall_mem_cons.2 ⟨hs.wellFormed hfirst, hss.wellFormed hmore⟩

end

end Grammar

/-! ## Programs -/

namespace Program

/-- The trees of a list of tokens that is a program are well formed, outside all functions. -/
theorem wellFormed_of_ofTokens {ts : List Token} {p : Program} (h : Program.ofTokens ts = .ok p) :
    ∀ s ∈ p, s.WellFormed false :=
  Grammar.Block.wellFormed (Program.ofTokens_eq_ok_iff.1 h) rfl

theorem wellFormed_of_ofSource {A : Arithmetic} {source : String} {p : Program}
    (h : Program.ofSource A source = .ok p) : ∀ s ∈ p, s.WellFormed false :=
  Grammar.Block.wellFormed (Program.ofSource_eq_ok_iff.1 h).2 rfl

end Program

end LoxScript
