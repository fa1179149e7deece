import LoxScript.Proofs.Syntax.Grammar
import LoxScript.Proofs.Syntax.Reading

/-!
# Everything that is read is in the grammar

What is read as an expression, a statement or a program is one of the grammar: the tokens that were
passed derive the tree, and the reports are the faults that the grammar finds in them. The bound plays
no part here, since a reader that reaches it stops with an error.

## Main definitions

* `Parser.ReadsPhrases`, `Parser.ReadsStatements`: whatever a parser reads has a derivation.

## Main statements

* `Parser.chain_reads`: a level whose loop joins operands from the left reads left recursive texts.
* `Parser.expression_reads`, `Parser.item_reads`: expressions, statements and declarations.
* `Parser.readWithin_reads`: programs that are read without errors.
-/

namespace LoxScript

namespace Parser

open Grammar

variable {ctx : Context} {t : Token} {ts rest : List Token} {reports : List SyntaxError} {e : Expr}
  {nested : Parser Expr}

/-! ### Soundness -/

/-- Whatever `p` reads is an expression of level `L`. -/
def ReadsPhrases (L : Level) (p : Parser Expr) : Prop :=
  ∀ ⦃ctx ts reports rest e⦄, ctx.ending.kind = .endOfInput →
    p ctx ts = ⟨reports, rest, .ok e⟩ → ∃ w, ts = w ++ rest ∧ Phrase L w e reports

variable (hnested : ReadsPhrases .assignment nested)

include hnested in
theorem primary_reads : ReadsPhrases .primary (primary nested) := by
  intro ctx ts reports rest e hctx h
  obtain ⟨t, ts, rfl, ⟨value, ht⟩ | ht | ht⟩ := startsPrimary_of_primary hctx h
  · rw [primary_literal ht] at h
    cases h
    exact ⟨[t], rfl, .literal ht⟩
  · rw [primary_variable ht] at h
    cases h
    exact ⟨[t], rfl, .name ht⟩
  · obtain ⟨inner, r, hinner, hr, rfl⟩ := (primary_grouping_iff ht).1 h
    obtain ⟨w, rfl, hw⟩ := hnested hctx hinner
    exact ⟨t :: (w ++ [r]), by simp, .grouping ht hw hr⟩

include hnested in
theorem arguments_reads {bound count : Nat} {es : List Expr} (hctx : ctx.ending.kind = .endOfInput)
    (h : arguments nested bound count ctx ts = ⟨reports, rest, .ok es⟩) :
    ∃ w, ts = w ++ rest ∧ Items count w es reports := by
  induction bound generalizing count ts reports es with
  | zero => exact absurd h fail_ne_ok
  | succ bound ih =>
    obtain ⟨first, mid, e, he, hrest⟩ := arguments_succ_eq_ok_iff.1 h
    obtain ⟨w, rfl, hw⟩ := hnested hctx he
    obtain ⟨t, v, rfl, -⟩ := hw.starts
    rcases hrest with ⟨rfl, rfl, -, rfl⟩ | ⟨comma, mid', others, es', hcomma, rfl, hes, rfl, rfl⟩
    · exact ⟨t :: v, rfl, .one hw⟩
    · obtain ⟨u, rfl, hu⟩ := ih hes
      exact ⟨t :: v ++ comma :: u, by simp, .more hw hcomma hu⟩

include hnested in
theorem argumentList_reads {bound : Nat} {es : List Expr} (hctx : ctx.ending.kind = .endOfInput)
    (h : argumentList nested bound ctx ts = ⟨reports, rest, .ok es⟩) :
    ∃ w, ts = w ++ rest ∧ Arguments w es reports := by
  unfold argumentList at h
  rw [peek_bind_apply] at h
  split at h
  · obtain ⟨rfl, rfl, rfl⟩ := pure_eq_ok_iff.1 h
    exact ⟨[], rfl, .none⟩
  · obtain ⟨w, hw, hitems⟩ := arguments_reads hnested hctx h
    exact ⟨w, hw, .some hitems⟩

include hnested in
theorem calls_reads {bound : Nat} {callee : Expr} {w : List Token} {faults : List SyntaxError}
    (hctx : ctx.ending.kind = .endOfInput)
    (h : calls nested bound callee ctx ts = ⟨reports, rest, .ok e⟩)
    (hcallee : Phrase .call w callee faults) :
    ∃ v, ts = v ++ rest ∧ Phrase .call (w ++ v) e (faults ++ reports) := by
  -- what was read so far grows with every call, so it is part of the induction
  induction bound generalizing callee ts reports w faults with
  | zero =>
    obtain ⟨rfl, rfl, rfl⟩ := pure_eq_ok_iff.1 h
    exact ⟨[], rfl, by simpa using hcallee⟩
  | succ bound ih =>
    rcases calls_succ_eq_ok_iff.1 h with ⟨rfl, rfl, -, rfl⟩ |
      ⟨l, r, mid, mid', args, first, others, hl, rfl, hargs, hr, hcalls, rfl⟩
    · exact ⟨[], rfl, by simpa using hcallee⟩
    · obtain ⟨u, rfl, hu⟩ := argumentList_reads hnested hctx hargs
      obtain ⟨v, rfl, hv⟩ := ih hcalls (.call hcallee hl hu hr)
      exact ⟨l :: (u ++ r :: v), by simp, by simpa using hv⟩

/-! ### Operators -/

theorem isUnaryOperator_iff {kind : Token.Kind} :
    isUnaryOperator kind ↔ kind ∈ [Token.Kind.bang, .minus] := by
  simp [isUnaryOperator]

include hnested in
theorem unary_reads (bound : Nat) : ReadsPhrases .unary (unary nested bound) := by
  intro ctx ts reports rest e hctx h
  induction bound generalizing ts reports e with
  | zero => exact absurd h fail_ne_ok
  | succ bound ih =>
    rcases unary_succ_eq_ok_iff.1 h with ⟨op, mid, operand, hop, rfl, hoperand, rfl⟩ |
      ⟨-, mid, callee, first, others, hprimary, hcalls, rfl⟩
    · obtain ⟨w, rfl, hw⟩ := ih hoperand
      exact ⟨op :: w, rfl, .unary (isUnaryOperator_iff.1 hop) hw⟩
    · obtain ⟨w, rfl, hw⟩ := primary_reads hnested hctx hprimary
      obtain ⟨v, rfl, hv⟩ := calls_reads hnested hctx hcalls (.tighter hw)
      exact ⟨w ++ v, by simp, .tighter hv⟩

section Chain

variable {L : Level} {isOperator : Token.Kind → Bool} {operand : Parser Expr}
  (hop : ∀ kind, isOperator kind ↔ kind ∈ L.operators) (hoperand : ReadsPhrases L.tighter operand)

include hop hoperand

theorem chainFrom_reads {bound : Nat} {left : Expr} {w : List Token} {faults : List SyntaxError}
    (hctx : ctx.ending.kind = .endOfInput)
    (h : chainFrom isOperator L.join operand bound left ctx ts = ⟨reports, rest, .ok e⟩)
    (hleft : Phrase L w left faults) :
    ∃ v, ts = v ++ rest ∧ Phrase L (w ++ v) e (faults ++ reports) := by
  -- as for calls: the left side grows with every turn
  induction bound generalizing left ts reports w faults with
  | zero =>
    obtain ⟨rfl, rfl, rfl⟩ := pure_eq_ok_iff.1 h
    exact ⟨[], rfl, by simpa using hleft⟩
  | succ bound ih =>
    rcases chainFrom_succ_eq_ok_iff.1 h with ⟨rfl, rfl, -, rfl⟩ |
      ⟨op, mid, mid', right, first, others, hop', rfl, hright, hchain, rfl⟩
    · exact ⟨[], rfl, by simpa using hleft⟩
    · obtain ⟨u, rfl, hu⟩ := hoperand hctx hright
      obtain ⟨v, rfl, hv⟩ := ih hchain (.binary hleft ((hop _).1 hop') hu)
      exact ⟨op :: (u ++ v), by simp, by simpa using hv⟩

/-- A loop that joins operands from the left reads what the grammar builds from the left. -/
theorem chain_reads (bound : Nat) : ReadsPhrases L (chain isOperator L.join operand bound) := by
  intro ctx ts reports rest e hctx h
  obtain ⟨first, mid, left, others, hleft, hchain, rfl⟩ := bind_eq_ok_iff.1 h
  obtain ⟨w, rfl, hw⟩ := hoperand hctx hleft
  obtain ⟨v, rfl, hv⟩ := chainFrom_reads hop hoperand hctx hchain (.tighter hw)
  exact ⟨w ++ v, by simp, hv⟩

end Chain

include hnested in
theorem disjunction_reads (bound : Nat) :
    ReadsPhrases .disjunction (disjunction nested bound) := by
  -- from the tightest level outwards
  have hunary := unary_reads hnested bound
  have hfactor : ReadsPhrases .factor (factor nested bound) :=
    chain_reads (L := .factor) (by simp [isFactorOperator, Level.operators]) hunary bound
  have hterm : ReadsPhrases .term (term nested bound) :=
    chain_reads (L := .term) (by simp [isTermOperator, Level.operators]) hfactor bound
  have hcomparison : ReadsPhrases .comparison (comparison nested bound) :=
    chain_reads (L := .comparison) (by simp [isComparisonOperator, Level.operators, or_assoc]) hterm
      bound
  have hequality : ReadsPhrases .equality (equality nested bound) :=
    chain_reads (L := .equality) (by simp [isEqualityOperator, Level.operators]) hcomparison bound
  have hconjunction : ReadsPhrases .conjunction (conjunction nested bound) :=
    chain_reads (L := .conjunction) (by simp [Level.operators]) hequality bound
  exact chain_reads (L := .disjunction) (by simp [Level.operators]) hconjunction bound

/-! ### Assignments -/

include hnested in
theorem assignment_reads (bound : Nat) : ReadsPhrases .assignment (assignment nested bound) := by
  intro ctx ts reports rest e hctx h
  obtain ⟨target, mid, first, htarget, hrest⟩ := assignment_eq_ok_iff.1 h
  obtain ⟨w, rfl, hw⟩ := disjunction_reads hnested bound hctx htarget
  rcases hrest with ⟨rfl, rfl, -, rfl⟩ | ⟨op, mid', value, others, hop, rfl, hvalue, hend⟩
  · exact ⟨w, rfl, .tighter hw⟩
  · obtain ⟨v, rfl, hv⟩ := hnested hctx hvalue
    refine ⟨w ++ op :: v, by simp, ?_⟩
    rcases hend with ⟨name, rfl, rfl, rfl⟩ | ⟨hvariable, rfl, rfl⟩
    -- a target with the tree of a variable is a name alone, not one in parentheses
    · obtain ⟨rfl, hname, rfl⟩ := hw.eq_of_variable rfl
      exact .assign hname hop hv
    · exact .misassign hw hvariable hop hv

/-- What is read as an expression is an expression. -/
theorem expression_reads (bound : Nat) : ReadsPhrases .assignment (expression bound) := by
  induction bound with
  | zero =>
    intro ctx ts reports rest e _ h
    exact absurd h fail_ne_ok
  | succ bound ih => exact assignment_reads ih (bound + 1)

/-! ### Statements -/

section Statements

variable {nested : Nested} {s : Stmt}

/-- An optional expression that is read is one of the grammar. -/
theorem optional_reads {p : Parser Expr} {kind : Token.Kind} {value : Option Expr}
    (hp : ReadsPhrases .assignment p) (hctx : ctx.ending.kind = .endOfInput)
    (h : ReadsOptional p kind ctx ts reports rest value) :
    ∃ w, ts = w ++ rest ∧ Optional w value reports := by
  rcases h with ⟨-, rfl, rfl, rfl⟩ | ⟨-, e, rfl, he⟩
  · exact ⟨[], rfl, .none⟩
  · obtain ⟨w, hw, he⟩ := hp hctx he
    exact ⟨w, hw, .some he⟩

theorem parameters_reads {bound count : Nat} {names : List Token}
    (h : parameters bound count ctx ts = ⟨reports, rest, .ok names⟩) :
    ∃ w, ts = w ++ rest ∧ Names count w names reports := by
  induction bound generalizing count ts reports names with
  | zero => exact absurd h fail_ne_ok
  | succ bound ih =>
    obtain ⟨name, mid, hname, rfl, ⟨rfl, rfl, -, rfl⟩ |
      ⟨comma, mid', others, names', hcomma, rfl, hnames, rfl, rfl⟩⟩ := parameters_succ_eq_ok_iff.1 h
    · exact ⟨[name], rfl, .one hname⟩
    · obtain ⟨w, rfl, hw⟩ := ih hnames
      exact ⟨name :: comma :: w, rfl, .more hname hcomma hw⟩

theorem parameterList_reads {bound : Nat} {names : List Token}
    (h : parameterList bound ctx ts = ⟨reports, rest, .ok names⟩) :
    ∃ w, ts = w ++ rest ∧ Parameters w names reports := by
  unfold parameterList at h
  rw [peek_bind_apply] at h
  split at h
  · obtain ⟨rfl, rfl, rfl⟩ := pure_eq_ok_iff.1 h
    exact ⟨[], rfl, .none⟩
  · obtain ⟨w, hw, hnames⟩ := parameters_reads h
    exact ⟨w, hw, .some hnames⟩

/-- Whatever `p` reads is what the rules `R` allow, and an `else` behind it belongs to another `if`. -/
def ReadsStatements (R : Bool → Bool → List Token → Stmt → List SyntaxError → Prop) (p : Parser Stmt) :
    Prop :=
  ∀ ⦃ctx ts reports rest s⦄, ctx.ending.kind = .endOfInput →
    p ctx ts = ⟨reports, rest, .ok s⟩ → ∃ w dangling, ts = w ++ rest ∧
      R ctx.inFunction dangling w s reports ∧
      (dangling = true → ∀ t ∈ rest.head?, t.kind ≠ .keyword .else)

variable (hexpression : ReadsPhrases .assignment nested.expression)
  (hstatement : ReadsStatements Statement nested.statement)
  (hdeclaration : ReadsStatements Declaration nested.declaration)

include hexpression in
theorem variableDeclaration_reads (hctx : ctx.ending.kind = .endOfInput)
    (h : variableDeclaration nested ctx ts = ⟨reports, rest, .ok s⟩) :
    ∃ w, ts = w ++ rest ∧ Variable w s reports := by
  obtain ⟨name, mid, hname, rfl, ⟨semi, hsemi, rfl, rfl, rfl⟩ |
    ⟨op, mid', e, semi, hop, rfl, he, hsemi, rfl⟩⟩ := variableDeclaration_eq_ok_iff.1 h
  · exact ⟨[name, semi], rfl, .bare hname hsemi⟩
  · obtain ⟨w, rfl, hw⟩ := hexpression hctx he
    exact ⟨name :: op :: (w ++ [semi]), by simp, .initialized hname hop hw hsemi⟩

include hexpression in
theorem expressionStatement_reads : ReadsStatements Statement (expressionStatement nested) := by
  intro ctx ts reports rest s hctx h
  obtain ⟨e, semi, he, hsemi, rfl⟩ := expressionStatement_eq_ok_iff.1 h
  obtain ⟨w, rfl, hw⟩ := hexpression hctx he
  exact ⟨w ++ [semi], false, by simp, .expression hw hsemi, by simp⟩

include hexpression in
theorem initializer_reads {initial : Option Stmt} (hctx : ctx.ending.kind = .endOfInput)
    (h : initializer nested ctx ts = ⟨reports, rest, .ok initial⟩) :
    ∃ w, ts = w ++ rest ∧ Initializer w initial reports := by
  rcases initializer_eq_ok_iff.1 h with ⟨semi, hsemi, rfl, rfl, rfl⟩ |
    ⟨keyword, mid, s, hkeyword, rfl, hs, rfl⟩ | ⟨-, s, hs, rfl⟩
  · exact ⟨[semi], rfl, .none hsemi⟩
  · obtain ⟨w, rfl, hw⟩ := variableDeclaration_reads hexpression hctx hs
    exact ⟨keyword :: w, rfl, .declared hkeyword hw⟩
  · obtain ⟨e, semi, he, hsemi, rfl⟩ := expressionStatement_eq_ok_iff.1 hs
    obtain ⟨w, rfl, hw⟩ := hexpression hctx he
    exact ⟨w ++ [semi], by simp, .expression hw hsemi⟩

include hdeclaration in
theorem block_reads {bound : Nat} {ss : List Stmt} (hctx : ctx.ending.kind = .endOfInput)
    (h : block nested.declaration bound ctx ts = ⟨reports, rest, .ok ss⟩) :
    ∃ w close, ts = w ++ close :: rest ∧ Block ctx.inFunction w ss reports ∧
      close.kind = .rightBrace := by
  induction bound generalizing ts reports ss with
  | zero => exact absurd h fail_ne_ok
  | succ bound ih =>
    rcases block_succ_eq_ok_iff.1 h with ⟨close, hclose, rfl, rfl, rfl⟩ |
      ⟨-, -, first, mid, s, others, ss', hs, hss, rfl, rfl⟩
    · exact ⟨[], close, rfl, .nil, hclose⟩
    · obtain ⟨w, dangling, rfl, hw, -⟩ := hdeclaration hctx hs
      obtain ⟨v, close, rfl, hv, hclose⟩ := ih hss
      exact ⟨w ++ v, close, by simp, .cons hw hv, hclose⟩

include hexpression hstatement in
theorem conditional_reads {keyword : Token} (hkeyword : keyword.kind = .keyword .if)
    (hctx : ctx.ending.kind = .endOfInput)
    (h : conditional nested ctx ts = ⟨reports, rest, .ok s⟩) :
    ∃ w dangling, keyword :: ts = w ++ rest ∧ Statement ctx.inFunction dangling w s reports ∧
      (dangling = true → ∀ t ∈ rest.head?, t.kind ≠ .keyword .else) := by
  obtain ⟨l, r, mid, mid', mid'', condition, body, first, others, hl, rfl, hcondition, hr, hbody,
    hend⟩ := conditional_eq_ok_iff.1 h
  obtain ⟨w, rfl, hw⟩ := hexpression hctx hcondition
  obtain ⟨v, dangling, rfl, hv, hdangling⟩ := hstatement hctx hbody
  -- without an `else` behind it the whole dangles, whatever its branch does
  rcases hend with ⟨rfl, helse, rfl, rfl⟩ |
    ⟨otherwise, last, t, more, hotherwise, rfl, ht, rfl, rfl⟩
  · exact ⟨keyword :: l :: (w ++ r :: v), true, by simp, .ifThen hkeyword hl hw hr hv, fun _ => helse⟩
  · -- the `else` behind the first branch shows that no `if` in it waits for one
    have hclosed : dangling = false := by
      cases dangling
      · rfl
      · exact absurd hotherwise (hdangling rfl otherwise rfl)
    subst hclosed
    obtain ⟨u, dangling, rfl, hu, hdangling'⟩ := hstatement hctx ht
    exact ⟨keyword :: l :: (w ++ r :: (v ++ otherwise :: u)), dangling, by simp,
      .ifElse hkeyword hl hw hr hv hotherwise hu, hdangling'⟩

include hexpression hstatement in
theorem whileLoop_reads {keyword : Token} (hkeyword : keyword.kind = .keyword .while)
    (hctx : ctx.ending.kind = .endOfInput)
    (h : whileLoop nested ctx ts = ⟨reports, rest, .ok s⟩) :
    ∃ w dangling, keyword :: ts = w ++ rest ∧ Statement ctx.inFunction dangling w s reports ∧
      (dangling = true → ∀ t ∈ rest.head?, t.kind ≠ .keyword .else) := by
  obtain ⟨l, r, mid, mid', condition, body, first, others, hl, rfl, hcondition, hr, hbody, rfl, rfl⟩ :=
    whileLoop_eq_ok_iff.1 h
  obtain ⟨w, rfl, hw⟩ := hexpression hctx hcondition
  obtain ⟨v, dangling, rfl, hv, hdangling⟩ := hstatement hctx hbody
  exact ⟨keyword :: l :: (w ++ r :: v), dangling, by simp, .whileLoop hkeyword hl hw hr hv, hdangling⟩

include hexpression hstatement in
theorem forLoop_reads {keyword : Token} (hkeyword : keyword.kind = .keyword .for)
    (hctx : ctx.ending.kind = .endOfInput)
    (h : forLoop nested ctx ts = ⟨reports, rest, .ok s⟩) :
    ∃ w dangling, keyword :: ts = w ++ rest ∧ Statement ctx.inFunction dangling w s reports ∧
      (dangling = true → ∀ t ∈ rest.head?, t.kind ≠ .keyword .else) := by
  obtain ⟨l, semi, r, mid, mid', mid'', last, initial, condition, increment, body, first, second,
    third, fourth, hl, rfl, hinitial, hcondition, hsemi, hincrement, hr, hbody, rfl, rfl⟩ :=
    forLoop_eq_ok_iff.1 h
  obtain ⟨w, rfl, hw⟩ := initializer_reads hexpression hctx hinitial
  obtain ⟨v, rfl, hv⟩ := optional_reads hexpression hctx hcondition
  obtain ⟨u, rfl, hu⟩ := optional_reads hexpression hctx hincrement
  obtain ⟨x, dangling, rfl, hx, hdangling⟩ := hstatement hctx hbody
  refine ⟨keyword :: l :: (w ++ (v ++ semi :: (u ++ r :: x))), dangling, by simp, ?_, hdangling⟩
  rw [forTree_eq_loopTree]
  exact .forLoop hkeyword hl hw hv hsemi hu hr hx

include hexpression in
theorem result_reads {keyword : Token} (hkeyword : keyword.kind = .keyword .return)
    (hctx : ctx.ending.kind = .endOfInput)
    (h : result nested keyword ctx ts = ⟨reports, rest, .ok s⟩) :
    ∃ w, keyword :: ts = w ++ rest ∧ Statement ctx.inFunction false w s reports := by
  obtain ⟨value, semi, faults, hvalue, hsemi, rfl, rfl⟩ := result_eq_ok_iff.1 h
  obtain ⟨w, rfl, hw⟩ := optional_reads hexpression hctx hvalue
  exact ⟨keyword :: (w ++ [semi]), by simp, .result hkeyword hw hsemi⟩

include hexpression hstatement hdeclaration in
theorem statementWith_reads (bound : Nat) : ReadsStatements Statement (statementWith nested bound) := by
  intro ctx ts reports rest s hctx h
  -- the first token decides on the sort of statement
  rcases ts with - | ⟨t, ts⟩
  · rw [statementWith_nil hctx] at h
    exact expressionStatement_reads hexpression hctx h
  · rw [statementWith_cons] at h
    split at h
    case h_1 ht =>
      obtain ⟨e, semi, he, hsemi, rfl⟩ := printed_eq_ok_iff.1 h
      obtain ⟨w, rfl, hw⟩ := hexpression hctx he
      exact ⟨t :: (w ++ [semi]), false, by simp, .print ht hw hsemi, by simp⟩
    case h_2 ht =>
      obtain ⟨ss, hss, rfl⟩ := map_eq_ok_iff.1 h
      obtain ⟨w, close, rfl, hw, hclose⟩ := block_reads hdeclaration hctx hss
      exact ⟨t :: (w ++ [close]), false, by simp, .block ht hw hclose, by simp⟩
    case h_3 ht => exact conditional_reads hexpression hstatement ht hctx h
    case h_4 ht => exact whileLoop_reads hexpression hstatement ht hctx h
    case h_5 ht => exact forLoop_reads hexpression hstatement ht hctx h
    case h_6 ht =>
      obtain ⟨w, hw, hs⟩ := result_reads hexpression ht hctx h
      exact ⟨w, false, hw, hs, by simp⟩
    case h_7 => exact expressionStatement_reads hexpression hctx h

include hexpression hstatement hdeclaration in
theorem declarationWith_reads (bound : Nat) :
    ReadsStatements Declaration (declarationWith nested bound) := by
  intro ctx ts reports rest s hctx h
  rcases ts with - | ⟨t, ts⟩
  · rw [declarationWith_nil hctx] at h
    obtain ⟨w, dangling, hw, hs, hdangling⟩ := expressionStatement_reads hexpression hctx h
    exact ⟨w, dangling, hw, .statement hs, hdangling⟩
  · rw [declarationWith_cons] at h
    split at h
    case h_1 ht =>
      obtain ⟨w, rfl, hw⟩ := variableDeclaration_reads hexpression hctx h
      exact ⟨t :: w, false, rfl, .varDeclaration ht hw, by simp⟩
    case h_2 ht =>
      obtain ⟨name, l, r, brace, mid, mid', names, body, first, others, hname, hl, rfl, hnames, hr,
        hbrace, hbody, rfl, rfl⟩ := functionDeclaration_eq_ok_iff.1 h
      obtain ⟨w, rfl, hw⟩ := parameterList_reads hnames
      have hinner : ({ ctx with inFunction := true } : Context).ending.kind = .endOfInput := hctx
      obtain ⟨v, close, rfl, hv, hclose⟩ := block_reads hdeclaration hinner hbody
      exact ⟨t :: name :: l :: (w ++ r :: brace :: (v ++ [close])), false, by simp,
        .funDeclaration ht hname hl hw hr hbrace hv hclose, by simp⟩
    -- any other first token leaves it to the statements
    case h_3 =>
      obtain ⟨w, dangling, hw, hs, hdangling⟩ :=
        statementWith_reads hexpression hstatement hdeclaration bound hctx h
      exact ⟨w, dangling, hw, .statement hs, hdangling⟩

end Statements

/-- What is read as a statement or declaration is one. -/
theorem item_reads (bound : Nat) :
    ReadsStatements Statement (statement bound) ∧ ReadsStatements Declaration (declaration bound) := by
  induction bound with
  | zero =>
    constructor <;>
    · intro ctx ts reports rest s _ h
      exact absurd h fail_ne_ok
  | succ bound ih =>
    have hexpression := expression_reads (bound + 1)
    exact ⟨statementWith_reads hexpression ih.1 ih.2 (bound + 1),
      declarationWith_reads hexpression ih.1 ih.2 (bound + 1)⟩

/-- Reading that finds no errors has read declarations without faults. -/
theorem readWithin_reads {ending : Token} {bound : Nat} (hending : ending.kind = .endOfInput)
    (hbound : ts.length ≤ bound) (h : (readWithin ending bound ts).errors = []) :
    Block false ts (readWithin ending bound ts).program [] := by
  induction bound generalizing ts with
  | zero =>
    obtain rfl : ts = [] := by simpa using hbound
    exact .nil
  | succ bound ih =>
    rcases ts with - | ⟨t, ts⟩
    · exact .nil
    · rcases hread : declaration (t :: ts).length ⟨ending, false⟩ (t :: ts) with ⟨reports, rest, e | s⟩
      · simp [readWithin_of_error (List.cons_ne_nil t ts) hread] at h
      · simp only [readWithin_of_ok (List.cons_ne_nil t ts) hread, List.append_eq_nil_iff] at h ⊢
        obtain ⟨rfl, herrors⟩ := h
        obtain ⟨w, dangling, hw, hs, -⟩ := (item_reads _).2 hending hread
        obtain ⟨u, v, rfl, -⟩ := hs.starts
        -- a declaration has a token, so the bound suffices for the rest
        have hlength : rest.length ≤ bound := by
          have := congrArg List.length hw
          simp only [List.length_cons, List.length_append] at this hbound
          omega
        rw [hw]
        exact .cons hs (ih hlength herrors)

end Parser

end LoxScript
