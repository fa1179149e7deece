import LoxScript.Proofs.Syntax.Reading

/-!
# Everything in the grammar is read

A text of the grammar is read to its end and gives its tree and its faults, whatever follows it, as long
as the token behind it cannot belong to it. The bound has to be as long as the text, and it is enough.

The grammar joins operands from the left and a parser goes on from what it has joined so far. The
induction over a text therefore says what is left to do once the text has been passed: at a level with a
loop the loop goes on, with at least as many turns as there are tokens left in the bound.

## Main definitions

* `Grammar.Level.continuations`: the kinds of token that may continue an expression.
* `Parser.level`, `Parser.proceed`: the parser of a level, and what it does behind an operand.

## Main statements

* `Grammar.Phrase.consumes`: what the parser of a level does with an expression of the level.
* `Grammar.Phrase.read`, `Grammar.Declaration.read`: expressions, statements and declarations are read.
* `Grammar.Block.readWithin`: programs are read, with their faults as errors.
-/

namespace LoxScript

open LoxScript.Grammar LoxScript.Parser

namespace Grammar

namespace Level

/-- The kinds of token that may continue an expression of a level: the operators of the level and of the
tighter ones, and the parenthesis of a call. -/
def continuations : Level → List Token.Kind
  | .primary => []
  | .call | .unary => [.leftParen]
  | .factor => [.leftParen, .star, .slash]
  | .term => [.leftParen, .star, .slash, .plus, .minus]
  | .comparison =>
    [.leftParen, .star, .slash, .plus, .minus, .greater, .greaterEqual, .less, .lessEqual]
  | .equality =>
    [.leftParen, .star, .slash, .plus, .minus, .greater, .greaterEqual, .less, .lessEqual,
      .equalEqual, .bangEqual]
  | .conjunction =>
    [.leftParen, .star, .slash, .plus, .minus, .greater, .greaterEqual, .less, .lessEqual,
      .equalEqual, .bangEqual, .keyword .and]
  | .disjunction =>
    [.leftParen, .star, .slash, .plus, .minus, .greater, .greaterEqual, .less, .lessEqual,
      .equalEqual, .bangEqual, .keyword .and, .keyword .or]
  | .assignment =>
    [.leftParen, .star, .slash, .plus, .minus, .greater, .greaterEqual, .less, .lessEqual,
      .equalEqual, .bangEqual, .keyword .and, .keyword .or, .equal]

theorem tighter_continuations_subset (L : Level) : L.tighter.continuations ⊆ L.continuations := by
  cases L <;> simp [tighter, continuations]

theorem operators_subset_continuations (L : Level) : L.operators ⊆ L.continuations := by
  cases L <;> simp [operators, continuations]

/-- An operator ends the operand before it. -/
theorem not_mem_continuations_of_mem_operators {L : Level} {kind : Token.Kind}
    (h : kind ∈ L.operators) : kind ∉ L.tighter.continuations := by
  revert kind
  cases L <;> simp [operators, tighter, continuations]

end Level

end Grammar

namespace Parser

open Grammar

variable {ctx : Context} {ts rest : List Token} {reports : List SyntaxError} {e : Expr}
  {nested : Parser Expr} {bound : Nat} {L : Level}

/-- The parser of a level. The bound of a call counts what is called as a turn. -/
def level (nested : Parser Expr) (bound : Nat) : Level → Parser Expr
  | .assignment => assignment nested bound
  | .disjunction => disjunction nested bound
  | .conjunction => conjunction nested bound
  | .equality => equality nested bound
  | .comparison => comparison nested bound
  | .term => term nested bound
  | .factor => factor nested bound
  | .unary => unary nested bound
  | .call => primary nested >>= calls nested (bound - 1)
  | .primary => primary nested

/-- The operators that the loop of a level looks for. -/
def accepts : Level → Token.Kind → Bool
  | .disjunction => (· = .keyword .or)
  | .conjunction => (· = .keyword .and)
  | .equality => isEqualityOperator
  | .comparison => isComparisonOperator
  | .term => isTermOperator
  | .factor => isFactorOperator
  | _ => fun _ => false

theorem accepts_iff {L : Level} {kind : Token.Kind} : accepts L kind ↔ kind ∈ L.operators := by
  cases L <;> simp [accepts, Level.operators, isFactorOperator, isTermOperator, isComparisonOperator,
    isEqualityOperator, or_assoc]

/-- What the parser of a level does behind an expression of the level, with `turns` turns left. -/
def proceed (nested : Parser Expr) (bound turns : Nat) (L : Level) (e : Expr) : Parser Expr :=
  match L with
  | .assignment | .unary | .primary => pure e
  | .call => calls nested turns e
  | L => chainFrom (accepts L) L.join (level nested bound L.tighter) turns e

/-- The kinds of token that must not follow an expression of a level before its parser proceeds. -/
def blocking : Level → List Token.Kind
  | .assignment => Level.assignment.continuations
  | L => L.tighter.continuations

theorem blocking_subset (L : Level) : blocking L ⊆ L.continuations := by
  cases L <;> simp [blocking, Level.tighter, Level.continuations]

/-- The next token, if there is one, is of none of these kinds. -/
def Clear (kinds : List Token.Kind) (ts : List Token) : Prop := ∀ t ∈ ts.head?, t.kind ∉ kinds

theorem Clear.mono {kinds others : List Token.Kind} (h : Clear others ts) (hsub : kinds ⊆ others) :
    Clear kinds ts :=
  fun t ht hmem => h t ht (hsub hmem)

theorem clear_cons {kinds : List Token.Kind} {t : Token} (h : t.kind ∉ kinds) :
    Clear kinds (t :: ts) := by
  rintro _ ⟨⟩
  exact h

/-- The reader `p` reads the text `w`, whatever follows that does not continue it. -/
def ReadBy (p : Parser Expr) (w : List Token) (e : Expr) (faults : List SyntaxError) : Prop :=
  ∀ ⦃ctx rest⦄, Clear Level.assignment.continuations rest → p ctx (w ++ rest) = ⟨faults, rest, .ok e⟩

/-- The parser of level `L` passes the text `w` and then proceeds behind its tree. -/
def Consumes (nested : Parser Expr) (bound : Nat) (L : Level) (w : List Token) (e : Expr)
    (faults : List SyntaxError) : Prop :=
  ∀ ⦃ctx rest⦄, Clear (blocking L) rest → ∃ turns, bound ≤ turns + w.length ∧
    ∀ ⦃reports rest' e'⦄, proceed nested bound turns L e ctx rest = ⟨reports, rest', .ok e'⟩ →
      level nested bound L ctx (w ++ rest) = ⟨faults ++ reports, rest', .ok e'⟩

theorem chainFrom_stop {isOperator : Token.Kind → Bool} {node : Token → Expr → Expr → Expr}
    {operand : Parser Expr} {turns : Nat} (h : ∀ t ∈ ts.head?, ¬ isOperator t.kind) :
    chainFrom isOperator node operand turns e ctx ts = ⟨[], ts, .ok e⟩ := by
  cases turns with
  | zero => rfl
  | succ turns => exact chainFrom_succ_eq_ok_iff.2 (.inl ⟨rfl, rfl, h, rfl⟩)

theorem calls_stop {turns : Nat} (h : ∀ t ∈ ts.head?, t.kind ≠ .leftParen) :
    calls nested turns e ctx ts = ⟨[], ts, .ok e⟩ := by
  cases turns with
  | zero => rfl
  | succ turns => exact calls_succ_eq_ok_iff.2 (.inl ⟨rfl, rfl, h, rfl⟩)

/-- Behind an expression that nothing continues there is nothing to do. -/
theorem proceed_stop {turns : Nat} (h : Clear L.continuations rest) :
    proceed nested bound turns L e ctx rest = ⟨[], rest, .ok e⟩ := by
  have hchain (L : Level) (h : Clear L.continuations rest) :
      chainFrom (accepts L) L.join (level nested bound L.tighter) turns e ctx rest =
        ⟨[], rest, .ok e⟩ :=
    chainFrom_stop fun t ht haccepts =>
      h t ht (L.operators_subset_continuations (accepts_iff.1 haccepts))
  cases L
  case assignment | unary | primary => rfl
  case call => exact calls_stop fun t ht => by simpa [Level.continuations] using h t ht
  all_goals exact hchain _ h

theorem Consumes.read {w : List Token} {faults : List SyntaxError}
    (h : Consumes nested bound L w e faults) (hrest : Clear L.continuations rest) :
    level nested bound L ctx (w ++ rest) = ⟨faults, rest, .ok e⟩ := by
  obtain ⟨turns, -, hproceed⟩ := @h ctx rest (hrest.mono (blocking_subset L))
  simpa using hproceed (proceed_stop hrest)

/-- At a level without a loop, what is read to its end is consumed. -/
theorem consumes_of_read {w : List Token} {faults : List SyntaxError}
    (hL : L = .assignment ∨ L = .unary ∨ L = .primary)
    (h : ∀ ⦃ctx rest⦄, Clear (blocking L) rest →
      level nested bound L ctx (w ++ rest) = ⟨faults, rest, .ok e⟩) :
    Consumes nested bound L w e faults := by
  intro ctx rest hrest
  refine ⟨bound, by omega, fun reports rest' e' hproceed => ?_⟩
  have hpure : (pure e : Parser Expr) ctx rest = ⟨reports, rest', .ok e'⟩ := by
    rcases hL with rfl | rfl | rfl <;> exact hproceed
  obtain ⟨rfl, rfl, rfl⟩ := pure_eq_ok_iff.1 hpure
  simpa using h hrest

/-! ### The rules, one by one -/

section Rules

variable {w v : List Token} {faults more : List SyntaxError} {t : Token}

theorem consumes_literal {value : Literal} (ht : literal? t.kind = some value) :
    Consumes nested bound .primary [t] (.literal value) [] :=
  consumes_of_read (by simp) fun _ _ _ => primary_literal ht

theorem consumes_name (ht : t.kind = .identifier) :
    Consumes nested bound .primary [t] (.variable t) [] :=
  consumes_of_read (by simp) fun _ _ _ => primary_variable ht

theorem consumes_grouping {l r : Token} (hl : l.kind = .leftParen) (he : ReadBy nested w e faults)
    (hr : r.kind = .rightParen) :
    Consumes nested bound .primary (l :: (w ++ [r])) (.grouping e) faults := by
  refine consumes_of_read (by simp) fun ctx rest _ => ?_
  refine (primary_grouping_iff hl).2 ⟨e, r, ?_, hr, rfl⟩
  have hclear : Clear Level.assignment.continuations (r :: rest) :=
    clear_cons (by simp [hr, Level.continuations])
  simpa using @he ctx (r :: rest) hclear

theorem consumes_call {l r : Token} {f : Expr} {args : List Expr}
    (hf : Consumes nested bound .call w f faults) (hl : l.kind = .leftParen)
    (hargs : ∀ {turns ctx rest}, v.length ≤ turns →
      argumentList nested turns ctx (v ++ r :: rest) = ⟨more, r :: rest, .ok args⟩)
    (hr : r.kind = .rightParen) (hbound : (w ++ l :: (v ++ [r])).length ≤ bound) :
    Consumes nested bound .call (w ++ l :: (v ++ [r])) (.call f r args) (faults ++ more) := by
  intro ctx rest _
  -- the callee leaves a turn of the loop, which passes the arguments
  obtain ⟨turns, hturns, hproceed⟩ := @hf ctx (l :: (v ++ r :: rest))
    (clear_cons (by simp [blocking, Level.tighter, Level.continuations]))
  simp only [List.length_append, List.length_cons, List.length_nil] at hbound ⊢
  obtain ⟨turns, rfl⟩ : ∃ others, turns = others + 1 := ⟨turns - 1, by omega⟩
  refine ⟨turns, by omega, fun reports rest' e' h => ?_⟩
  have hcall : calls nested (turns + 1) f ctx (l :: (v ++ r :: rest)) =
      ⟨more ++ reports, rest', .ok e'⟩ :=
    calls_succ_eq_ok_iff.2 (.inr ⟨l, r, _, rest, args, more, reports, hl, rfl,
      hargs (by omega), hr, h, rfl⟩)
  simpa using hproceed hcall

theorem consumes_unary {op : Token} (hop : op.kind ∈ [.bang, .minus])
    (he : Consumes nested bound .unary w e faults) :
    Consumes nested (bound + 1) .unary (op :: w) (.unary op e) faults := by
  refine consumes_of_read (by simp) fun ctx rest hrest => ?_
  have hread : unary nested bound ctx (w ++ rest) = ⟨faults, rest, .ok e⟩ := he.read hrest
  exact unary_succ_eq_ok_iff.2 (.inl ⟨op, _, e, by simpa [isUnaryOperator] using hop, rfl, hread, rfl⟩)

theorem consumes_binary {op : Token} {a b : Expr} (ha : Consumes nested bound L w a faults)
    (hop : op.kind ∈ L.operators) (hb : Consumes nested bound L.tighter v b more)
    (hbound : (w ++ op :: v).length ≤ bound) :
    Consumes nested bound L (w ++ op :: v) (L.join op a b) (faults ++ more) := by
  have hproceed_eq (turns : Nat) (e : Expr) : proceed nested bound turns L e =
      chainFrom (accepts L) L.join (level nested bound L.tighter) turns e := by
    cases L <;> first | rfl | simp [Level.operators] at hop
  have hblocking : blocking L = L.tighter.continuations := by
    cases L <;> first | rfl | simp [Level.operators] at hop
  intro ctx rest hrest
  -- the left operand leaves a turn of the loop, which passes the operator and the right operand
  obtain ⟨turns, hturns, hproceed⟩ := @ha ctx (op :: (v ++ rest))
    (clear_cons (hblocking ▸ Level.not_mem_continuations_of_mem_operators hop))
  simp only [List.length_append, List.length_cons] at hbound ⊢
  obtain ⟨turns, rfl⟩ : ∃ others, turns = others + 1 := ⟨turns - 1, by omega⟩
  refine ⟨turns, by omega, fun reports rest' e' h => ?_⟩
  rw [hproceed_eq] at h hproceed
  have hchain := chainFrom_succ_eq_ok_iff.2 (.inr ⟨op, _, rest, b, more, reports, accepts_iff.2 hop,
    rfl, hb.read (hblocking ▸ hrest), h, rfl⟩)
  simpa using hproceed hchain

theorem consumes_assign {name op : Token} (hop : op.kind = .equal)
    (htarget : Consumes nested bound .disjunction [name] (.variable name) [])
    (he : ReadBy nested w e faults) :
    Consumes nested bound .assignment (name :: op :: w) (.assign name e) faults := by
  refine consumes_of_read (by simp) fun ctx rest hrest => ?_
  have hread : level nested bound .disjunction ctx ([name] ++ op :: (w ++ rest)) =
      ⟨[], op :: (w ++ rest), .ok (.variable name)⟩ :=
    htarget.read (clear_cons (by simp [hop, Level.continuations]))
  exact assignment_eq_ok_iff.2 ⟨_, _, [], hread, .inr ⟨op, _, e, faults, hop, rfl, he hrest,
    .inl ⟨name, rfl, rfl, rfl⟩⟩⟩

theorem consumes_misassign {op : Token} {target : Expr}
    (htarget : Consumes nested bound .disjunction w target faults)
    (hvariable : ∀ name, target ≠ .variable name) (hop : op.kind = .equal)
    (he : ReadBy nested v e more) :
    Consumes nested bound .assignment (w ++ op :: v) target
      (faults ++ (more ++ [⟨.invalidAssignmentTarget, op⟩])) := by
  refine consumes_of_read (by simp) fun ctx rest hrest => ?_
  have hread : level nested bound .disjunction ctx (w ++ op :: (v ++ rest)) =
      ⟨faults, op :: (v ++ rest), .ok target⟩ :=
    htarget.read (clear_cons (by simp [hop, Level.continuations]))
  rw [List.append_assoc]
  exact assignment_eq_ok_iff.2 ⟨target, _, faults, hread, .inr ⟨op, _, e, more, hop, rfl, he hrest,
    .inr ⟨hvariable, rfl, rfl⟩⟩⟩

/-- An operand alone is an expression of a level with operators. -/
theorem consumes_chain (h : Consumes nested bound L.tighter w e faults)
    (hlevel : level nested bound L =
      chain (accepts L) L.join (level nested bound L.tighter) bound)
    (hproceed : proceed nested bound bound L e =
      chainFrom (accepts L) L.join (level nested bound L.tighter) bound e)
    (hblocking : blocking L = L.tighter.continuations) : Consumes nested bound L w e faults := by
  intro ctx rest hrest
  refine ⟨bound, by omega, fun reports rest' e' hrest' => ?_⟩
  rw [hproceed] at hrest'
  rw [hlevel]
  exact bind_eq_ok_iff.2 ⟨faults, rest, e, reports, h.read (hblocking ▸ hrest), hrest', rfl⟩

/-- An expression of the tighter level is one of the level as well. -/
theorem consumes_tighter (h : Consumes nested bound L.tighter w e faults) (hw : w ≠ [])
    (hbound : w.length ≤ bound) (hstart : L = .unary → ∀ t ∈ w.head?, ¬ isUnaryOperator t.kind) :
    Consumes nested bound L w e faults := by
  obtain ⟨t, v, rfl⟩ := List.exists_cons_of_ne_nil hw
  obtain ⟨bound, rfl⟩ : ∃ others, bound = others + 1 := by
    cases bound with
    | zero => simp at hbound
    | succ bound => exact ⟨bound, rfl⟩
  -- the levels with a loop take it as their first operand, the others pass it on
  cases L
  case assignment =>
    refine consumes_of_read (by simp) fun ctx rest hrest => ?_
    exact assignment_eq_ok_iff.2 ⟨e, rest, faults,
      h.read (hrest.mono (Level.tighter_continuations_subset .assignment)),
      .inl ⟨rfl, rfl, fun t ht heq => hrest t ht (by simp [heq, blocking, Level.continuations]), rfl⟩⟩
  case unary =>
    refine consumes_of_read (by simp) fun ctx rest hrest => ?_
    have hread : level nested (bound + 1) .call ctx (t :: v ++ rest) = ⟨faults, rest, .ok e⟩ :=
      h.read hrest
    obtain ⟨first, mid, callee, others, hprimary, hcalls, rfl⟩ := bind_eq_ok_iff.1 hread
    exact unary_succ_eq_ok_iff.2 (.inr ⟨hstart rfl, mid, callee, first, others, hprimary, hcalls, rfl⟩)
  case call =>
    intro ctx rest hrest
    refine ⟨bound, by simp, fun reports rest' e' hcalls => ?_⟩
    exact bind_eq_ok_iff.2 ⟨faults, rest, e, reports, h.read hrest, hcalls, rfl⟩
  case primary => exact h
  all_goals exact consumes_chain h rfl rfl rfl

/-- A name is a disjunction, like everything that is complete in itself. -/
theorem consumes_target (ht : t.kind = .identifier) (hbound : 1 ≤ bound) :
    Consumes nested bound .disjunction [t] (.variable t) [] := by
  have hstart : ∀ u ∈ [t].head?, ¬ isUnaryOperator u.kind := by
    simp [ht, isUnaryOperator]
  -- up through all levels, none of which has an operator to look for here
  have step {L : Level} (h : Consumes nested bound L.tighter [t] (.variable t) []) :
      Consumes nested bound L [t] (.variable t) [] :=
    consumes_tighter h (by simp) hbound fun _ => hstart
  exact step (L := .disjunction) <| step (L := .conjunction) <| step (L := .equality) <|
    step (L := .comparison) <| step (L := .term) <| step (L := .factor) <| step (L := .unary) <|
    step (L := .call) (consumes_name ht)

/-- What the parser of the loosest level consumes, an expression of that bound reads. -/
theorem readBy_of_consumes {n : Nat}
    (h : ∀ {n bound}, w.length ≤ n + 1 → w.length ≤ bound →
      Consumes (expression n) bound .assignment w e faults) (hw : w ≠ []) (hn : w.length ≤ n) :
    ReadBy (expression n) w e faults := by
  intro ctx rest hrest
  cases n with
  | zero => exact absurd (List.eq_nil_of_length_eq_zero (Nat.le_zero.1 hn)) hw
  | succ n => exact (h hn hn).read hrest

/-- A list of arguments begins with an expression, and its first fault is found there. -/
theorem arguments_read_one {turns count : Nat} {t : Token} {w : List Token} {r : Token}
    (he : ReadBy nested (t :: w) e faults) (hr : r.kind = .rightParen) :
    arguments nested (turns + 1) count ctx (t :: w ++ r :: rest) =
      ⟨excess .tooManyArguments count (t :: w) ++ faults, r :: rest, .ok [e]⟩ := by
  refine arguments_succ_eq_ok_iff.2 ⟨faults, r :: rest, e, he (clear_cons ?_), .inl ?_⟩
  · simp [hr, Level.continuations]
  · exact ⟨rfl, rfl, by simp [hr], rfl⟩

theorem arguments_read_more {turns count : Nat} {t comma r : Token} {w v : List Token}
    {es : List Expr} (he : ReadBy nested (t :: w) e faults) (hcomma : comma.kind = .comma)
    (hes : arguments nested turns (count + 1) ctx (v ++ r :: rest) =
      ⟨more, r :: rest, .ok es⟩) :
    arguments nested (turns + 1) count ctx (t :: w ++ comma :: v ++ r :: rest) =
      ⟨excess .tooManyArguments count (t :: w) ++ (faults ++ more), r :: rest, .ok (e :: es)⟩ := by
  rw [List.append_assoc]
  refine arguments_succ_eq_ok_iff.2 ⟨faults, comma :: (v ++ r :: rest), e, he (clear_cons ?_), .inr ?_⟩
  · simp [hcomma, Level.continuations]
  · exact ⟨comma, _, more, es, hcomma, rfl, hes, rfl, rfl⟩

end Rules

end Parser

namespace Grammar

open LoxScript.Parser

/-- Without an operator in front it is a call, and no such operator begins a call. -/
theorem Phrase.not_isUnaryOperator {w : List Token} {e : Expr} {faults : List SyntaxError}
    (h : Phrase .call w e faults) : ∀ t ∈ w.head?, ¬ isUnaryOperator t.kind := by
  obtain ⟨t, v, rfl, -, ht⟩ := h.starts
  rintro _ ⟨⟩ hop
  rcases ht (.inl rfl) with ⟨value, hvalue⟩ | hname | hparen
  · generalize t.kind = kind at hvalue hop
    cases kind <;> simp_all [literal?, isUnaryOperator]
  · simp [hname, isUnaryOperator] at hop
  · simp [hparen, isUnaryOperator] at hop

/-- A list of arguments does not begin with a closing parenthesis. -/
theorem Items.head_ne_rightParen {count : Nat} {w : List Token} {es : List Expr}
    {faults : List SyntaxError} (h : Items count w es faults) {rest : List Token} {ending : Token} :
    ((w ++ rest).head?.getD ending).kind ≠ .rightParen := by
  obtain ⟨t, v, rfl, ht⟩ := h.starts
  rw [List.cons_append, List.head?_cons, Option.getD_some]
  intro hparen
  simp [StartsPhrase, StartsPrimary, hparen, literal?] at ht

mutual

/-- The parser of a level consumes every expression of the level that is no longer than the bounds. -/
theorem Phrase.consumes {L : Level} {w : List Token} {e : Expr} {faults : List SyntaxError}
    (h : Phrase L w e faults) {n bound : Nat} (hn : w.length ≤ n + 1) (hbound : w.length ≤ bound) :
    Consumes (expression n) bound L w e faults := by
  match h with
  | .literal ht => exact consumes_literal ht
  | .name ht => exact consumes_name ht
  | .grouping hl he hr =>
    simp only [List.length_cons, List.length_append, List.length_nil] at hn
    exact consumes_grouping hl (readBy_of_consumes he.consumes he.ne_nil (by omega)) hr
  | .call hf hl hargs hr =>
    simp only [List.length_cons, List.length_append, List.length_nil] at hn hbound
    exact consumes_call (hf.consumes (by omega) (by omega)) hl
      (fun hturns => hargs.read (by omega) hturns hr) hr (by simp; omega)
  | .unary hop he =>
    simp only [List.length_cons] at hn hbound
    obtain ⟨bound, rfl⟩ : ∃ others, bound = others + 1 := ⟨bound - 1, by omega⟩
    exact consumes_unary hop (he.consumes (by omega) (by omega))
  -- both sides are parts of the derivation, though the parser reads them in different turns
  | .binary ha hop hb =>
    simp only [List.length_cons, List.length_append] at hn hbound
    exact consumes_binary (ha.consumes (by omega) (by omega)) hop (hb.consumes (by omega) (by omega))
      (by simp; omega)
  -- the name is read as a disjunction before `=` shows that it is a target
  | .assign hname hop he =>
    simp only [List.length_cons] at hn hbound
    exact consumes_assign hop (consumes_target hname (by omega))
      (readBy_of_consumes he.consumes he.ne_nil (by omega))
  | .misassign ht hv hop he =>
    simp only [List.length_cons, List.length_append] at hn hbound
    exact consumes_misassign (ht.consumes (by omega) (by omega)) hv hop
      (readBy_of_consumes he.consumes he.ne_nil (by omega))
  -- from a call to an operand of an operator in front: no such operator begins it
  | .tighter he =>
    refine consumes_tighter (he.consumes hn hbound) he.ne_nil hbound ?_
    rintro rfl
    exact he.not_isUnaryOperator

theorem Items.read {count : Nat} {w : List Token} {es : List Expr} {faults : List SyntaxError}
    (h : Items count w es faults) {n turns : Nat} {ctx : Context} {r : Token} {rest : List Token}
    (hn : w.length ≤ n) (hturns : w.length ≤ turns) (hr : r.kind = .rightParen) :
    arguments (expression n) turns count ctx (w ++ r :: rest) = ⟨faults, r :: rest, .ok es⟩ := by
  match h with
  | .one he =>
    have hread := readBy_of_consumes he.consumes he.ne_nil hn
    obtain ⟨t, v, rfl, -⟩ := he.starts
    obtain ⟨turns, rfl⟩ : ∃ others, turns = others + 1 := ⟨turns - 1, by simp at hturns; omega⟩
    exact arguments_read_one hread hr
  | .more he hcomma hes =>
    simp only [List.length_cons, List.length_append] at hn hturns
    obtain ⟨turns, rfl⟩ : ∃ others, turns = others + 1 := ⟨turns - 1, by omega⟩
    have hread := readBy_of_consumes he.consumes he.ne_nil (n := n) (by omega)
    have hothers : arguments (expression n) turns (count + 1) ctx (_ ++ r :: rest) =
        ⟨_, r :: rest, .ok _⟩ := hes.read (by omega) (by omega) hr
    obtain ⟨t, v, rfl, -⟩ := he.starts
    exact arguments_read_more hread hcomma hothers

theorem Arguments.read {w : List Token} {es : List Expr} {faults : List SyntaxError}
    (h : Arguments w es faults) {n turns : Nat} {ctx : Context} {r : Token} {rest : List Token}
    (hn : w.length ≤ n) (hturns : w.length ≤ turns) (hr : r.kind = .rightParen) :
    argumentList (expression n) turns ctx (w ++ r :: rest) = ⟨faults, r :: rest, .ok es⟩ := by
  unfold argumentList
  rw [peek_bind_apply]
  match h with
  | .none => simp [hr]
  | .some hitems =>
    rw [if_neg hitems.head_ne_rightParen]
    exact hitems.read hn hturns hr

end

/-- An expression is read by a parser with a bound that is not below its length. -/
theorem Phrase.read {w : List Token} {e : Expr} {faults : List SyntaxError}
    (h : Phrase .assignment w e faults) {n : Nat} (hn : w.length ≤ n) :
    ReadBy (expression n) w e faults :=
  readBy_of_consumes h.consumes h.ne_nil hn

/-! ### Statements -/

theorem Names.read {count : Nat} {w names : List Token} {faults : List SyntaxError}
    (h : Names count w names faults) {turns : Nat} {ctx : Context} {r : Token} {rest : List Token}
    (hturns : w.length ≤ turns) (hr : r.kind = .rightParen) :
    parameters turns count ctx (w ++ r :: rest) = ⟨faults, r :: rest, .ok names⟩ := by
  induction h generalizing turns with
  | one hname =>
    obtain ⟨turns, rfl⟩ : ∃ others, turns = others + 1 := ⟨turns - 1, by simp at hturns; omega⟩
    exact parameters_succ_eq_ok_iff.2 ⟨_, r :: rest, hname, rfl, .inl ⟨rfl, rfl, by simp [hr], rfl⟩⟩
  | more hname hcomma _ ih =>
    simp only [List.length_cons] at hturns
    obtain ⟨turns, rfl⟩ : ∃ others, turns = others + 1 := ⟨turns - 1, by omega⟩
    exact parameters_succ_eq_ok_iff.2 ⟨_, _, hname, rfl, .inr ⟨_, _, _, _, hcomma, rfl, ih (by omega),
      rfl, rfl⟩⟩

theorem Parameters.read {w names : List Token} {faults : List SyntaxError}
    (h : Parameters w names faults) {turns : Nat} {ctx : Context} {r : Token} {rest : List Token}
    (hturns : w.length ≤ turns) (hr : r.kind = .rightParen) :
    parameterList turns ctx (w ++ r :: rest) = ⟨faults, r :: rest, .ok names⟩ := by
  unfold parameterList
  rw [peek_bind_apply]
  cases h with
  | none => simp [hr]
  | some hnames =>
    rw [if_neg, hnames.read hturns hr]
    cases hnames with
    | one hname | more hname _ _ => simp [hname]

/-- A kind of token that an optional expression may stand before. -/
def Closes (kind : Token.Kind) : Prop := kind = .semicolon ∨ kind = .rightParen

theorem Closes.not_startsPhrase {kind : Token.Kind} (h : Closes kind) : ¬ StartsPhrase kind := by
  rcases h with rfl | rfl <;> simp [StartsPhrase, StartsPrimary, literal?]

theorem Closes.not_mem_continuations {kind : Token.Kind} (h : Closes kind) :
    kind ∉ Level.assignment.continuations := by
  rcases h with rfl | rfl <;> simp [Level.continuations]

theorem Phrase.read_closed {w : List Token} {e : Expr} {faults : List SyntaxError}
    (h : Phrase .assignment w e faults) {n : Nat} {ctx : Context} {t : Token} {rest : List Token}
    (hn : w.length ≤ n) (ht : Closes t.kind) :
    expression n ctx (w ++ t :: rest) = ⟨faults, t :: rest, .ok e⟩ :=
  h.read hn (clear_cons ht.not_mem_continuations)

theorem Optional.read {w : List Token} {value : Option Expr} {faults : List SyntaxError}
    (h : Optional w value faults) {n : Nat} {kind : Token.Kind} {ctx : Context} {t : Token}
    {rest : List Token} (hn : w.length ≤ n) (ht : t.kind = kind) (hkind : Closes kind) :
    ReadsOptional (expression n) kind ctx (w ++ t :: rest) faults (t :: rest) value := by
  subst ht
  cases h with
  | none => exact .inl ⟨rfl, rfl, rfl, rfl⟩
  | some he =>
    refine .inr ⟨?_, _, rfl, he.read_closed hn hkind⟩
    obtain ⟨u, v, rfl, hu, -⟩ := he.starts
    intro heq
    exact hkind.not_startsPhrase (heq ▸ hu)

variable {nested : Nested} {n : Nat} {ctx : Context} {rest : List Token}

theorem Variable.read {w : List Token} {s : Stmt} {faults : List SyntaxError}
    (h : Variable w s faults) (hnested : nested.expression = expression n) (hn : w.length ≤ n) :
    variableDeclaration nested ctx (w ++ rest) = ⟨faults, rest, .ok s⟩ := by
  refine variableDeclaration_eq_ok_iff.2 ?_
  rw [hnested]
  cases h with
  | bare hname hsemi => exact ⟨_, _, hname, rfl, .inl ⟨_, hsemi, rfl, rfl, rfl⟩⟩
  | initialized hname hop he hsemi =>
    simp only [List.length_cons, List.length_append] at hn
    rw [List.cons_append, List.cons_append, List.append_assoc]
    exact ⟨_, _, hname, rfl, .inr ⟨_, _, _, _, hop, rfl, he.read_closed (by omega) (.inl hsemi), hsemi,
      rfl⟩⟩

theorem expressionStatement_read {w : List Token} {semi : Token} {e : Expr}
    {faults : List SyntaxError} (he : Phrase .assignment w e faults) (hsemi : semi.kind = .semicolon)
    (hnested : nested.expression = expression n) (hn : w.length ≤ n) :
    expressionStatement nested ctx (w ++ semi :: rest) = ⟨faults, rest, .ok (.expression e)⟩ := by
  refine expressionStatement_eq_ok_iff.2 ⟨e, semi, ?_, hsemi, rfl⟩
  rw [hnested]
  exact he.read_closed hn (.inl hsemi)

theorem Initializer.read {w : List Token} {initial : Option Stmt} {faults : List SyntaxError}
    (h : Initializer w initial faults) (hnested : nested.expression = Parser.expression n)
    (hn : w.length ≤ n) : initializer nested ctx (w ++ rest) = ⟨faults, rest, .ok initial⟩ := by
  refine initializer_eq_ok_iff.2 ?_
  cases h with
  | none hsemi => exact .inl ⟨_, hsemi, rfl, rfl, rfl⟩
  | declared hkeyword hs =>
    simp only [List.length_cons] at hn
    exact .inr (.inl ⟨_, _, _, hkeyword, rfl, hs.read hnested (by omega), rfl⟩)
  | expression he hsemi =>
    simp only [List.length_append, List.length_cons] at hn
    refine .inr (.inr ⟨?_, _, ?_, rfl⟩)
    · obtain ⟨t, v, rfl, ht, -⟩ := he.starts
      rintro _ ⟨⟩
      constructor <;> intro hkind <;> simp [StartsPhrase, StartsPrimary, hkind, literal?] at ht
    · rw [List.append_assoc]
      exact expressionStatement_read he hsemi hnested (by omega)

theorem statementWith_of_startsPhrase {bound : Nat} {t : Token} {ts : List Token}
    (ht : StartsPhrase t.kind) :
    statementWith nested bound ctx (t :: ts) = expressionStatement nested ctx (t :: ts) := by
  rw [statementWith_cons]
  split <;> first | rfl | simp_all [StartsPhrase, StartsPrimary, literal?]

theorem declarationWith_of_startsStatement {bound : Nat} {t : Token} {ts : List Token}
    (ht : StartsStatement t.kind) :
    declarationWith nested bound ctx (t :: ts) = statementWith nested bound ctx (t :: ts) := by
  rw [declarationWith_cons]
  split <;> first | rfl | simp_all [StartsStatement, StartsPhrase, StartsPrimary, literal?]

theorem StartsDeclaration.not_ends {kind : Token.Kind} (h : StartsDeclaration kind) :
    kind ≠ .keyword .else ∧ kind ≠ .rightBrace ∧ kind ≠ .endOfInput := by
  refine ⟨?_, ?_, ?_⟩ <;> rintro rfl <;>
    simp [StartsDeclaration, StartsStatement, StartsPhrase, StartsPrimary, literal?] at h

/-- Behind a statement no `else` waits for an `if`, if none comes next or the statement does not
dangle. -/
def NoElse (dangling : Bool) (rest : List Token) : Prop :=
  dangling = true → ∀ t ∈ rest.head?, t.kind ≠ .keyword .else

theorem noElse_cons {dangling : Bool} {t : Token} (ht : t.kind ≠ .keyword .else) :
    NoElse dangling (t :: rest) := by
  rintro - _ ⟨⟩
  exact ht

/-- What stands behind a declaration in a block does not begin with `else`. -/
theorem Block.noElse {f dangling : Bool} {w : List Token} {ss : List Stmt} {faults : List SyntaxError}
    (h : Block f w ss faults) (hrest : NoElse dangling rest) : NoElse dangling (w ++ rest) := by
  cases h with
  | nil => exact hrest
  | cons hs _ =>
    obtain ⟨t, v, rfl, ht⟩ := hs.starts
    exact noElse_cons ht.not_ends.1

/-- A declaration does not look like the end of a block. -/
theorem Declaration.kindAhead_ne {f dangling : Bool} {w : List Token} {s : Stmt}
    {faults : List SyntaxError} (h : Declaration f dangling w s faults) {ctx : Context}
    {rest : List Token} :
    kindAhead ctx (w ++ rest) ≠ .rightBrace ∧ kindAhead ctx (w ++ rest) ≠ .endOfInput := by
  obtain ⟨t, v, rfl, ht⟩ := h.starts
  exact ht.not_ends.2

theorem Block.read_nil {declaration : Parser Stmt} {turns : Nat} {close : Token}
    (hturns : 1 ≤ turns) (hclose : close.kind = .rightBrace) :
    block declaration turns ctx (close :: rest) = ⟨[], rest, .ok []⟩ := by
  obtain ⟨turns, rfl⟩ : ∃ others, turns = others + 1 := ⟨turns - 1, by omega⟩
  exact block_succ_eq_ok_iff.2 (.inl ⟨close, hclose, rfl, rfl, rfl⟩)

mutual

theorem Statement.read {f dangling : Bool} {w : List Token} {s : Stmt} {faults : List SyntaxError}
    (h : Statement f dangling w s faults) {bound : Nat} {ctx : Context} {rest : List Token}
    (hctx : ctx.inFunction = f) (hbound : w.length ≤ bound) (hrest : NoElse dangling rest) :
    statement bound ctx (w ++ rest) = ⟨faults, rest, .ok s⟩ := by
  obtain ⟨bound, rfl⟩ : ∃ others, bound = others + 1 := by
    obtain ⟨t, v, rfl, -⟩ := h.starts
    exact ⟨bound - 1, by simp at hbound; omega⟩
  change statementWith ⟨Parser.expression (bound + 1), statement bound, declaration bound⟩ (bound + 1)
    ctx (w ++ rest) = _
  match h with
  | .expression he hsemi =>
    simp only [List.length_append, List.length_cons] at hbound
    -- its first token is no keyword and no brace, so nothing else is tried
    obtain ⟨t, v, hv, ht, -⟩ := he.starts
    rw [List.append_assoc]
    rw [hv, List.cons_append, statementWith_of_startsPhrase ht, ← List.cons_append, ← hv]
    exact expressionStatement_read he hsemi rfl (by omega)
  | .print hkeyword he hsemi =>
    simp only [List.length_append, List.length_cons] at hbound
    rw [List.cons_append, statementWith_cons, hkeyword]
    refine printed_eq_ok_iff.2 ⟨_, _, ?_, hsemi, rfl⟩
    rw [List.append_assoc]
    exact he.read_closed (by omega) (.inl hsemi)
  | .block hl hss hr =>
    simp only [List.length_append, List.length_cons] at hbound
    rw [List.cons_append, statementWith_cons, hl, List.append_assoc]
    exact map_eq_ok_iff.2 ⟨_, hss.read hctx (by omega) (by omega) hr, rfl⟩
  | .ifThen hkeyword hl hc hr hs =>
    simp only [List.length_append, List.length_cons] at hbound
    rw [List.cons_append, statementWith_cons, hkeyword]
    -- an `if` without `else` dangles, so none may follow
    exact conditional_eq_ok_iff.2 ⟨_, _, _, _, rest, _, _, _, _, hl, by simp,
      hc.read_closed (by omega) (.inr hr), hr, hs.read hctx (by omega) fun _ => hrest rfl,
      .inl ⟨rfl, hrest rfl, rfl, rfl⟩⟩
  | .ifElse hkeyword hl hc hr hs hotherwise ht =>
    simp only [List.length_append, List.length_cons] at hbound
    rw [List.cons_append, statementWith_cons, hkeyword]
    refine conditional_eq_ok_iff.2 ⟨_, _, _, _, _, _, _, _, _, hl, by simp,
      hc.read_closed (by omega) (.inr hr), hr, hs.read hctx (by omega) ?_,
      .inr ⟨_, _, _, _, hotherwise, rfl, ht.read hctx (by omega) hrest, rfl, rfl⟩⟩
    -- the first branch does not dangle, so the `else` behind it does no harm
    rintro ⟨⟩
  | .whileLoop hkeyword hl hc hr hs =>
    simp only [List.length_append, List.length_cons] at hbound
    rw [List.cons_append, statementWith_cons, hkeyword]
    exact whileLoop_eq_ok_iff.2 ⟨_, _, _, _, _, _, _, _, hl, by simp,
      hc.read_closed (by omega) (.inr hr), hr, hs.read hctx (by omega) hrest, rfl, rfl⟩
  | .forLoop hkeyword hl hi hc hsemi hn hr hs =>
    simp only [List.length_append, List.length_cons] at hbound
    rw [List.cons_append, statementWith_cons, hkeyword, ← forTree_eq_loopTree]
    exact forLoop_eq_ok_iff.2 ⟨_, _, _, _, _, _, _, _, _, _, _, _, _, _, _, hl, by simp,
      hi.read rfl (by omega), hc.read (by omega) hsemi (.inl rfl), hsemi,
      hn.read (by omega) hr (.inr rfl), hr, hs.read hctx (by omega) hrest, rfl, rfl⟩
  | .result hkeyword hvalue hsemi =>
    simp only [List.length_append, List.length_cons] at hbound
    rw [List.cons_append, statementWith_cons, hkeyword, List.append_assoc]
    refine result_eq_ok_iff.2 ⟨_, _, _, hvalue.read (by omega) hsemi (.inl rfl), hsemi, rfl, ?_⟩
    rw [hctx]

theorem Declaration.read {f dangling : Bool} {w : List Token} {s : Stmt} {faults : List SyntaxError}
    (h : Declaration f dangling w s faults) {bound : Nat} {ctx : Context} {rest : List Token}
    (hctx : ctx.inFunction = f) (hbound : w.length ≤ bound) (hrest : NoElse dangling rest) :
    declaration bound ctx (w ++ rest) = ⟨faults, rest, .ok s⟩ := by
  obtain ⟨bound, rfl⟩ : ∃ others, bound = others + 1 := by
    obtain ⟨t, v, rfl, -⟩ := h.starts
    exact ⟨bound - 1, by simp at hbound; omega⟩
  change declarationWith ⟨expression (bound + 1), statement bound, declaration bound⟩ (bound + 1)
    ctx (w ++ rest) = _
  match h with
  | .varDeclaration hkeyword hs =>
    simp only [List.length_cons] at hbound
    rw [List.cons_append, declarationWith_cons, hkeyword]
    exact hs.read rfl (by omega)
  | .funDeclaration hkeyword hname hl hnames hr hbrace hbody hclose =>
    simp only [List.length_append, List.length_cons] at hbound
    rw [List.cons_append, declarationWith_cons, hkeyword]
    exact functionDeclaration_eq_ok_iff.2 ⟨_, _, _, _, _, _, _, _, _, _, hname, hl, by simp,
      hnames.read (by omega) hr, hr, hbrace, hbody.read rfl (by omega) (by omega) hclose, rfl, rfl⟩
  -- no statement begins with the word of a declaration
  | .statement hs =>
    have hread := hs.read hctx hbound hrest
    obtain ⟨t, v, rfl, ht⟩ := hs.starts
    rw [List.cons_append, declarationWith_of_startsStatement ht]
    exact hread

theorem Block.read {f : Bool} {w : List Token} {ss : List Stmt} {faults : List SyntaxError}
    (h : Block f w ss faults) {bound turns : Nat} {ctx : Context} {close : Token} {rest : List Token}
    (hctx : ctx.inFunction = f) (hbound : w.length ≤ bound) (hturns : w.length + 1 ≤ turns)
    (hclose : close.kind = .rightBrace) :
    block (declaration bound) turns ctx (w ++ close :: rest) = ⟨faults, rest, .ok ss⟩ := by
  match h with
  | .nil => exact Block.read_nil (by omega) hclose
  | .cons hs hss =>
    simp only [List.length_append] at hbound hturns
    -- neither the closing brace nor a further declaration begins with `else`
    have hclosed : close.kind ≠ .keyword .else := by simp [hclose]
    have hfirst := hs.read hctx (Nat.le_trans (Nat.le_add_right _ _) hbound)
      (hss.noElse (@noElse_cons rest _ _ hclosed))
    -- a declaration has a token, which pays for the turn
    have hpos := List.length_pos_iff.2 hs.ne_nil
    obtain ⟨turns, rfl⟩ : ∃ others, turns = others + 1 := ⟨turns - 1, by omega⟩
    rw [List.append_assoc]
    refine block_succ_eq_ok_iff.2 (.inr ⟨?_, ?_, _, _, _, _, _, hfirst,
      hss.read hctx (by omega) (by omega) hclose, rfl, rfl⟩)
    · exact hs.kindAhead_ne.1
    · exact hs.kindAhead_ne.2

end

/-- A list of declarations is read with its trees and faults. -/
theorem Block.readWithin {u : List Token} {p : List Stmt} {faults : List SyntaxError}
    (h : Block false u p faults) {ending : Token} {bound : Nat} (hbound : u.length ≤ bound) :
    Parser.readWithin ending bound u = ⟨p, faults⟩ := by
  match h with
  | .nil => exact readWithin_nil
  | .cons (w := w) (v := v) hs hss =>
    have hpos := List.length_pos_iff.2 hs.ne_nil
    simp only [List.length_append] at hbound
    obtain ⟨bound, rfl⟩ : ∃ others, bound = others + 1 := ⟨bound - 1, by omega⟩
    have hothers : Parser.readWithin ending bound v = ⟨_, _⟩ := hss.readWithin (by omega)
    have hfirst : declaration (w.length + v.length) ⟨ending, false⟩ (w ++ (v ++ [])) =
        ⟨_, v ++ [], .ok _⟩ :=
      hs.read rfl (Nat.le_add_right _ _) (hss.noElse (by simp [NoElse]))
    rw [List.append_nil, ← List.length_append] at hfirst
    rw [readWithin_of_ok (by simp [hs.ne_nil]) hfirst, hothers]

end Grammar

end LoxScript
