import LoxScript.Proofs.Syntax.Cut

/-!
# Recovery after an error

After an error that stops a declaration, reading resumes as at the top of a script, behind the next
semicolon or before the next keyword of a statement. Where the values of some `print` statements are
missing, reading stops at the semicolon of each of them, and resumes behind it. Therefore each missing value
is reported once, wherever its statement stands. But the statements around it are not taken up again: what
is left of them is read as if it stood at the top, and there their braces and `else`s are errors again.

## Main definitions

* `Program.Emptied`: a list of tokens without the values of some of its `print` statements.

## Main statements

* `Grammar.DeclarationCut.stops`: reading a declaration stops where it breaks off.
* `Program.ofTokens_emptied`: the errors of a program some `print` statements of which have no value.
-/

namespace LoxScript

open LoxScript.Grammar LoxScript.Parser

/-- The error at a token where an expression is missing. -/
def SyntaxError.missing (t : Token) : SyntaxError := ⟨.expected .expression, t⟩

namespace Parser

/-! ## Replies with an error -/

section Replies

variable {α β : Type} {ctx : Context} {ts mid rest : List Token} {first reports : List SyntaxError}
  {e : SyntaxError}

theorem bind_eq_error {p : Parser α} {next : α → Parser β} (h : p ctx ts = ⟨reports, rest, .error e⟩) :
    (p >>= next) ctx ts = ⟨reports, rest, .error e⟩ := by
  change Parser.bind p next ctx ts = _
  unfold Parser.bind
  rw [h]

theorem bind_eq_error_of_ok {p : Parser α} {next : α → Parser β} {a : α}
    (h : p ctx ts = ⟨first, mid, .ok a⟩) (hnext : next a ctx mid = ⟨reports, rest, .error e⟩) :
    (p >>= next) ctx ts = ⟨first ++ reports, rest, .error e⟩ := by
  change Parser.bind p next ctx ts = _
  unfold Parser.bind
  rw [h]
  simp [hnext]

theorem expect_bind_apply {kind : Token.Kind} {what : Expectation} {next : Token → Parser β} {t : Token}
    (ht : t.kind = kind) : (expect kind what >>= next) ctx (t :: ts) = next t ctx ts :=
  bind_apply_of_eq_ok (take?_bind_eq_ok_iff.2 (.inl ⟨t, ts, by simpa using ht, rfl, rfl⟩))

theorem passes_bind_apply {kind : Token.Kind} {next : Bool → Parser β} {t : Token} (ht : t.kind = kind) :
    (passes kind >>= next) ctx (t :: ts) = next true ctx ts :=
  bind_apply_of_eq_ok (take?_bind_eq_ok_iff.2 (.inl ⟨t, ts, by simpa using ht, rfl, rfl⟩))

theorem semicolon_bind_apply {what : Expectation} {next : Unit → Parser β} {t : Token}
    (ht : t.kind = .semicolon) : (semicolon what >>= next) ctx (t :: ts) = next () ctx ts :=
  bind_apply_of_eq_ok (expect_bind_apply ht)

theorem optional_bind_eq_error {p : Parser Expr} {kind : Token.Kind} {next : Option Expr → Parser β}
    {value : Option Expr} (h : ReadsOptional p kind ctx ts first mid value)
    (hnext : next value ctx mid = ⟨reports, rest, .error e⟩) :
    (peek >>= fun t => if t.kind = kind then pure none >>= next else (some <$> p) >>= next) ctx ts =
      ⟨first ++ reports, rest, .error e⟩ := by
  rw [peek_bind_apply]
  unfold ReadsOptional kindAhead at h
  rcases h with ⟨hkind, rfl, rfl, rfl⟩ | ⟨hkind, _, rfl, hvalue⟩
  · rw [if_pos hkind]
    exact bind_eq_error_of_ok rfl hnext
  · rw [if_neg hkind]
    exact bind_eq_error_of_ok (map_eq_ok_iff.2 ⟨_, hvalue, rfl⟩) hnext

end Replies

/-! ## Where no expression begins -/

section Expressions

variable {nested operand : Parser Expr} {ctx : Context} {t : Token} {ts : List Token}

theorem primary_stops (ht : ¬ StartsPhrase t.kind) :
    primary nested ctx (t :: ts) = ⟨[], t :: ts, .error (.missing t)⟩ := by
  unfold primary
  rw [peek_bind_apply, List.head?_cons, Option.getD_some]
  obtain ⟨kind, lexeme, line⟩ := t
  cases kind
  case keyword word => cases word <;> first | rfl | simp [StartsPhrase, StartsPrimary, literal?] at ht
  all_goals first | rfl | simp [StartsPhrase, StartsPrimary, literal?] at ht

theorem unary_stops (ht : ¬ StartsPhrase t.kind) (bound : Nat) :
    unary nested bound ctx (t :: ts) = ⟨[], t :: ts, .error (.missing t)⟩ := by
  cases bound with
  | zero => rfl
  | succ bound =>
    have hoperator : ¬ isUnaryOperator t.kind := by
      intro h
      exact ht (.inr (by simpa [isUnaryOperator] using h))
    rw [unary, bind_apply_of_eq_ok (if_neg hoperator)]
    exact bind_eq_error (primary_stops ht)

theorem expression_stops (ht : ¬ StartsPhrase t.kind) (bound : Nat) :
    expression bound ctx (t :: ts) = ⟨[], t :: ts, .error (.missing t)⟩ := by
  cases bound with
  | zero => rfl
  | succ bound =>
    unfold expression assignment disjunction conjunction equality comparison term factor
    -- down through all levels, each of which begins with the next tighter one
    iterate 7 refine bind_eq_error ?_
    exact unary_stops ht _

end Expressions

/-! ## Statements that are not ended -/

section Statements

variable {nested : Nested} {ctx : Context} {ts mid rest : List Token} {first others more : List SyntaxError}
  {e : SyntaxError} {l r : Token} {c : Expr}

theorem conditional_stops_first (hl : l.kind = .leftParen)
    (hc : nested.expression ctx ts = ⟨first, r :: mid, .ok c⟩) (hr : r.kind = .rightParen)
    (hs : nested.statement ctx mid = ⟨others, rest, .error e⟩) :
    conditional nested ctx (l :: ts) = ⟨first ++ others, rest, .error e⟩ := by
  unfold conditional
  rw [expect_bind_apply hl]
  refine bind_eq_error_of_ok hc ?_
  rw [expect_bind_apply hr]
  exact bind_eq_error hs

theorem conditional_stops_second {s : Stmt} {otherwise : Token} {last : List Token}
    (hl : l.kind = .leftParen) (hc : nested.expression ctx ts = ⟨first, r :: mid, .ok c⟩)
    (hr : r.kind = .rightParen) (hs : nested.statement ctx mid = ⟨others, otherwise :: last, .ok s⟩)
    (hotherwise : otherwise.kind = .keyword .else)
    (ht : nested.statement ctx last = ⟨more, rest, .error e⟩) :
    conditional nested ctx (l :: ts) = ⟨first ++ (others ++ more), rest, .error e⟩ := by
  unfold conditional
  rw [expect_bind_apply hl]
  refine bind_eq_error_of_ok hc ?_
  rw [expect_bind_apply hr]
  refine bind_eq_error_of_ok hs ?_
  rw [passes_bind_apply hotherwise]
  exact bind_eq_error ht

theorem whileLoop_stops (hl : l.kind = .leftParen)
    (hc : nested.expression ctx ts = ⟨first, r :: mid, .ok c⟩) (hr : r.kind = .rightParen)
    (hs : nested.statement ctx mid = ⟨others, rest, .error e⟩) :
    whileLoop nested ctx (l :: ts) = ⟨first ++ others, rest, .error e⟩ := by
  unfold whileLoop
  rw [expect_bind_apply hl]
  refine bind_eq_error_of_ok hc ?_
  rw [expect_bind_apply hr]
  exact bind_eq_error hs

theorem forLoop_stops {semi : Token} {mid' last : List Token} {initial : Option Stmt}
    {condition increment : Option Expr} {fourth : List SyntaxError} (hl : l.kind = .leftParen)
    (hi : initializer nested ctx ts = ⟨first, mid, .ok initial⟩)
    (hc : ReadsOptional nested.expression .semicolon ctx mid others (semi :: mid') condition)
    (hsemi : semi.kind = .semicolon)
    (hn : ReadsOptional nested.expression .rightParen ctx mid' more (r :: last) increment)
    (hr : r.kind = .rightParen) (hs : nested.statement ctx last = ⟨fourth, rest, .error e⟩) :
    forLoop nested ctx (l :: ts) = ⟨first ++ (others ++ (more ++ fourth)), rest, .error e⟩ := by
  unfold forLoop
  rw [expect_bind_apply hl]
  refine bind_eq_error_of_ok hi (optional_bind_eq_error hc ?_)
  refine (semicolon_bind_apply hsemi).trans (optional_bind_eq_error hn ?_)
  exact (expect_bind_apply hr).trans (bind_eq_error hs)

theorem functionDeclaration_stops {bound : Nat} {name brace : Token} {names : List Token}
    (hname : name.kind = .identifier) (hl : l.kind = .leftParen)
    (hnames : parameterList bound ctx ts = ⟨first, r :: brace :: mid, .ok names⟩)
    (hr : r.kind = .rightParen) (hbrace : brace.kind = .leftBrace)
    (hbody : block nested.declaration bound { ctx with inFunction := true } mid =
      ⟨others, rest, .error e⟩) :
    functionDeclaration nested bound ctx (name :: l :: ts) = ⟨first ++ others, rest, .error e⟩ := by
  unfold functionDeclaration
  rw [expect_bind_apply hname, expect_bind_apply hl]
  refine bind_eq_error_of_ok hnames ?_
  rw [expect_bind_apply hr, expect_bind_apply hbrace]
  exact bind_eq_error hbody

/-- A block stops where one of its declarations stops. -/
theorem block_stops_here {declaration : Parser Stmt} {turns : Nat}
    (hbrace : kindAhead ctx ts ≠ .rightBrace) (hend : kindAhead ctx ts ≠ .endOfInput)
    (hs : declaration ctx ts = ⟨first, rest, .error e⟩) :
    block declaration (turns + 1) ctx ts = ⟨first, rest, .error e⟩ := by
  rw [block, peek_bind_apply, if_neg (by simpa [kindAhead] using And.intro hbrace hend)]
  exact bind_eq_error hs

theorem block_stops_behind {declaration : Parser Stmt} {turns : Nat} {s : Stmt}
    (hbrace : kindAhead ctx ts ≠ .rightBrace) (hend : kindAhead ctx ts ≠ .endOfInput)
    (hs : declaration ctx ts = ⟨first, mid, .ok s⟩)
    (hss : block declaration turns ctx mid = ⟨others, rest, .error e⟩) :
    block declaration (turns + 1) ctx ts = ⟨first ++ others, rest, .error e⟩ := by
  rw [block, peek_bind_apply, if_neg (by simpa [kindAhead] using And.intro hbrace hend)]
  exact bind_eq_error_of_ok hs (bind_eq_error hss)

end Statements

end Parser

namespace Grammar

/-! ## Reading what breaks off -/

theorem not_startsPhrase_semicolon {semi : Token} (h : semi.kind = .semicolon) :
    ¬ StartsPhrase semi.kind := by
  simp [h, StartsPhrase, StartsPrimary, literal?]

theorem StatementCut.starts {f dangling : Bool} {begun left : List Token} {reports : List SyntaxError}
    (h : StatementCut f dangling begun left reports) :
    ∃ t v, begun = t :: v ∧ StartsStatement t.kind := by
  cases h with
  | print hk | block hk | ifThen hk | firstBranch hk | secondBranch hk | whileLoop hk | forLoop hk =>
    exact ⟨_, _, rfl, by simp [StartsStatement, hk]⟩

theorem DeclarationCut.starts {f dangling : Bool} {begun left : List Token}
    {reports : List SyntaxError} (h : DeclarationCut f dangling begun left reports) :
    ∃ t v, begun = t :: v ∧ StartsDeclaration t.kind := by
  cases h with
  | funDeclaration hk => exact ⟨_, _, rfl, by simp [StartsDeclaration, hk]⟩
  | statement h =>
    obtain ⟨t, v, rfl, ht⟩ := h.starts
    exact ⟨t, v, rfl, .inl ht⟩

theorem BlockCut.starts {f : Bool} {begun left : List Token} {reports : List SyntaxError}
    (h : BlockCut f begun left reports) : ∃ t v, begun = t :: v ∧ StartsDeclaration t.kind := by
  cases h with
  | here h _ _ => exact h.starts
  | behind hs _ =>
    obtain ⟨t, v, rfl, ht⟩ := hs.starts
    exact ⟨t, _, rfl, ht⟩

mutual

theorem StatementCut.stops {f dangling : Bool} {begun left : List Token} {reports : List SyntaxError}
    (h : StatementCut f dangling begun left reports) {bound : Nat} {ctx : Context} {semi : Token}
    {rest : List Token} (hctx : ctx.inFunction = f) (hbound : begun.length ≤ bound)
    (hsemi : semi.kind = .semicolon) :
    statement bound ctx (begun ++ semi :: rest) =
      ⟨reports, semi :: rest, .error (.missing semi)⟩ := by
  obtain ⟨bound, rfl⟩ : ∃ others, bound = others + 1 := by
    obtain ⟨t, v, rfl, -⟩ := h.starts
    exact ⟨bound - 1, by simp at hbound; omega⟩
  change statementWith ⟨Parser.expression (bound + 1), statement bound, declaration bound⟩ (bound + 1)
    ctx (begun ++ semi :: rest) = _
  match h with
  | .print hkeyword =>
    rw [List.cons_append, statementWith_cons, hkeyword]
    exact bind_eq_error (expression_stops (not_startsPhrase_semicolon hsemi) _)
  | .block hl h _ =>
    simp only [List.length_cons] at hbound
    rw [List.cons_append, statementWith_cons, hl]
    exact bind_eq_error (h.stops hctx (by omega) (by omega) hsemi)
  | .ifThen hkeyword hl hc hr h | .firstBranch hkeyword hl hc hr h _ _ _ =>
    simp only [List.length_append, List.length_cons] at hbound
    rw [List.cons_append, statementWith_cons, hkeyword, List.cons_append, List.append_assoc]
    exact conditional_stops_first hl (hc.read_closed (by omega) (.inr hr)) hr
      (h.stops hctx (by omega) hsemi)
  | .secondBranch hkeyword hl hc hr hs hotherwise h =>
    simp only [List.length_append, List.length_cons] at hbound
    simp only [List.cons_append, List.append_assoc]
    rw [statementWith_cons, hkeyword]
    refine conditional_stops_second hl (hc.read_closed (by omega) (.inr hr)) hr
      (hs.read hctx (by omega) ?_) hotherwise (h.stops hctx (by omega) hsemi)
    -- the first branch does not dangle, so the `else` behind it does no harm
    rintro ⟨⟩
  | .whileLoop hkeyword hl hc hr h =>
    simp only [List.length_append, List.length_cons] at hbound
    rw [List.cons_append, statementWith_cons, hkeyword, List.cons_append, List.append_assoc]
    exact whileLoop_stops hl (hc.read_closed (by omega) (.inr hr)) hr (h.stops hctx (by omega) hsemi)
  | .forLoop hkeyword hl hi hc hsemi' hn hr h =>
    simp only [List.length_append, List.length_cons] at hbound
    simp only [List.cons_append, List.append_assoc]
    rw [statementWith_cons, hkeyword]
    exact forLoop_stops hl (hi.read rfl (by omega)) (hc.read (by omega) hsemi' (.inl rfl)) hsemi'
      (hn.read (by omega) hr (.inr rfl)) hr (h.stops hctx (by omega) hsemi)

theorem DeclarationCut.stops {f dangling : Bool} {begun left : List Token} {reports : List SyntaxError}
    (h : DeclarationCut f dangling begun left reports) {bound : Nat} {ctx : Context} {semi : Token}
    {rest : List Token} (hctx : ctx.inFunction = f) (hbound : begun.length ≤ bound)
    (hsemi : semi.kind = .semicolon) :
    declaration bound ctx (begun ++ semi :: rest) =
      ⟨reports, semi :: rest, .error (.missing semi)⟩ := by
  obtain ⟨bound, rfl⟩ : ∃ others, bound = others + 1 := by
    obtain ⟨t, v, rfl, -⟩ := h.starts
    exact ⟨bound - 1, by simp at hbound; omega⟩
  change declarationWith ⟨Parser.expression (bound + 1), statement bound, declaration bound⟩ (bound + 1)
    ctx (begun ++ semi :: rest) = _
  match h with
  | .funDeclaration hkeyword hname hl hnames hr hbrace h _ =>
    simp only [List.length_append, List.length_cons] at hbound
    simp only [List.cons_append, List.append_assoc]
    rw [declarationWith_cons, hkeyword]
    exact functionDeclaration_stops hname hl (hnames.read (by omega) hr) hr hbrace
      (h.stops rfl (by omega) (by omega) hsemi)
  | .statement h =>
    have hstops : statement (bound + 1) ctx (_ ++ semi :: rest) = _ := h.stops hctx hbound hsemi
    obtain ⟨t, v, rfl, ht⟩ := h.starts
    rw [List.cons_append, declarationWith_of_startsStatement ht]
    exact hstops

theorem BlockCut.stops {f : Bool} {begun left : List Token} {reports : List SyntaxError}
    (h : BlockCut f begun left reports) {bound turns : Nat} {ctx : Context} {semi : Token}
    {rest : List Token} (hctx : ctx.inFunction = f) (hbound : begun.length ≤ bound)
    (hturns : begun.length ≤ turns) (hsemi : semi.kind = .semicolon) :
    block (declaration bound) turns ctx (begun ++ semi :: rest) =
      ⟨reports, semi :: rest, .error (.missing semi)⟩ := by
  obtain ⟨turns, rfl⟩ : ∃ others, turns = others + 1 := by
    obtain ⟨t, v, rfl, -⟩ := h.starts
    exact ⟨turns - 1, by simp at hturns; omega⟩
  match h with
  | .here h _ _ =>
    have hstops : declaration bound ctx (_ ++ semi :: rest) = _ := h.stops hctx hbound hsemi
    obtain ⟨t, v, rfl, ht⟩ := h.starts
    exact block_stops_here ht.not_ends.2.1 ht.not_ends.2.2 hstops
  | .behind hs h =>
    have hpos := List.length_pos_iff.2 hs.ne_nil
    simp only [List.length_append] at hbound hturns
    have hstops : block (declaration bound) turns ctx (_ ++ semi :: rest) = _ :=
      h.stops hctx (by omega) (by omega) hsemi
    rw [List.append_assoc]
    refine block_stops_behind hs.kindAhead_ne.1 hs.kindAhead_ne.2 (hs.read hctx (by omega) ?_) hstops
    -- what is cut begins like a declaration, so not with `else`
    obtain ⟨t, v, rfl, ht⟩ := h.starts
    exact noElse_cons ht.not_ends.1

end

/-! ## Missing values -/

/-- Whether the statement around goes on at a place in a program: braces are open, or an `else` comes
next. -/
def goesOn (depth : Nat) (w : List Token) : Bool :=
  depth ≠ 0 || w.head?.any (·.kind = .keyword .else)

/-- `Emptied depth w v semis pending`: from the text `w`, which stands at a depth of `depth` braces, `v` is
left when the values of some of its `print` statements are taken away. The semicolons of these statements
are `semis`, and `pending` tells whether the statement around goes on behind one of them. -/
inductive Emptied : Nat → List Token → List Token → List Token → Bool → Prop where
  | nil {depth : Nat} : Emptied depth [] [] [] false
  | keep {depth : Nat} {t : Token} {w v semis : List Token} {pending : Bool}
      (h : Emptied (depthBehind depth t) w v semis pending) :
      Emptied depth (t :: w) (t :: v) semis pending
  -- a value ends at the first semicolon behind the keyword
  | empty {depth : Nat} {keyword semi : Token} {value w v semis : List Token} {pending : Bool}
      (hkeyword : keyword.kind = .keyword .print) (hvalue : ∀ t ∈ value, t.kind ≠ .semicolon)
      (hsemi : semi.kind = .semicolon) (h : Emptied depth w v semis pending) :
      Emptied depth (keyword :: (value ++ semi :: w)) (keyword :: semi :: v) (semi :: semis)
        (goesOn depth w || pending)

section Emptied

variable {depth : Nat} {w v z semis : List Token} {pending : Bool}

theorem Emptied.head?_eq (h : Emptied depth w z semis pending) : z.head? = w.head? := by
  cases h <;> rfl

/-- Either nothing is taken away from the first of two texts, or there is a first value that is. -/
theorem Emptied.of_append (h : Emptied depth (w ++ v) z semis pending) :
    (∃ z', z = w ++ z' ∧ Emptied (w.foldl depthBehind depth) v z' semis pending) ∨
    ∃ before keyword behind value semi rest z' others more, w = before ++ keyword :: behind ∧
      keyword.kind = .keyword .print ∧ behind ++ v = value ++ semi :: rest ∧
      (∀ t ∈ value, t.kind ≠ .semicolon) ∧ semi.kind = .semicolon ∧
      z = before ++ keyword :: semi :: z' ∧ semis = semi :: others ∧
      pending = (goesOn (before.foldl depthBehind depth) rest || more) ∧
      Emptied (before.foldl depthBehind depth) rest z' others more := by
  induction w generalizing depth z with
  | nil => exact .inl ⟨z, rfl, h⟩
  | cons t w ih =>
    rw [List.cons_append] at h
    generalize hu : t :: (w ++ v) = u at h
    -- the first token is kept, or it is the keyword of the first value that is taken away
    cases h with
    | nil => cases hu
    | keep h =>
      obtain ⟨rfl, rfl⟩ := List.cons.inj hu
      rcases ih h with ⟨z', rfl, h'⟩ | ⟨before, keyword, behind, value, semi, rest, z', others, more, rfl,
        hkeyword, hbehind, hvalue, hsemi, rfl, hsemis, hpending, h'⟩
      · exact .inl ⟨z', rfl, h'⟩
      · exact .inr ⟨t :: before, keyword, behind, value, semi, rest, z', others, more, rfl, hkeyword,
          hbehind, hvalue, hsemi, rfl, hsemis, hpending, h'⟩
    | empty hkeyword hvalue hsemi h =>
      obtain ⟨rfl, hbehind⟩ := List.cons.inj hu
      exact .inr ⟨[], t, w, _, _, _, _, _, _, rfl, hkeyword, hbehind, hvalue, hsemi, rfl, rfl, rfl, h⟩

theorem Emptied.of_flat_append (h : Emptied depth (w ++ v) z semis pending)
    (hw : ∀ t ∈ w, Flat t.kind) : ∃ z', z = w ++ z' ∧ Emptied depth v z' semis pending := by
  rcases h.of_append with ⟨z', rfl, h'⟩ | ⟨before, keyword, behind, _, _, _, _, _, _, rfl, hkeyword, -⟩
  · rw [balanced_of_flat hw] at h'
    exact ⟨z', rfl, h'⟩
  · have hflat := hw keyword (by simp)
    simp [Flat, hkeyword] at hflat

theorem Emptied.of_cons {t : Token} (h : Emptied depth (t :: w) z semis pending)
    (ht : t.kind ≠ .keyword .print) :
    ∃ z', z = t :: z' ∧ Emptied (depthBehind depth t) w z' semis pending := by
  cases h with
  | keep h => exact ⟨_, rfl, h⟩
  | empty hkeyword => exact absurd hkeyword ht

/-- The first semicolon of a text is in one place. -/
theorem eq_of_append_semicolon {a b c d : List Token} {s t : Token} (h : a ++ s :: c = b ++ t :: d)
    (ha : ∀ t ∈ a, t.kind ≠ .semicolon) (hs : s.kind = .semicolon)
    (hb : ∀ t ∈ b, t.kind ≠ .semicolon) (ht : t.kind = .semicolon) : s = t ∧ c = d := by
  rcases append_eq_append_cons h with ⟨d', rfl, -⟩ | ⟨c', rfl, hrest⟩
  · exact absurd ht (ha t (by simp))
  · rcases c' with - | ⟨u, c'⟩
    · exact List.cons.inj hrest
    · obtain ⟨rfl, -⟩ := List.cons.inj hrest
      exact absurd hs (hb s (by simp))

/-- Either nothing is taken away from a declaration, or the declaration breaks off at the first missing
value. -/
theorem Emptied.of_declaration_append {f dangling : Bool} {s : Stmt} {faults : List SyntaxError}
    (h : Emptied depth (w ++ v) z semis pending) (hs : Declaration f dangling w s faults)
    (hfaults : OnlyMisplaced faults) :
    (∃ z', z = w ++ z' ∧ Emptied depth v z' semis pending) ∨
    ∃ begun left reports semi z' others more, DeclarationCut f dangling begun left reports ∧
      reports ⊆ faults ∧ semi.kind = .semicolon ∧ z = begun ++ semi :: z' ∧ semis = semi :: others ∧
      pending = (goesOn (begun.foldl depthBehind depth) (left ++ v) || more) ∧
      Emptied (begun.foldl depthBehind depth) (left ++ v) z' others more := by
  rcases h.of_append with ⟨z', rfl, h'⟩ | ⟨before, keyword, behind, value, semi, rest, z', others, more,
    hw, hkeyword, hbehind, hvalue, hsemi, rfl, rfl, hpending, h'⟩
  · rw [hs.balanced] at h'
    exact .inl ⟨z', rfl, h'⟩
  · obtain ⟨value', semi', left, reports, rfl, hvalue', hsemi', hcut, hreports⟩ :=
      hs.cuts hfaults hw hkeyword
    rw [List.append_assoc, List.cons_append] at hbehind
    obtain ⟨rfl, rfl⟩ := eq_of_append_semicolon hbehind hvalue' hsemi' hvalue hsemi
    have hdepth : (before ++ [keyword]).foldl depthBehind depth = before.foldl depthBehind depth := by
      simp [depthBehind, hkeyword]
    rw [← hdepth] at hpending h'
    exact .inr ⟨before ++ [keyword], left, reports, semi', z', others, more, hcut, hreports, hsemi,
      by simp, rfl, hpending, h'⟩

end Emptied

/-! ## Where reading resumes -/

theorem nextStatement_append_of_plain {w : List Token} (hw : ∀ t ∈ w, Plain t.kind) (z : List Token) :
    nextStatement (w ++ z) = nextStatement z := by
  induction w with
  | nil => rfl
  | cons t w ih =>
    obtain ⟨⟨hkind, hstarts⟩, hw⟩ := List.forall_mem_cons.1 hw
    simp only [List.mem_cons, List.not_mem_nil, or_false, not_or] at hkind
    rw [List.cons_append, nextStatement, hstarts, if_neg (by simp), if_neg hkind.2.2, ih hw]

theorem nextStatement_cons_of_closer {t : Token} (ht : t.kind = .rightBrace ∨ t.kind = .keyword .else)
    (z : List Token) : nextStatement (t :: z) = nextStatement z := by
  rcases ht with ht | ht <;> simp [nextStatement, startsStatement, ht]

theorem nextStatement_of_starts {z : List Token} (h : ∀ t ∈ z.head?, startsStatement t.kind) :
    nextStatement z = z := by
  cases z with
  | nil => rfl
  | cons t z => rw [nextStatement, if_pos (h t rfl)]

/-- How a declaration looks to recovery: it begins with a keyword to resume at, or is an expression up to
its semicolon, or a block. -/
theorem Declaration.forms {f dangling : Bool} {w : List Token} {s : Stmt} {faults : List SyntaxError}
    (h : Declaration f dangling w s faults) :
    (∃ t v, w = t :: v ∧ startsStatement t.kind) ∨
    (∃ value semi, w = value ++ [semi] ∧ (∀ t ∈ value, Plain t.kind) ∧ semi.kind = .semicolon) ∨
    ∃ l r body ss, w = l :: (body ++ [r]) ∧ l.kind = .leftBrace ∧ r.kind = .rightBrace ∧
      Block f body ss faults := by
  cases h with
  | varDeclaration hk | funDeclaration hk => exact .inl ⟨_, _, rfl, by rw [hk]; rfl⟩
  | statement hs =>
    cases hs with
    | expression he hsemi => exact .inr (.inl ⟨_, _, rfl, he.plain, hsemi⟩)
    | block hl hss hr => exact .inr (.inr ⟨_, _, _, _, rfl, hl, hr, hss⟩)
    | print hk | ifThen hk | ifElse hk | whileLoop hk | forLoop hk | result hk =>
      exact .inl ⟨_, _, rfl, by rw [hk]; rfl⟩

/-- Recovery skips no missing value: it goes on at something that is left over, too. -/
theorem Leftover.nextStatement {loose : Bool} {x : List Token} (hx : Leftover loose x) {depth : Nat}
    {z semis : List Token} {pending : Bool} (h : Emptied depth x z semis pending) :
    ∃ others depth' more x', Leftover others x' ∧
      Emptied depth' x' (Parser.nextStatement z) semis more := by
  induction hn : x.length using Nat.strongRecOn generalizing x loose depth z pending with
  | ind n ih =>
    cases hx with
    | nil =>
      cases h
      exact ⟨false, depth, false, [], .nil, .nil⟩
    | closer ht hv =>
      rw [List.length_cons] at hn
      obtain ⟨z', rfl, h'⟩ := h.of_cons (by rcases ht with ht | ht <;> simp [ht])
      rw [nextStatement_cons_of_closer ht]
      exact ih _ (by omega) hv h' rfl
    | @declaration _ _ _ w v _ _ hs hfaults hnext hv =>
      rw [List.length_append] at hn
      have hpos := List.length_pos_iff.2 hs.ne_nil
      rcases hs.forms with ⟨t, u, rfl, ht⟩ | ⟨value, semi, rfl, hvalue, hsemi⟩ |
        ⟨l, r, body, ss, rfl, hl, hr, hss⟩
      -- a keyword is what recovery looks for
      · rw [nextStatement_of_starts (by simpa [h.head?_eq] using ht)]
        exact ⟨_, _, _, _, .declaration hs hfaults hnext hv, h⟩
      -- an expression is skipped up to its semicolon
      · have hflat : ∀ t ∈ value ++ [semi], Flat t.kind := List.forall_mem_append.2
          ⟨fun t ht => (hvalue t ht).flat, List.forall_mem_singleton.2 (flat_of_kind hsemi (by decide))⟩
        obtain ⟨z', rfl, h'⟩ := h.of_flat_append hflat
        have hskip : Parser.nextStatement (value ++ ([semi] ++ z')) = z' := by
          rw [nextStatement_append_of_plain hvalue, List.singleton_append, Parser.nextStatement, hsemi]
          rfl
        rw [List.append_assoc, hskip]
        exact ⟨_, _, _, _, hv, h'⟩
      -- of a block only the opening brace is skipped, and the closing one is left over
      · have hbody : Leftover true (body ++ r :: v) :=
          hss.leftover hfaults (fun _ => noElse_rightBrace hr) (.closer (.inl hr) hv)
        rw [List.cons_append, List.append_assoc] at h
        obtain ⟨z', rfl, h'⟩ := h.of_cons (by simp [hl])
        have hskip : Parser.nextStatement (l :: z') = Parser.nextStatement z' := by
          simp [Parser.nextStatement, startsStatement, hl]
        rw [hskip]
        refine ih _ ?_ hbody h' rfl
        simp at hn ⊢
        omega

/-- Reading stops at once at the loose end of a statement. -/
theorem declaration_stops_of_closer {t : Token} (ht : t.kind = .rightBrace ∨ t.kind = .keyword .else)
    (bound : Nat) (ctx : Context) (z : List Token) :
    declaration bound ctx (t :: z) = ⟨[], t :: z, .error (.missing t)⟩ := by
  have hphrase : ¬ StartsPhrase t.kind := by
    rcases ht with ht | ht <;> simp [ht, StartsPhrase, StartsPrimary, literal?]
  cases bound with
  | zero => rfl
  | succ bound =>
    have hstops : expressionStatement ⟨Parser.expression (bound + 1), statement bound, declaration bound⟩
        ctx (t :: z) = ⟨[], t :: z, .error (.missing t)⟩ :=
      bind_eq_error (expression_stops hphrase _)
    change declarationWith ⟨Parser.expression (bound + 1), statement bound, declaration bound⟩
      (bound + 1) ctx (t :: z) = _
    rcases ht with ht | ht <;> rwa [declarationWith_cons, ht, statementWith_cons, ht]

/-! ## All errors -/

end Grammar

/-- The errors that are found in what is left over of statements: an end of a statement where nothing has
begun, and a `return` that was in a function body. -/
def SyntaxError.Stray (e : SyntaxError) : Prop :=
  (e.problem = .expected .expression ∧
    (e.token.kind = .rightBrace ∨ e.token.kind = .keyword .else)) ∨
  (e.problem = .returnOutsideFunction ∧ e.token.kind = .keyword .return)

/-- The errors at semicolons are one for each of `semis`, in this order, and all others are stray. There are
stray ones if `loose`. -/
structure Reported (loose : Bool) (semis : List Token) (errors : List SyntaxError) : Prop where
  missing : errors.filter (·.token.kind = .semicolon) = semis.map SyntaxError.missing
  stray : ∀ e ∈ errors, e.token.kind ≠ .semicolon → e.Stray
  exists_stray : loose = true → ∃ e ∈ errors, e.token.kind ≠ .semicolon

namespace Reported

variable {loose : Bool} {semis : List Token} {errors : List SyntaxError}

theorem nil : Reported false [] [] := ⟨rfl, List.forall_mem_nil _, by simp⟩

/-- A stray error is none of those at semicolons. -/
theorem ne_map (h : Reported true semis errors) : errors ≠ semis.map .missing := by
  intro heq
  obtain ⟨e, he, hkind⟩ := h.exists_stray rfl
  rw [heq, ← h.missing] at he
  exact hkind (by simpa using (List.mem_filter.1 he).2)

theorem exists_missing (h : Reported loose semis errors) {e : SyntaxError} (he : e ∈ errors)
    (hkind : e.token.kind = .semicolon) : ∃ semi ∈ semis, .missing semi = e := by
  rw [← List.mem_map, ← h.missing]
  exact List.mem_filter.2 ⟨he, decide_eq_true hkind⟩

theorem of_imp {others : Bool} (h : Reported others semis errors)
    (hloose : loose = true → others = true) : Reported loose semis errors :=
  ⟨h.missing, h.stray, fun hl => h.exists_stray (hloose hl)⟩

theorem of_misplaced {reports : List SyntaxError} (h : Reported loose semis errors)
    (hreports : OnlyMisplaced reports) : Reported loose semis (reports ++ errors) := by
  refine ⟨?_, fun e he hkind => ?_, fun hloose => ?_⟩
  · have hnone : reports.filter (·.token.kind = .semicolon) = [] :=
      List.filter_eq_nil_iff.2 fun e he => by simp [(hreports e he).2]
    rw [List.filter_append, hnone, h.missing, List.nil_append]
  · rcases List.mem_append.1 he with he | he
    · exact .inr (hreports e he)
    · exact h.stray e he hkind
  · obtain ⟨e, he, hkind⟩ := h.exists_stray hloose
    exact ⟨e, List.mem_append_right _ he, hkind⟩

theorem of_missing {semi : Token} (h : Reported loose semis errors) (hsemi : semi.kind = .semicolon) :
    Reported loose (semi :: semis) (SyntaxError.missing semi :: errors) := by
  have hkind : (SyntaxError.missing semi).token.kind = .semicolon := hsemi
  refine ⟨?_, fun e he hkind => ?_, fun hloose => ?_⟩
  · rw [List.filter_cons, if_pos (decide_eq_true hkind), h.missing, List.map_cons]
  · rcases List.mem_cons.1 he with rfl | he
    · exact absurd hsemi hkind
    · exact h.stray e he hkind
  · obtain ⟨e, he, hkind⟩ := h.exists_stray hloose
    exact ⟨e, List.mem_cons_of_mem _ he, hkind⟩

theorem of_closer {t : Token} (h : Reported loose semis errors)
    (ht : t.kind = .rightBrace ∨ t.kind = .keyword .else) :
    Reported true semis (SyntaxError.missing t :: errors) := by
  have hkind : (SyntaxError.missing t).token.kind ≠ .semicolon := by
    rcases ht with ht | ht <;> simp [SyntaxError.missing, ht]
  refine ⟨?_, List.forall_mem_cons.2 ⟨fun _ => .inl ⟨rfl, ht⟩, h.stray⟩,
    fun _ => ⟨_, List.mem_cons_self .., hkind⟩⟩
  rw [List.filter_cons, if_neg (by rwa [decide_eq_true_iff]), h.missing]

end Reported

namespace Grammar

variable {ending : Token}

/-- A declaration from which nothing was taken away is read, and then what is behind it. -/
theorem Declaration.readWithin_append {dangling : Bool} {w v z semis : List Token} {s : Stmt}
    {faults : List SyntaxError} {depth bound : Nat} {pending : Bool}
    (hs : Declaration false dangling w s faults) (h : Emptied depth v z semis pending)
    (hnext : NoElse dangling v) :
    (readWithin ending (bound + 1) (w ++ z)).errors = faults ++ (readWithin ending bound z).errors := by
  have hread : declaration (w ++ z).length ⟨ending, false⟩ (w ++ z) = ⟨faults, z, .ok s⟩ :=
    hs.read rfl (by simp) (by rwa [NoElse, h.head?_eq])
  rw [readWithin_of_ok (by simp [hs.ne_nil]) hread]

/-- Where a declaration breaks off, the missing value is reported, and reading resumes behind the
semicolon. -/
theorem DeclarationCut.readWithin_append {dangling : Bool} {begun left z : List Token}
    {reports : List SyntaxError} {bound : Nat} {semi : Token}
    (h : DeclarationCut false dangling begun left reports) (hsemi : semi.kind = .semicolon) :
    (readWithin ending (bound + 1) (begun ++ semi :: z)).errors =
      reports ++ .missing semi :: (readWithin ending bound z).errors := by
  have hstops : declaration (begun ++ semi :: z).length ⟨ending, false⟩ (begun ++ semi :: z) =
      ⟨reports, semi :: z, .error (.missing semi)⟩ := h.stops rfl (by simp) hsemi
  rw [readWithin_of_error (by simp) hstops, resume, if_pos hsemi]

/-- Each missing value in what is left over is reported once, and everything else that is reported is
stray. -/
theorem Leftover.reported {loose : Bool} {x : List Token} (hx : Leftover loose x) {depth : Nat}
    {z semis : List Token} {pending : Bool} (h : Emptied depth x z semis pending) {bound : Nat}
    (hbound : z.length ≤ bound) : Reported loose semis (readWithin ending bound z).errors := by
  induction bound generalizing loose x depth z semis pending with
  | zero =>
    obtain rfl := List.eq_nil_of_length_eq_zero (Nat.le_zero.1 hbound)
    cases hx with
    | nil =>
      cases h
      exact .nil
    | closer => cases h
    | declaration hs =>
      obtain ⟨t, u, rfl, -⟩ := hs.starts
      cases h.head?_eq
  | succ bound ih =>
    cases hx with
    | nil =>
      cases h
      exact .nil
    | @closer _ t _ ht hv =>
      obtain ⟨z', rfl, h'⟩ := h.of_cons (by rcases ht with ht | ht <;> simp [ht])
      have hresume : resume (t :: z') = Parser.nextStatement z' :=
        if_neg (by rcases ht with ht | ht <;> simp [ht])
      obtain ⟨_, _, _, _, hleft, hemptied⟩ := hv.nextStatement h'
      rw [readWithin_of_error (by simp) (declaration_stops_of_closer ht _ _ _), hresume]
      refine (ih hleft hemptied ?_).of_closer ht
      have hshort := (nextStatement_suffix z').length_le
      simp at hbound
      omega
    | @declaration _ _ _ w v _ _ hs hfaults hnext hv =>
      -- at the top of a script, nothing stands in a function body
      obtain ⟨faults, hs, hfaults⟩ := hs.anywhere hfaults false
      have hpos := List.length_pos_iff.2 hs.ne_nil
      rcases h.of_declaration_append hs hfaults with ⟨z', rfl, h'⟩ |
        ⟨begun, left, reports, semi, z', others, more, hcut, hreports, hsemi, rfl, rfl, -, h'⟩
      · rw [List.length_append] at hbound
        rw [hs.readWithin_append h' hnext]
        exact (ih hv h' (by omega)).of_misplaced hfaults
      · rw [List.length_append, List.length_cons] at hbound
        rw [hcut.readWithin_append hsemi]
        have hothers := ih (hcut.leftover hnext hv) h' (by omega)
        exact ((hothers.of_imp (by simp +contextual)).of_missing hsemi).of_misplaced fun e he =>
          hfaults e (hreports he)

/-- The statement around a missing value goes on exactly if something of it is left over. -/
theorem DeclarationCut.goesOn_eq {f dangling : Bool} {begun left v : List Token}
    {reports : List SyntaxError} (h : DeclarationCut f dangling begun left reports)
    (hv : NoElse true v) : goesOn (begun.foldl depthBehind 0) (left ++ v) = decide (left ≠ []) := by
  have hremains := h.remains 0
  cases left with
  | nil =>
    have helse := hv rfl
    rw [hremains.eq_of_nil rfl, List.nil_append]
    cases v <;> simp_all [goesOn]
  | cons t left =>
    rcases hremains.lt_or_else (List.cons_ne_nil t left) with hlt | ⟨u, hu, hkind⟩
    · simp [goesOn, Nat.ne_of_gt hlt]
    · obtain rfl : t = u := by simpa using hu
      simp [goesOn, hkind]

/-- Nothing else is reported exactly if no missing value of a program is inside of braces or before an
`else`. -/
theorem Block.errors_eq_iff {w : List Token} {p : List Stmt} {faults : List SyntaxError}
    (hp : Block false w p faults) (hfaults : faults = []) {z semis : List Token} {pending : Bool}
    (h : Emptied 0 w z semis pending) {bound : Nat} (hbound : z.length ≤ bound) :
    (Parser.readWithin ending bound z).errors = semis.map SyntaxError.missing ↔ pending = false := by
  induction bound generalizing w p faults z semis pending with
  | zero =>
    obtain rfl := List.eq_nil_of_length_eq_zero (Nat.le_zero.1 hbound)
    cases h
    simp
  | succ bound ih =>
    cases hp with
    | nil =>
      cases h
      simp
    | @cons _ dangling w v s ss first more hs hss =>
      obtain ⟨rfl, rfl⟩ := List.append_eq_nil_iff.1 hfaults
      have hpos := List.length_pos_iff.2 hs.ne_nil
      have hnext : ∀ dangling, NoElse dangling v := fun dangling => by
        have hnone : NoElse dangling (v ++ []) := hss.noElse (by simp [NoElse])
        simpa using hnone
      rcases h.of_declaration_append hs onlyMisplaced_nil with ⟨z', rfl, h'⟩ |
        ⟨begun, left, reports, semi, z', others, more, hcut, hreports, hsemi, rfl, rfl, hpending, h'⟩
      · rw [List.length_append] at hbound
        rw [hs.readWithin_append h' (hnext _)]
        exact ih hss rfl h' (by omega)
      · rw [List.length_append, List.length_cons] at hbound
        obtain rfl := List.eq_nil_of_subset_nil hreports
        rw [hcut.readWithin_append hsemi]
        rw [hpending, hcut.goesOn_eq (hnext true)]
        by_cases hleft : left = []
        -- the cut is at the end of the declaration, so a program is left over
        · subst hleft
          rw [(hcut.remains 0).eq_of_nil rfl, List.nil_append] at h'
          simpa using ih hss rfl h' (by omega)
        -- a brace or an `else` is left over, which is reported
        · have hothers : Reported true others (Parser.readWithin ending bound z').errors :=
            ((hcut.leftover (hnext _) hss.leftover_of_nil).reported h' (by omega)).of_imp
              (by simp [hleft])
          simpa [hleft] using hothers.ne_map

end Grammar

namespace Program

/-- When the values of some `print` statements are taken away from the tokens of a program, the list of
errors has "Expect expression." at the semicolon of each of these statements, once and in order. All other
errors are at braces, `else`s and `return`s that are left over of the statements around. There are none
exactly if no brace is open and no `else` comes next behind any of the semicolons. -/
theorem ofTokens_emptied {ts ts' semis : List Token} {p : Program} {pending : Bool}
    (hp : ofTokens ts = .ok p)
    (h : Emptied 0 (Token.content ts) (Token.content ts') semis pending) (hsemis : semis ≠ []) :
    ∃ errors, ofTokens ts' = .error errors ∧
      errors.filter (·.token.kind = .semicolon) = semis.map SyntaxError.missing ∧
      (∀ e ∈ errors, e.token.kind = .semicolon → e.problem.message = "Expect expression.") ∧
      (∀ e ∈ errors, e.token.kind ≠ .semicolon → e.Stray) ∧
      (errors = semis.map SyntaxError.missing ↔ pending = false) := by
  have hprogram := ofTokens_eq_ok_iff.1 hp
  have hleft : Leftover false (Token.content ts) := Block.leftover_of_nil hprogram
  have hreported : Reported false semis (read (Token.endingOf ts') (Token.content ts')).errors :=
    hleft.reported h (Nat.le_refl _)
  refine ⟨_, if_neg fun hempty => ?_, hreported.missing, fun e he hkind => ?_, hreported.stray,
    Block.errors_eq_iff hprogram rfl h (Nat.le_refl _)⟩
  · have hnone := hreported.missing
    rw [List.isEmpty_iff.1 hempty] at hnone
    exact hsemis (List.map_eq_nil_iff.1 hnone.symm)
  · obtain ⟨semi, -, rfl⟩ := hreported.exists_missing he hkind
    rfl

/-- Four statements have lost their values, two of them in a block. What is left over of the block is its
closing brace, behind which reading resumes with the last of the four. -/
theorem ofTokens_emptied_throughout :
    let keyword (line : Nat) : Token := ⟨.keyword .print, "print", line⟩
    let value (line : Nat) : Token := ⟨.keyword .nil, "nil", line⟩
    let semi (line : Nat) : Token := ⟨.semicolon, ";", line⟩
    let l : Token := ⟨.leftBrace, "\x7b", 2⟩
    let r : Token := ⟨.rightBrace, "\x7d", 3⟩
    let ts := [keyword 1, value 1, semi 1, l, keyword 2, value 2, semi 2, keyword 3, value 3, semi 3, r,
      keyword 4, value 4, semi 4, Token.ending 4]
    let ts' := [keyword 1, semi 1, l, keyword 2, semi 2, keyword 3, semi 3, r, keyword 4, semi 4,
      Token.ending 4]
    let semis := [semi 1, semi 2, semi 3, semi 4]
    (∃ p, ofTokens ts = .ok p) ∧
      Emptied 0 (Token.content ts) (Token.content ts') semis true ∧
      ofTokens ts' = .error [.missing (semi 1), .missing (semi 2), .missing (semi 3), .missing r,
        .missing (semi 4)] ∧
      ∃ errors, ofTokens ts' = .error errors ∧
        errors.filter (·.token.kind = .semicolon) = semis.map SyntaxError.missing ∧
        (∀ e ∈ errors, e.token.kind ≠ .semicolon → e.Stray) ∧ errors ≠ semis.map SyntaxError.missing := by
  intro keyword value semi l r ts ts' semis
  have hgood : (read (Token.endingOf ts) (Token.content ts)).errors = [] := by decide +kernel
  obtain ⟨p, hp⟩ : ∃ p, ofTokens ts = .ok p := by simp [ofTokens, hgood]
  have hread : (read (Token.endingOf ts') (Token.content ts')).errors =
      [.missing (semi 1), .missing (semi 2), .missing (semi 3), .missing r, .missing (semi 4)] := by
    decide +kernel
  have hempty (line depth : Nat) {w v others : List Token} {pending : Bool}
      (h : Emptied depth w v others pending) :
      Emptied depth (keyword line :: ([value line] ++ semi line :: w)) (keyword line :: semi line :: v)
        (semi line :: others) (goesOn depth w || pending) := .empty rfl (by simp [value]) rfl h
  have h : Emptied 0 (Token.content ts) (Token.content ts') semis true :=
    hempty 1 0 (.keep (hempty 2 1 (hempty 3 1 (.keep (hempty 4 0 .nil)))))
  obtain ⟨errors, herrors, hmissing, -, hstray, hall⟩ := ofTokens_emptied hp h (by simp [semis])
  refine ⟨⟨p, hp⟩, h, by simp [ofTokens, hread], errors, herrors, hmissing, hstray, ?_⟩
  exact fun heq => Bool.noConfusion (hall.1 heq)

/-- In a block, the closing brace is reported, too. -/
theorem ofTokens_emptied_in_block :
    let semi : Token := ⟨.semicolon, ";", 1⟩
    let keyword : Token := ⟨.keyword .print, "print", 1⟩
    let l : Token := ⟨.leftBrace, "\x7b", 1⟩
    let r : Token := ⟨.rightBrace, "\x7d", 1⟩
    let ts := [l, keyword, ⟨.keyword .nil, "nil", 1⟩, semi, r, Token.ending 1]
    let ts' := [l, keyword, semi, r, Token.ending 1]
    (∃ p, ofTokens ts = .ok p) ∧
      Emptied 0 (Token.content ts) (Token.content ts') [semi] true ∧
      ofTokens ts' = .error [.missing semi, .missing r] ∧ ofTokens ts' ≠ .error [.missing semi] := by
  intro semi keyword l r ts ts'
  have hgood : (read (Token.endingOf ts) (Token.content ts)).errors = [] := by decide +kernel
  have hread : (read (Token.endingOf ts') (Token.content ts')).errors = [.missing semi, .missing r] := by
    decide +kernel
  have hblock : ofTokens ts' = .error [.missing semi, .missing r] := by
    simp [ofTokens, hread]
  have hemptied : Emptied 1 (keyword :: ([⟨.keyword .nil, "nil", 1⟩] ++ semi :: [r]))
      (keyword :: semi :: [r]) [semi] (goesOn 1 [r] || false) := .empty rfl (by simp) rfl (.keep .nil)
  have h : Emptied 0 (Token.content ts) (Token.content ts') [semi] true := .keep hemptied
  exact ⟨by simp [ofTokens, hgood], h, hblock, by simp [hblock]⟩

end Program

end LoxScript
