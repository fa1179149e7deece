import LoxScript.Proofs.Syntax.Language

/-!
# Texts that break off

Where the value of a `print` statement is missing, reading breaks off behind the keyword. What is lost is
not only that statement: all statements around it were begun and are not ended. This file cuts a text of
the grammar at the keyword of one of its `print` statements, into what has been begun by then and what is
left over behind the semicolon.

## Main definitions

* `Grammar.StatementCut`, `Grammar.DeclarationCut`, `Grammar.BlockCut`: the two parts of a text that is cut.
* `Grammar.Leftover`: declarations in a row, with loose ends of statements between them.

## Main statements

* `Grammar.Declaration.cut`: a text can be cut at each of its `print` statements.
* `Grammar.DeclarationCut.leftover`: what is left over behind the cut.
* `Grammar.DeclarationCut.depth`: something is left over of the text itself exactly if the cut is in
  braces or before an `else`.
-/

namespace LoxScript.Grammar

/-! ## Kinds of token -/

/-- The kinds of token that expressions are made of, and some more: no brace, no semicolon, and nothing
that a statement is told by. -/
def Plain (kind : Token.Kind) : Prop :=
  kind ∉ [.leftBrace, .rightBrace, .semicolon] ∧ Parser.startsStatement kind = false

/-- The kinds of token outside of which there are no braces. -/
def Flat (kind : Token.Kind) : Prop := kind ∉ [.leftBrace, .rightBrace, .keyword .print]

instance (kind : Token.Kind) : Decidable (Plain kind) := by
  unfold Plain
  infer_instance

instance (kind : Token.Kind) : Decidable (Flat kind) := by
  unfold Flat
  infer_instance

theorem Plain.flat {kind : Token.Kind} (h : Plain kind) : Flat kind := by
  obtain ⟨hkind, hstarts⟩ := h
  simp only [List.mem_cons, List.not_mem_nil, or_false, not_or] at hkind
  simp only [Flat, List.mem_cons, List.not_mem_nil, or_false, not_or]
  refine ⟨hkind.1, hkind.2.1, ?_⟩
  rintro rfl
  cases hstarts

theorem plain_of_literal? {kind : Token.Kind} {value : Literal} (h : literal? kind = some value) :
    Plain kind := by
  unfold literal? at h
  split at h
  case h_6 => cases h
  all_goals simp [Plain, Parser.startsStatement]

theorem plain_of_mem_operators {L : Level} {kind : Token.Kind} (h : kind ∈ L.operators) :
    Plain kind := by
  have hall : ∀ kind ∈ L.operators, Plain kind := by
    cases L <;> decide
  exact hall kind h

theorem plain_of_kind {t : Token} {kind : Token.Kind} (h : t.kind = kind) (hkind : Plain kind) :
    Plain t.kind :=
  h ▸ hkind

mutual

/-- Nothing in an expression ends a statement or begins one. -/
theorem Phrase.plain {L : Level} {w : List Token} {e : Expr} {faults : List SyntaxError}
    (h : Phrase L w e faults) : ∀ t ∈ w, Plain t.kind := by
  -- each token is one of the phrase itself, and then its kind is known, or one of a part
  match h with
  | .literal ht => exact List.forall_mem_singleton.2 (plain_of_literal? ht)
  | .name ht => exact List.forall_mem_singleton.2 (plain_of_kind ht (by decide))
  | .grouping hl he hr =>
    rw [List.forall_mem_cons, List.forall_mem_append, List.forall_mem_singleton]
    exact ⟨plain_of_kind hl (by decide), he.plain, plain_of_kind hr (by decide)⟩
  | .call hf hl hargs hr =>
    rw [List.forall_mem_append, List.forall_mem_cons, List.forall_mem_append,
      List.forall_mem_singleton]
    exact ⟨hf.plain, plain_of_kind hl (by decide), hargs.plain, plain_of_kind hr (by decide)⟩
  | .unary hop he =>
    have hall : ∀ kind ∈ [Token.Kind.bang, .minus], Plain kind := by decide
    exact List.forall_mem_cons.2 ⟨hall _ hop, he.plain⟩
  | .binary ha hop hb =>
    rw [List.forall_mem_append, List.forall_mem_cons]
    exact ⟨ha.plain, plain_of_mem_operators hop, hb.plain⟩
  | .assign hname hop he =>
    rw [List.forall_mem_cons, List.forall_mem_cons]
    exact ⟨plain_of_kind hname (by decide), plain_of_kind hop (by decide), he.plain⟩
  | .misassign ht _ hop he =>
    rw [List.forall_mem_append, List.forall_mem_cons]
    exact ⟨ht.plain, plain_of_kind hop (by decide), he.plain⟩
  | .tighter he => exact he.plain

theorem Items.plain {count : Nat} {w : List Token} {es : List Expr} {faults : List SyntaxError}
    (h : Items count w es faults) : ∀ t ∈ w, Plain t.kind := by
  match h with
  | .one he => exact he.plain
  | .more he hcomma hes =>
    rw [List.forall_mem_append, List.forall_mem_cons]
    exact ⟨he.plain, plain_of_kind hcomma (by decide), hes.plain⟩

theorem Arguments.plain {w : List Token} {es : List Expr} {faults : List SyntaxError}
    (h : Arguments w es faults) : ∀ t ∈ w, Plain t.kind := by
  match h with
  | .none => exact List.forall_mem_nil _
  | .some h => exact h.plain

end

theorem Optional.plain {w : List Token} {value : Option Expr} {faults : List SyntaxError}
    (h : Optional w value faults) : ∀ t ∈ w, Plain t.kind := by
  cases h with
  | none => exact List.forall_mem_nil _
  | some he => exact he.plain

/-! ## Flat texts -/

theorem flat_of_kind {t : Token} {kind : Token.Kind} (h : t.kind = kind) (hkind : Flat kind) :
    Flat t.kind :=
  h ▸ hkind

theorem Phrase.flat {L : Level} {w : List Token} {e : Expr} {faults : List SyntaxError}
    (h : Phrase L w e faults) : ∀ t ∈ w, Flat t.kind :=
  fun t ht => (h.plain t ht).flat

theorem Optional.flat {w : List Token} {value : Option Expr} {faults : List SyntaxError}
    (h : Optional w value faults) : ∀ t ∈ w, Flat t.kind :=
  fun t ht => (h.plain t ht).flat

theorem Variable.flat {w : List Token} {s : Stmt} {faults : List SyntaxError}
    (h : Variable w s faults) : ∀ t ∈ w, Flat t.kind := by
  cases h with
  | bare hname hsemi =>
    rw [List.forall_mem_cons, List.forall_mem_singleton]
    exact ⟨flat_of_kind hname (by decide), flat_of_kind hsemi (by decide)⟩
  | initialized hname hop he hsemi =>
    rw [List.forall_mem_cons, List.forall_mem_cons, List.forall_mem_append, List.forall_mem_singleton]
    exact ⟨flat_of_kind hname (by decide), flat_of_kind hop (by decide), he.flat,
      flat_of_kind hsemi (by decide)⟩

theorem Initializer.flat {w : List Token} {initial : Option Stmt} {faults : List SyntaxError}
    (h : Initializer w initial faults) : ∀ t ∈ w, Flat t.kind := by
  cases h with
  | none hsemi => exact List.forall_mem_singleton.2 (flat_of_kind hsemi (by decide))
  | declared hkeyword hs =>
    exact List.forall_mem_cons.2 ⟨flat_of_kind hkeyword (by decide), hs.flat⟩
  | expression he hsemi =>
    rw [List.forall_mem_append, List.forall_mem_singleton]
    exact ⟨he.flat, flat_of_kind hsemi (by decide)⟩

theorem Names.flat {count : Nat} {w names : List Token} {faults : List SyntaxError}
    (h : Names count w names faults) : ∀ t ∈ w, Flat t.kind := by
  induction h with
  | one hname => exact List.forall_mem_singleton.2 (flat_of_kind hname (by decide))
  | more hname hcomma _ ih =>
    rw [List.forall_mem_cons, List.forall_mem_cons]
    exact ⟨flat_of_kind hname (by decide), flat_of_kind hcomma (by decide), ih⟩

theorem Parameters.flat {w names : List Token} {faults : List SyntaxError}
    (h : Parameters w names faults) : ∀ t ∈ w, Flat t.kind := by
  cases h with
  | none => exact List.forall_mem_nil _
  | some h => exact h.flat

/-! ## Heads of statements

What stands in front of the statement inside a statement. -/

/-- The keyword and the condition of a conditional or a `while` loop. -/
theorem flat_condition {keyword l r : Token} {w : List Token} {c : Expr} {faults : List SyntaxError}
    {kind : Token.Kind} (hkeyword : keyword.kind = kind) (hkind : Flat kind)
    (hl : l.kind = .leftParen) (hc : Phrase .assignment w c faults) (hr : r.kind = .rightParen) :
    ∀ t ∈ keyword :: l :: (w ++ [r]), Flat t.kind := by
  rw [List.forall_mem_cons, List.forall_mem_cons, List.forall_mem_append, List.forall_mem_singleton]
  exact ⟨flat_of_kind hkeyword hkind, flat_of_kind hl (by decide), hc.flat, flat_of_kind hr (by decide)⟩

/-- The keyword and the clauses of a `for` loop. -/
theorem flat_clauses {keyword l semi r : Token} {w v u : List Token} {initial : Option Stmt}
    {condition increment : Option Expr} {faults more others : List SyntaxError}
    (hkeyword : keyword.kind = .keyword .for) (hl : l.kind = .leftParen)
    (hi : Initializer w initial faults) (hc : Optional v condition more)
    (hsemi : semi.kind = .semicolon) (hn : Optional u increment others) (hr : r.kind = .rightParen) :
    ∀ t ∈ keyword :: l :: (w ++ (v ++ semi :: (u ++ [r]))), Flat t.kind := by
  rw [List.forall_mem_cons, List.forall_mem_cons, List.forall_mem_append, List.forall_mem_append,
    List.forall_mem_cons, List.forall_mem_append, List.forall_mem_singleton]
  exact ⟨flat_of_kind hkeyword (by decide), flat_of_kind hl (by decide), hi.flat, hc.flat,
    flat_of_kind hsemi (by decide), hn.flat, flat_of_kind hr (by decide)⟩

/-- The keyword, the name and the parameters of a function. -/
theorem flat_signature {keyword name l r : Token} {w names : List Token} {faults : List SyntaxError}
    (hkeyword : keyword.kind = .keyword .fun) (hname : name.kind = .identifier)
    (hl : l.kind = .leftParen) (hnames : Parameters w names faults) (hr : r.kind = .rightParen) :
    ∀ t ∈ keyword :: name :: l :: (w ++ [r]), Flat t.kind := by
  rw [List.forall_mem_cons, List.forall_mem_cons, List.forall_mem_cons, List.forall_mem_append,
    List.forall_mem_singleton]
  exact ⟨flat_of_kind hkeyword (by decide), flat_of_kind hname (by decide), flat_of_kind hl (by decide),
    hnames.flat, flat_of_kind hr (by decide)⟩

/-! ## Depth in braces -/

/-- The depth in braces behind a token. -/
def depthBehind (depth : Nat) (t : Token) : Nat :=
  if t.kind = .leftBrace then depth + 1 else if t.kind = .rightBrace then depth - 1 else depth

/-- A text with as many closing braces as opening ones, each behind its own. -/
def Balanced (w : List Token) : Prop := ∀ depth, w.foldl depthBehind depth = depth

theorem Balanced.append {w v : List Token} (hw : Balanced w) (hv : Balanced v) : Balanced (w ++ v) := by
  intro depth
  rw [List.foldl_append, hw, hv]

theorem balanced_of_flat {w : List Token} (h : ∀ t ∈ w, Flat t.kind) : Balanced w := by
  intro depth
  induction w with
  | nil => rfl
  | cons t w ih =>
    obtain ⟨ht, hw⟩ := List.forall_mem_cons.1 h
    simp only [Flat, List.mem_cons, List.not_mem_nil, or_false, not_or] at ht
    rw [List.foldl_cons, depthBehind, if_neg ht.1, if_neg ht.2.1, ih hw]

theorem Balanced.braces {l r : Token} {w : List Token} (hl : l.kind = .leftBrace) (hw : Balanced w)
    (hr : r.kind = .rightBrace) : Balanced (l :: (w ++ [r])) := by
  intro depth
  rw [List.foldl_cons, List.foldl_append, hw]
  simp [depthBehind, hl, hr]

theorem balanced_print {keyword : Token} (h : keyword.kind = .keyword .print) : Balanced [keyword] :=
  fun _ => by simp [depthBehind, h]

mutual

theorem Statement.balanced {f dangling : Bool} {w : List Token} {s : Stmt} {faults : List SyntaxError}
    (h : Statement f dangling w s faults) : Balanced w := by
  -- braces are in the blocks only, everything else is flat
  match h with
  | .expression he hsemi =>
    exact balanced_of_flat (List.forall_mem_append.2
      ⟨he.flat, List.forall_mem_singleton.2 (flat_of_kind hsemi (by decide))⟩)
  | .print hkeyword he hsemi =>
    exact (balanced_print hkeyword).append (balanced_of_flat (List.forall_mem_append.2
      ⟨he.flat, List.forall_mem_singleton.2 (flat_of_kind hsemi (by decide))⟩))
  | .block hl hss hr => exact hss.balanced.braces hl hr
  | .ifThen hkeyword hl hc hr hs =>
    have hhead := balanced_of_flat (flat_condition hkeyword (by decide) hl hc hr)
    simpa using hhead.append hs.balanced
  | .ifElse hkeyword hl hc hr hs hotherwise ht =>
    have hhead := balanced_of_flat (flat_condition hkeyword (by decide) hl hc hr)
    have helse := balanced_of_flat (List.forall_mem_singleton.2 (flat_of_kind hotherwise (by decide)))
    simpa using hhead.append (hs.balanced.append (helse.append ht.balanced))
  | .whileLoop hkeyword hl hc hr hs =>
    have hhead := balanced_of_flat (flat_condition hkeyword (by decide) hl hc hr)
    simpa using hhead.append hs.balanced
  | .forLoop hkeyword hl hi hc hsemi hn hr hs =>
    have hhead := balanced_of_flat (flat_clauses hkeyword hl hi hc hsemi hn hr)
    simpa using hhead.append hs.balanced
  | .result hkeyword hvalue hsemi =>
    refine balanced_of_flat ?_
    rw [List.forall_mem_cons, List.forall_mem_append, List.forall_mem_singleton]
    exact ⟨flat_of_kind hkeyword (by decide), hvalue.flat, flat_of_kind hsemi (by decide)⟩

theorem Declaration.balanced {f dangling : Bool} {w : List Token} {s : Stmt}
    {faults : List SyntaxError} (h : Declaration f dangling w s faults) : Balanced w := by
  match h with
  | .varDeclaration hkeyword hs =>
    exact balanced_of_flat (List.forall_mem_cons.2 ⟨flat_of_kind hkeyword (by decide), hs.flat⟩)
  | .funDeclaration hkeyword hname hl hnames hr hbrace hbody hclose =>
    have hhead := balanced_of_flat (flat_signature hkeyword hname hl hnames hr)
    simpa using hhead.append (hbody.balanced.braces hbrace hclose)
  | .statement hs => exact hs.balanced

theorem Block.balanced {f : Bool} {w : List Token} {ss : List Stmt} {faults : List SyntaxError}
    (h : Block f w ss faults) : Balanced w := by
  match h with
  | .nil => exact fun _ => rfl
  | .cons hs hss => exact hs.balanced.append hss.balanced

end

/-! ## Results out of place -/

/-- All that is wrong is that a `return` does not stand in a function body. -/
def OnlyMisplaced (faults : List SyntaxError) : Prop :=
  ∀ e ∈ faults, e.problem = .returnOutsideFunction ∧ e.token.kind = .keyword .return

theorem onlyMisplaced_append {faults more : List SyntaxError} :
    OnlyMisplaced (faults ++ more) ↔ OnlyMisplaced faults ∧ OnlyMisplaced more :=
  List.forall_mem_append

theorem onlyMisplaced_nil : OnlyMisplaced [] := List.forall_mem_nil _

theorem onlyMisplaced_misplaced {f : Bool} {keyword : Token} (h : keyword.kind = .keyword .return) :
    OnlyMisplaced (misplaced f keyword) := by
  unfold misplaced
  split
  · exact onlyMisplaced_nil
  · exact List.forall_mem_singleton.2 ⟨rfl, h⟩

mutual

/-- A statement may stand inside or outside of a function body, except for its results. -/
theorem Statement.anywhere {f dangling : Bool} {w : List Token} {s : Stmt} {faults : List SyntaxError}
    (h : Statement f dangling w s faults) (hfaults : OnlyMisplaced faults) (g : Bool) :
    ∃ others, Statement g dangling w s others ∧ OnlyMisplaced others := by
  match h with
  | .expression he hsemi => exact ⟨_, .expression he hsemi, hfaults⟩
  | .print hkeyword he hsemi => exact ⟨_, .print hkeyword he hsemi, hfaults⟩
  | .block hl hss hr =>
    obtain ⟨others, hss, hothers⟩ := hss.anywhere hfaults g
    exact ⟨others, .block hl hss hr, hothers⟩
  | .ifThen hkeyword hl hc hr hs =>
    obtain ⟨hfirst, hmore⟩ := onlyMisplaced_append.1 hfaults
    obtain ⟨others, hs, hothers⟩ := hs.anywhere hmore g
    exact ⟨_, .ifThen hkeyword hl hc hr hs, onlyMisplaced_append.2 ⟨hfirst, hothers⟩⟩
  | .ifElse hkeyword hl hc hr hs hotherwise ht =>
    obtain ⟨hfirst, hmore⟩ := onlyMisplaced_append.1 hfaults
    obtain ⟨hsecond, hthird⟩ := onlyMisplaced_append.1 hmore
    obtain ⟨others, hs, hothers⟩ := hs.anywhere hsecond g
    obtain ⟨last, ht, hlast⟩ := ht.anywhere hthird g
    exact ⟨_, .ifElse hkeyword hl hc hr hs hotherwise ht,
      onlyMisplaced_append.2 ⟨hfirst, onlyMisplaced_append.2 ⟨hothers, hlast⟩⟩⟩
  | .whileLoop hkeyword hl hc hr hs =>
    obtain ⟨hfirst, hmore⟩ := onlyMisplaced_append.1 hfaults
    obtain ⟨others, hs, hothers⟩ := hs.anywhere hmore g
    exact ⟨_, .whileLoop hkeyword hl hc hr hs, onlyMisplaced_append.2 ⟨hfirst, hothers⟩⟩
  | .forLoop hkeyword hl hi hc hsemi hn hr hs =>
    obtain ⟨hfirst, hmore⟩ := onlyMisplaced_append.1 hfaults
    obtain ⟨hsecond, hmore⟩ := onlyMisplaced_append.1 hmore
    obtain ⟨hthird, hmore⟩ := onlyMisplaced_append.1 hmore
    obtain ⟨others, hs, hothers⟩ := hs.anywhere hmore g
    exact ⟨_, .forLoop hkeyword hl hi hc hsemi hn hr hs, onlyMisplaced_append.2 ⟨hfirst,
      onlyMisplaced_append.2 ⟨hsecond, onlyMisplaced_append.2 ⟨hthird, hothers⟩⟩⟩⟩
  -- only here it matters where the statement stands
  | .result hkeyword hvalue hsemi =>
    exact ⟨_, .result hkeyword hvalue hsemi, onlyMisplaced_append.2
      ⟨onlyMisplaced_misplaced hkeyword, (onlyMisplaced_append.1 hfaults).2⟩⟩

theorem Declaration.anywhere {f dangling : Bool} {w : List Token} {s : Stmt}
    {faults : List SyntaxError} (h : Declaration f dangling w s faults)
    (hfaults : OnlyMisplaced faults) (g : Bool) :
    ∃ others, Declaration g dangling w s others ∧ OnlyMisplaced others := by
  match h with
  | .varDeclaration hkeyword hs => exact ⟨_, .varDeclaration hkeyword hs, hfaults⟩
  -- the body of a function is one in any case
  | .funDeclaration hkeyword hname hl hnames hr hbrace hbody hclose =>
    exact ⟨_, .funDeclaration hkeyword hname hl hnames hr hbrace hbody hclose, hfaults⟩
  | .statement hs =>
    obtain ⟨others, hs, hothers⟩ := hs.anywhere hfaults g
    exact ⟨others, .statement hs, hothers⟩

theorem Block.anywhere {f : Bool} {w : List Token} {ss : List Stmt} {faults : List SyntaxError}
    (h : Block f w ss faults) (hfaults : OnlyMisplaced faults) (g : Bool) :
    ∃ others, Block g w ss others ∧ OnlyMisplaced others := by
  match h with
  | .nil => exact ⟨[], .nil, onlyMisplaced_nil⟩
  | .cons hs hss =>
    obtain ⟨hfirst, hmore⟩ := onlyMisplaced_append.1 hfaults
    obtain ⟨others, hs, hothers⟩ := hs.anywhere hfirst g
    obtain ⟨last, hss, hlast⟩ := hss.anywhere hmore g
    exact ⟨_, .cons hs hss, onlyMisplaced_append.2 ⟨hothers, hlast⟩⟩

end

/-! ## Cuts -/

mutual

/-- `StatementCut f dangling begun left reports`: a statement that stands in a function body if `f` is cut
behind the keyword of a `print` statement in it. It has been begun with `begun`, in which the faults
`reports` are found, and `left` stands behind the semicolon. -/
inductive StatementCut : Bool → Bool → List Token → List Token → List SyntaxError → Prop where
  | print {f : Bool} {keyword : Token} (hkeyword : keyword.kind = .keyword .print) :
      StatementCut f false [keyword] [] []
  | block {f : Bool} {l r : Token} {begun left : List Token} {reports : List SyntaxError}
      (hl : l.kind = .leftBrace) (h : BlockCut f begun left reports) (hr : r.kind = .rightBrace) :
      StatementCut f false (l :: begun) (left ++ [r]) reports
  | ifThen {f dangling : Bool} {keyword l r : Token} {w begun left : List Token} {c : Expr}
      {faults reports : List SyntaxError}
      (hkeyword : keyword.kind = .keyword .if) (hl : l.kind = .leftParen)
      (hc : Phrase .assignment w c faults) (hr : r.kind = .rightParen)
      (h : StatementCut f dangling begun left reports) :
      StatementCut f true (keyword :: l :: (w ++ r :: begun)) left (faults ++ reports)
  -- the `else` and its branch are left over with what is left of the first branch
  | firstBranch {f dangling : Bool} {keyword l r otherwise : Token} {w u begun left : List Token}
      {c : Expr} {t : Stmt} {faults others reports : List SyntaxError}
      (hkeyword : keyword.kind = .keyword .if) (hl : l.kind = .leftParen)
      (hc : Phrase .assignment w c faults) (hr : r.kind = .rightParen)
      (h : StatementCut f false begun left reports) (hotherwise : otherwise.kind = .keyword .else)
      (ht : Statement f dangling u t others) (hothers : OnlyMisplaced others) :
      StatementCut f dangling (keyword :: l :: (w ++ r :: begun)) (left ++ otherwise :: u)
        (faults ++ reports)
  | secondBranch {f dangling : Bool} {keyword l r otherwise : Token} {w v begun left : List Token}
      {c : Expr} {s : Stmt} {faults more reports : List SyntaxError}
      (hkeyword : keyword.kind = .keyword .if) (hl : l.kind = .leftParen)
      (hc : Phrase .assignment w c faults) (hr : r.kind = .rightParen)
      (hs : Statement f false v s more) (hotherwise : otherwise.kind = .keyword .else)
      (h : StatementCut f dangling begun left reports) :
      StatementCut f dangling (keyword :: l :: (w ++ r :: (v ++ otherwise :: begun))) left
        (faults ++ (more ++ reports))
  | whileLoop {f dangling : Bool} {keyword l r : Token} {w begun left : List Token} {c : Expr}
      {faults reports : List SyntaxError}
      (hkeyword : keyword.kind = .keyword .while) (hl : l.kind = .leftParen)
      (hc : Phrase .assignment w c faults) (hr : r.kind = .rightParen)
      (h : StatementCut f dangling begun left reports) :
      StatementCut f dangling (keyword :: l :: (w ++ r :: begun)) left (faults ++ reports)
  | forLoop {f dangling : Bool} {keyword l semi r : Token} {w v u begun left : List Token}
      {initial : Option Stmt} {condition increment : Option Expr}
      {faults more others reports : List SyntaxError}
      (hkeyword : keyword.kind = .keyword .for) (hl : l.kind = .leftParen)
      (hi : Initializer w initial faults) (hc : Optional v condition more)
      (hsemi : semi.kind = .semicolon) (hn : Optional u increment others)
      (hr : r.kind = .rightParen) (h : StatementCut f dangling begun left reports) :
      StatementCut f dangling (keyword :: l :: (w ++ (v ++ semi :: (u ++ r :: begun)))) left
        (faults ++ (more ++ (others ++ reports)))

/-- The same for a statement or a declaration. -/
inductive DeclarationCut : Bool → Bool → List Token → List Token → List SyntaxError → Prop where
  | funDeclaration {f : Bool} {keyword name l r brace close : Token} {w names begun left : List Token}
      {faults reports : List SyntaxError}
      (hkeyword : keyword.kind = .keyword .fun) (hname : name.kind = .identifier)
      (hl : l.kind = .leftParen) (hnames : Parameters w names faults) (hr : r.kind = .rightParen)
      (hbrace : brace.kind = .leftBrace) (h : BlockCut true begun left reports)
      (hclose : close.kind = .rightBrace) :
      DeclarationCut f false (keyword :: name :: l :: (w ++ r :: brace :: begun)) (left ++ [close])
        (faults ++ reports)
  | statement {f dangling : Bool} {begun left : List Token} {reports : List SyntaxError}
      (h : StatementCut f dangling begun left reports) : DeclarationCut f dangling begun left reports

/-- The same for statements and declarations in a row. -/
inductive BlockCut : Bool → List Token → List Token → List SyntaxError → Prop where
  | here {f dangling : Bool} {v begun left : List Token} {ss : List Stmt}
      {reports more : List SyntaxError} (h : DeclarationCut f dangling begun left reports)
      (hss : Block f v ss more) (hmore : OnlyMisplaced more) : BlockCut f begun (left ++ v) reports
  | behind {f dangling : Bool} {w begun left : List Token} {s : Stmt} {faults reports : List SyntaxError}
      (hs : Declaration f dangling w s faults) (h : BlockCut f begun left reports) :
      BlockCut f (w ++ begun) left (faults ++ reports)

end

/-! ### Every `print` statement can be cut at -/

theorem append_eq_append_cons {a b c d : List Token} {t : Token} (h : a ++ b = c ++ t :: d) :
    (∃ d', a = c ++ t :: d' ∧ d = d' ++ b) ∨ ∃ c', c = a ++ c' ∧ b = c' ++ t :: d := by
  rcases List.append_eq_append_iff.1 h with ⟨c', rfl, rfl⟩ | ⟨a', rfl, ha⟩
  · exact .inr ⟨c', rfl, rfl⟩
  · rcases a' with - | ⟨u, a'⟩
    · exact .inr ⟨[], by simp, ha.symm⟩
    · obtain ⟨rfl, rfl⟩ := List.cons.inj ha
      exact .inl ⟨a', rfl, rfl⟩

/-- The text `w` can be cut behind each keyword of a `print` statement in it: the value, without the tokens
of which the rest is the cut `Cut`, ends at a semicolon. -/
def Cuts (Cut : List Token → List Token → List SyntaxError → Prop) (w : List Token)
    (faults : List SyntaxError) : Prop :=
  ∀ ⦃before keyword behind⦄, w = before ++ keyword :: behind → keyword.kind = .keyword .print →
    ∃ value semi left reports, behind = value ++ semi :: left ∧
      (∀ t ∈ value, t.kind ≠ .semicolon) ∧ semi.kind = .semicolon ∧
      Cut (before ++ [keyword]) left reports ∧ reports ⊆ faults

section Cuts

variable {Cut First Second : List Token → List Token → List SyntaxError → Prop} {w v u : List Token}
  {faults more : List SyntaxError}

/-- There are no cuts in an expression or a head. -/
theorem cuts_of_flat (h : ∀ t ∈ w, Flat t.kind) : Cuts Cut w faults := by
  rintro before keyword behind rfl hkeyword
  have hkind := h keyword (by simp)
  simp [Flat, hkeyword] at hkind

/-- A cut in one of two texts. -/
theorem Cuts.append (hw : Cuts First w faults) (hv : Cuts Second v more)
    (hfirst : ∀ {begun left reports}, First begun left reports → Cut begun (left ++ v) reports)
    (hsecond : ∀ {begun left reports}, Second begun left reports →
      Cut (w ++ begun) left (faults ++ reports)) : Cuts Cut (w ++ v) (faults ++ more) := by
  intro before keyword behind h hkeyword
  rcases append_eq_append_cons h with ⟨behind', rfl, rfl⟩ | ⟨before', rfl, rfl⟩
  · obtain ⟨value, semi, left, reports, rfl, hvalue, hsemi, hcut, hreports⟩ := hw rfl hkeyword
    exact ⟨value, semi, left ++ v, reports, by simp, hvalue, hsemi, hfirst hcut,
      List.Subset.trans hreports (List.subset_append_left ..)⟩
  · obtain ⟨value, semi, left, reports, rfl, hvalue, hsemi, hcut, hreports⟩ := hv rfl hkeyword
    refine ⟨value, semi, left, faults ++ reports, rfl, hvalue, hsemi, ?_,
      List.append_subset.2 ⟨List.subset_append_left .., List.Subset.trans hreports (List.subset_append_right ..)⟩⟩
    rw [List.append_assoc]
    exact hsecond hcut

/-- A cut behind a head. -/
theorem Cuts.behind (hw : ∀ t ∈ w, Flat t.kind) (hv : Cuts Second v more)
    (hsecond : ∀ {begun left reports}, Second begun left reports →
      Cut (w ++ begun) left (faults ++ reports)) : Cuts Cut (w ++ v) (faults ++ more) :=
  have hnone : Cuts (fun _ _ _ => False) w faults := cuts_of_flat hw
  hnone.append hv False.elim hsecond

/-- A cut in braces. -/
theorem Cuts.braces {l r : Token} (hl : l.kind = .leftBrace) (hw : Cuts First w faults)
    (hr : r.kind = .rightBrace)
    (hfirst : ∀ {begun left reports}, First begun left reports →
      Cut (l :: begun) (left ++ [r]) reports) : Cuts Cut (l :: (w ++ [r])) faults := by
  intro before keyword behind h hkeyword
  rcases before with - | ⟨t, before⟩
  · obtain ⟨rfl, -⟩ := List.cons.inj h
    simp [hl] at hkeyword
  · obtain ⟨rfl, hbehind⟩ := List.cons.inj h
    rcases append_eq_append_cons hbehind with ⟨behind', rfl, rfl⟩ | ⟨before', rfl, hclose⟩
    · obtain ⟨value, semi, left, reports, rfl, hvalue, hsemi, hcut, hreports⟩ := hw rfl hkeyword
      exact ⟨value, semi, left ++ [r], reports, by simp, hvalue, hsemi, hfirst hcut, hreports⟩
    -- behind the text there is only the closing brace
    · have hmem : keyword ∈ [r] := by simp [hclose]
      rw [List.mem_singleton.1 hmem, hr] at hkeyword
      cases hkeyword

end Cuts

theorem cuts_print {f : Bool} {keyword semi : Token} {w : List Token} {e : Expr}
    {faults : List SyntaxError} (hkeyword : keyword.kind = .keyword .print)
    (he : Phrase .assignment w e faults) (hsemi : semi.kind = .semicolon) :
    Cuts (StatementCut f false) (keyword :: (w ++ [semi])) faults := by
  have hvalue : ∀ t ∈ w, t.kind ≠ .semicolon := by
    intro t ht hkind
    have hplain := he.plain t ht
    simp [Plain, hkind] at hplain
  have hflat : ∀ t ∈ w ++ [semi], Flat t.kind :=
    List.forall_mem_append.2 ⟨he.flat, List.forall_mem_singleton.2 (flat_of_kind hsemi (by decide))⟩
  intro before other behind h hother
  rcases before with - | ⟨t, before⟩
  · obtain ⟨rfl, rfl⟩ := List.cons.inj h
    exact ⟨w, semi, [], [], rfl, hvalue, hsemi, .print hkeyword, List.nil_subset _⟩
  -- there is no second keyword behind the first
  · obtain ⟨-, h⟩ := List.cons.inj h
    have hkind := hflat other (by simp [h])
    simp [Flat, hother] at hkind

/-- A cut in one of the branches of a conditional. -/
theorem cuts_branches {f dangling : Bool} {otherwise : Token} {v u : List Token} {s t : Stmt}
    {more others : List SyntaxError} (hs : Statement f false v s more)
    (hfirst : Cuts (StatementCut f false) v more) (hotherwise : otherwise.kind = .keyword .else)
    (ht : Statement f dangling u t others) (hsecond : Cuts (StatementCut f dangling) u others)
    (hothers : OnlyMisplaced others) {keyword l r : Token} {w : List Token} {c : Expr}
    {faults : List SyntaxError} (hkeyword : keyword.kind = .keyword .if) (hl : l.kind = .leftParen)
    (hc : Phrase .assignment w c faults) (hr : r.kind = .rightParen) :
    Cuts (StatementCut f dangling) (keyword :: l :: (w ++ r :: (v ++ otherwise :: u)))
      (faults ++ (more ++ others)) := by
  have hhead := flat_condition hkeyword (by decide) hl hc hr
  have helse : ∀ t ∈ [otherwise], Flat t.kind :=
    List.forall_mem_singleton.2 (flat_of_kind hotherwise (by decide))
  -- a cut in the second branch has all of the first one in front of it
  have hsecond' : Cuts (fun begun left reports =>
      StatementCut f dangling (keyword :: l :: (w ++ r :: (v ++ begun))) left
        (faults ++ (more ++ reports))) ([otherwise] ++ u) ([] ++ others) :=
    Cuts.behind helse hsecond fun h => .secondBranch hkeyword hl hc hr hs hotherwise h
  have hbranches : Cuts (fun begun left reports =>
      StatementCut f dangling (keyword :: l :: (w ++ r :: begun)) left (faults ++ reports))
      (v ++ otherwise :: u) (more ++ others) :=
    Cuts.append hfirst hsecond' (fun h => .firstBranch hkeyword hl hc hr h hotherwise ht hothers) id
  have hcuts : Cuts (StatementCut f dangling) (_ ++ (v ++ otherwise :: u)) (faults ++ (more ++ others)) :=
    Cuts.behind hhead hbranches fun h => by simpa using h
  simpa using hcuts

/-- A cut in the body of a `for` loop. -/
theorem cuts_forLoop {f dangling : Bool} {keyword l semi r : Token} {w v u x : List Token}
    {initial : Option Stmt} {condition increment : Option Expr} {faults more others last : List SyntaxError}
    (hkeyword : keyword.kind = .keyword .for) (hl : l.kind = .leftParen)
    (hi : Initializer w initial faults) (hc : Optional v condition more)
    (hsemi : semi.kind = .semicolon) (hn : Optional u increment others) (hr : r.kind = .rightParen)
    (hbody : Cuts (StatementCut f dangling) x last) :
    Cuts (StatementCut f dangling) (keyword :: l :: (w ++ (v ++ semi :: (u ++ r :: x))))
      (faults ++ (more ++ (others ++ last))) := by
  have hhead := flat_clauses hkeyword hl hi hc hsemi hn hr
  have hcuts : Cuts (StatementCut f dangling) (_ ++ x) ((faults ++ (more ++ others)) ++ last) :=
    Cuts.behind hhead hbody
      fun h => by simpa using StatementCut.forLoop hkeyword hl hi hc hsemi hn hr h
  simpa using hcuts

/-- A cut in the body of a function. -/
theorem cuts_function {f : Bool} {keyword name l r brace close : Token} {w v names : List Token}
    {faults more : List SyntaxError} (hkeyword : keyword.kind = .keyword .fun)
    (hname : name.kind = .identifier) (hl : l.kind = .leftParen) (hnames : Parameters w names faults)
    (hr : r.kind = .rightParen) (hbrace : brace.kind = .leftBrace) (hbody : Cuts (BlockCut true) v more)
    (hclose : close.kind = .rightBrace) :
    Cuts (DeclarationCut f false) (keyword :: name :: l :: (w ++ r :: brace :: (v ++ [close])))
      (faults ++ more) := by
  have hhead := flat_signature hkeyword hname hl hnames hr
  have hbraces : Cuts (fun begun left reports =>
      DeclarationCut f false (keyword :: name :: l :: (w ++ r :: begun)) left (faults ++ reports))
      (brace :: (v ++ [close])) more :=
    Cuts.braces hbrace hbody hclose fun h => .funDeclaration hkeyword hname hl hnames hr hbrace h hclose
  have hcuts : Cuts (DeclarationCut f false) (_ ++ brace :: (v ++ [close])) (faults ++ more) :=
    Cuts.behind hhead hbraces fun h => by simpa using h
  simpa using hcuts

mutual

/-- A statement can be cut at each `print` statement in it. -/
theorem Statement.cuts {f dangling : Bool} {w : List Token} {s : Stmt} {faults : List SyntaxError}
    (h : Statement f dangling w s faults) (hfaults : OnlyMisplaced faults) :
    Cuts (StatementCut f dangling) w faults := by
  match h with
  | .expression he hsemi =>
    exact cuts_of_flat (List.forall_mem_append.2
      ⟨he.flat, List.forall_mem_singleton.2 (flat_of_kind hsemi (by decide))⟩)
  | .print hkeyword he hsemi => exact cuts_print hkeyword he hsemi
  | .block hl hss hr => exact Cuts.braces hl (hss.cuts hfaults) hr fun h => .block hl h hr
  | .ifThen hkeyword hl hc hr hs =>
    have hhead := flat_condition hkeyword (by decide) hl hc hr
    have hcuts : Cuts (StatementCut f true) _ _ :=
      Cuts.behind hhead (hs.cuts (onlyMisplaced_append.1 hfaults).2)
        fun h => by simpa using StatementCut.ifThen hkeyword hl hc hr h
    simpa using hcuts
  | .ifElse hkeyword hl hc hr hs hotherwise ht =>
    obtain ⟨-, hmore⟩ := onlyMisplaced_append.1 hfaults
    obtain ⟨hsecond, hthird⟩ := onlyMisplaced_append.1 hmore
    exact cuts_branches hs (hs.cuts hsecond) hotherwise ht (ht.cuts hthird) hthird hkeyword hl hc hr
  | .whileLoop hkeyword hl hc hr hs =>
    have hhead := flat_condition hkeyword (by decide) hl hc hr
    have hcuts : Cuts (StatementCut f dangling) _ _ :=
      Cuts.behind hhead (hs.cuts (onlyMisplaced_append.1 hfaults).2)
        fun h => by simpa using StatementCut.whileLoop hkeyword hl hc hr h
    simpa using hcuts
  | .forLoop hkeyword hl hi hc hsemi hn hr hs =>
    simp only [onlyMisplaced_append] at hfaults
    exact cuts_forLoop hkeyword hl hi hc hsemi hn hr (hs.cuts hfaults.2.2.2)
  | .result hkeyword hvalue hsemi =>
    refine cuts_of_flat ?_
    rw [List.forall_mem_cons, List.forall_mem_append, List.forall_mem_singleton]
    exact ⟨flat_of_kind hkeyword (by decide), hvalue.flat, flat_of_kind hsemi (by decide)⟩

theorem Declaration.cuts {f dangling : Bool} {w : List Token} {s : Stmt}
    {faults : List SyntaxError} (h : Declaration f dangling w s faults)
    (hfaults : OnlyMisplaced faults) : Cuts (DeclarationCut f dangling) w faults := by
  match h with
  | .varDeclaration hkeyword hs =>
    exact cuts_of_flat (List.forall_mem_cons.2 ⟨flat_of_kind hkeyword (by decide), hs.flat⟩)
  | .funDeclaration hkeyword hname hl hnames hr hbrace hbody hclose =>
    exact cuts_function hkeyword hname hl hnames hr hbrace
      (hbody.cuts (onlyMisplaced_append.1 hfaults).2) hclose
  | .statement hs =>
    intro before keyword behind hw hkeyword
    obtain ⟨value, semi, left, reports, hbehind, hvalue, hsemi, hcut, hreports⟩ :=
      hs.cuts hfaults hw hkeyword
    exact ⟨value, semi, left, reports, hbehind, hvalue, hsemi, .statement hcut, hreports⟩

theorem Block.cuts {f : Bool} {w : List Token} {ss : List Stmt} {faults : List SyntaxError}
    (h : Block f w ss faults) (hfaults : OnlyMisplaced faults) : Cuts (BlockCut f) w faults := by
  match h with
  | .nil => exact cuts_of_flat (List.forall_mem_nil _)
  | .cons hs hss =>
    obtain ⟨hfirst, hmore⟩ := onlyMisplaced_append.1 hfaults
    exact Cuts.append (hs.cuts hfirst) (hss.cuts hmore) (fun h => .here h hss hmore)
      fun h => .behind hs h

end

/-! ## What is left over -/

/-- Declarations in a row, and between them closing braces and `else`s of statements that were begun
elsewhere. There are such ends if `loose`. -/
inductive Leftover : Bool → List Token → Prop where
  | nil : Leftover false []
  | declaration {loose f dangling : Bool} {w v : List Token} {s : Stmt} {faults : List SyntaxError}
      (hs : Declaration f dangling w s faults) (hfaults : OnlyMisplaced faults)
      (hnext : NoElse dangling v) (hv : Leftover loose v) : Leftover loose (w ++ v)
  | closer {loose : Bool} {t : Token} {v : List Token}
      (ht : t.kind = .rightBrace ∨ t.kind = .keyword .else) (hv : Leftover loose v) :
      Leftover true (t :: v)

section Leftover

variable {loose : Bool} {v : List Token}

theorem noElse_rightBrace {dangling : Bool} {r : Token} (hr : r.kind = .rightBrace) :
    NoElse dangling (r :: v) :=
  noElse_cons (by simp [hr])

theorem Block.leftover {f : Bool} {w : List Token} {ss : List Stmt} {faults : List SyntaxError}
    (h : Block f w ss faults) (hfaults : OnlyMisplaced faults) (hnext : ∀ dangling, NoElse dangling v)
    (hv : Leftover loose v) : Leftover loose (w ++ v) := by
  match h with
  | .nil => exact hv
  | .cons hs hss =>
    obtain ⟨hfirst, hmore⟩ := onlyMisplaced_append.1 hfaults
    rw [List.append_assoc]
    exact .declaration hs hfirst (hss.noElse (hnext _)) (hss.leftover hmore hnext hv)

/-- Of a program nothing is left over but its declarations. -/
theorem Block.leftover_of_nil {f : Bool} {w : List Token} {ss : List Stmt} (h : Block f w ss []) :
    Leftover false w := by
  simpa using h.leftover onlyMisplaced_nil (fun _ => by simp [NoElse]) .nil

mutual

theorem StatementCut.leftover {f dangling loose : Bool} {begun left v : List Token}
    {reports : List SyntaxError} (h : StatementCut f dangling begun left reports)
    (hnext : NoElse dangling v) (hv : Leftover loose v) :
    Leftover (loose || decide (left ≠ [])) (left ++ v) := by
  match h with
  | .print _ => simpa using hv
  | .block _ h hr =>
    have hclose := h.leftover (fun _ => noElse_rightBrace hr) (.closer (.inl hr) hv)
    simpa using hclose
  | .ifThen _ _ _ _ h => exact h.leftover (fun _ => hnext rfl) hv
  | .firstBranch _ _ _ _ h hotherwise ht hothers =>
    have hclose := h.leftover (by rintro ⟨⟩)
      (.closer (.inr hotherwise) (.declaration (.statement ht) hothers hnext hv))
    simpa using hclose
  | .secondBranch _ _ _ _ _ _ h | .whileLoop _ _ _ _ h | .forLoop _ _ _ _ _ _ _ h =>
    exact h.leftover hnext hv

/-- Behind a cut stand the rest of the declaration and what follows it. There are loose ends if there is
such a rest. -/
theorem DeclarationCut.leftover {f dangling loose : Bool} {begun left v : List Token}
    {reports : List SyntaxError} (h : DeclarationCut f dangling begun left reports)
    (hnext : NoElse dangling v) (hv : Leftover loose v) :
    Leftover (loose || decide (left ≠ [])) (left ++ v) := by
  match h with
  | .funDeclaration _ _ _ _ _ _ h hclose =>
    have hend := h.leftover (fun _ => noElse_rightBrace hclose) (.closer (.inl hclose) hv)
    simpa using hend
  | .statement h => exact h.leftover hnext hv

theorem BlockCut.leftover {f : Bool} {begun left v : List Token} {reports : List SyntaxError}
    (h : BlockCut f begun left reports) (hnext : ∀ dangling, NoElse dangling v)
    (hv : Leftover true v) : Leftover true (left ++ v) := by
  match h with
  | .here h hss hmore =>
    have hrest := h.leftover (hss.noElse (hnext _)) (hss.leftover hmore hnext hv)
    simpa using hrest
  | .behind _ h => exact h.leftover hnext hv

end

end Leftover

/-! ## The depth of a cut -/

/-- What is left of a statement at depth `outer` that is cut at depth `inner`: nothing if the cut is not
inside of braces of its own, unless an `else` comes next. -/
structure Remains (outer inner : Nat) (left : List Token) : Prop where
  le : outer ≤ inner
  eq_of_nil : left = [] → inner = outer
  lt_or_else : left ≠ [] → outer < inner ∨ ∃ t ∈ left.head?, t.kind = .keyword .else

theorem Remains.behind {outer : Nat} {w begun left : List Token}
    (h : Remains outer (begun.foldl depthBehind outer) left) (hw : Balanced w) :
    Remains outer ((w ++ begun).foldl depthBehind outer) left := by
  rwa [List.foldl_append, hw]

theorem Remains.otherwise {outer inner : Nat} {left u : List Token} {otherwise : Token}
    (h : Remains outer inner left) (hotherwise : otherwise.kind = .keyword .else) :
    Remains outer inner (left ++ otherwise :: u) := by
  refine ⟨h.le, by simp, fun _ => ?_⟩
  rcases left with - | ⟨t, left⟩
  · exact .inr ⟨otherwise, rfl, hotherwise⟩
  · exact h.lt_or_else (by simp)

theorem Remains.braces {outer : Nat} {l r : Token} {begun left : List Token}
    (hl : l.kind = .leftBrace) (h : outer + 1 ≤ begun.foldl depthBehind (outer + 1)) :
    Remains outer ((l :: begun).foldl depthBehind outer) (left ++ [r]) := by
  rw [List.foldl_cons, depthBehind, if_pos hl]
  exact ⟨by omega, by simp, fun _ => .inl h⟩

mutual

theorem StatementCut.remains {f dangling : Bool} {begun left : List Token}
    {reports : List SyntaxError} (h : StatementCut f dangling begun left reports) (depth : Nat) :
    Remains depth (begun.foldl depthBehind depth) left := by
  -- what stands in front of the part that is cut opens no brace, unless it is a block
  match h with
  | .print hkeyword => exact ⟨by simp [depthBehind, hkeyword], by simp [depthBehind, hkeyword], by simp⟩
  | .block hl h _ => exact .braces hl (h.le_depth (depth + 1))
  | .ifThen hkeyword hl hc hr h =>
    have hhead := balanced_of_flat (flat_condition hkeyword (by decide) hl hc hr)
    simpa using (h.remains depth).behind hhead
  | .firstBranch hkeyword hl hc hr h hotherwise _ _ =>
    have hhead := balanced_of_flat (flat_condition hkeyword (by decide) hl hc hr)
    simpa using ((h.remains depth).otherwise hotherwise).behind hhead
  | .secondBranch hkeyword hl hc hr hs hotherwise h =>
    have hhead := balanced_of_flat (flat_condition hkeyword (by decide) hl hc hr)
    have helse := balanced_of_flat (List.forall_mem_singleton.2 (flat_of_kind hotherwise (by decide)))
    simpa using (h.remains depth).behind (hhead.append (hs.balanced.append helse))
  | .whileLoop hkeyword hl hc hr h =>
    have hhead := balanced_of_flat (flat_condition hkeyword (by decide) hl hc hr)
    simpa using (h.remains depth).behind hhead
  | .forLoop hkeyword hl hi hc hsemi hn hr h =>
    have hhead := balanced_of_flat (flat_clauses hkeyword hl hi hc hsemi hn hr)
    simpa using (h.remains depth).behind hhead

/-- Something of the declaration itself is left exactly if the cut is in braces or before an `else`. -/
theorem DeclarationCut.remains {f dangling : Bool} {begun left : List Token}
    {reports : List SyntaxError} (h : DeclarationCut f dangling begun left reports) (depth : Nat) :
    Remains depth (begun.foldl depthBehind depth) left := by
  match h with
  | .funDeclaration hkeyword hname hl hnames hr hbrace h hclose =>
    have hhead := balanced_of_flat (flat_signature hkeyword hname hl hnames hr)
    simpa using (Remains.braces (r := _) hbrace (h.le_depth (depth + 1))).behind hhead
  | .statement h => exact h.remains depth

theorem BlockCut.le_depth {f : Bool} {begun left : List Token} {reports : List SyntaxError}
    (h : BlockCut f begun left reports) (depth : Nat) : depth ≤ begun.foldl depthBehind depth := by
  match h with
  | .here h _ _ => exact (h.remains depth).le
  | .behind hs h =>
    rw [List.foldl_append, hs.balanced depth]
    exact h.le_depth depth

end

end LoxScript.Grammar
