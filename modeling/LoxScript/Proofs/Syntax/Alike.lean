import LoxScript.Proofs.Evaluation.Likeness
import LoxScript.Proofs.Syntax.Grammar

/-!
# Texts of like tokens

The grammar looks at the kinds of tokens only. A text with like tokens in the place of those of another
has a tree too, a like one, and the same faults at the tokens in the same places.

## Main definitions

* `SyntaxError.Like`: the same problem at like tokens.

## Main statements

* `Grammar.Phrase.alike`, `Grammar.Declaration.alike`, `Grammar.Block.alike`: texts of like tokens have
  like trees and like faults.
-/

namespace LoxScript

section Lists

variable {α β : Type} {R : α → β → Prop} {a b : List α} {x : α} {w : List β}

/-- A list that is related to a list in two parts has two parts as well. -/
theorem exists_append_of_forall₂ (h : List.Forall₂ R (a ++ b) w) :
    ∃ a' b', w = a' ++ b' ∧ List.Forall₂ R a a' ∧ List.Forall₂ R b b' := by
  induction a generalizing w with
  | nil => exact ⟨[], w, rfl, .nil, h⟩
  | cons x a ih =>
    cases h with
    | @cons _ y _ w hxy hrest =>
      obtain ⟨a', b', rfl, ha, hb⟩ := ih hrest
      exact ⟨y :: a', b', rfl, .cons hxy ha, hb⟩

theorem exists_append_cons_of_forall₂ (h : List.Forall₂ R (a ++ x :: b) w) :
    ∃ a' y b', w = a' ++ y :: b' ∧ List.Forall₂ R a a' ∧ R x y ∧ List.Forall₂ R b b' := by
  obtain ⟨a', v, rfl, ha, hv⟩ := exists_append_of_forall₂ h
  cases hv with
  | cons hxy hb => exact ⟨a', _, _, rfl, ha, hxy, hb⟩

theorem exists_concat_of_forall₂ (h : List.Forall₂ R (a ++ [x]) w) :
    ∃ a' y, w = a' ++ [y] ∧ List.Forall₂ R a a' ∧ R x y := by
  obtain ⟨a', y, b', rfl, ha, hxy, hb⟩ := exists_append_cons_of_forall₂ h
  cases hb
  exact ⟨a', y, rfl, ha, hxy⟩

end Lists

theorem Grammar.Level.number_not_mem_operators (L : Grammar.Level) (value : Number) :
    .number value ∉ L.operators := by
  cases L <;> simp [operators]

/-- The same problem at like tokens. -/
inductive SyntaxError.Like (K : Likeness) : SyntaxError → SyntaxError → Prop where
  | mk (problem : SyntaxError.Problem) {t u : Token} (h : K.token t u) :
      Like K ⟨problem, t⟩ ⟨problem, u⟩

namespace Grammar

variable {K : Likeness} {A A' : Arithmetic}

theorem kind_of_like (hK : K.Lawful A A') {t u : Token} {kind : Token.Kind} (h : K.token t u)
    (ht : t.kind = kind) (hkind : ∀ value, kind ≠ .number value := by simp) : u.kind = kind :=
  ((hK.kind h).eq_iff hkind).2 ht

theorem mem_of_like (hK : K.Lawful A A') {t u : Token} {kinds : List Token.Kind} (h : K.token t u)
    (ht : t.kind ∈ kinds) (hkinds : ∀ value, .number value ∉ kinds) : u.kind ∈ kinds := by
  rw [kind_of_like hK h rfl fun value hvalue => hkinds value (hvalue ▸ ht)]
  exact ht

theorem literal?_of_like (hK : K.Lawful A A') {t u : Token} {value : Literal}
    (h : K.token t u) (ht : literal? t.kind = some value) :
    ∃ value', literal? u.kind = some value' ∧ Literal.Like K value value' := by
  have hkind := hK.kind h
  generalize t.kind = kind at hkind ht
  generalize u.kind = kind' at hkind
  -- only for a number may the literal differ
  cases hkind with
  | number h =>
    cases ht
    exact ⟨_, rfl, .number h⟩
  | same hnumber =>
    refine ⟨value, ht, ?_⟩
    unfold literal? at ht
    split at ht <;> cases ht
    · exact .nil
    · exact .bool true
    · exact .bool false
    · rename_i value
      exact absurd rfl (hnumber value)
    · exact .string _

theorem excess_like (problem : SyntaxError.Problem) (count : Nat) {w w' : List Token}
    (h : List.Forall₂ K.token w w') :
    List.Forall₂ (SyntaxError.Like K) (excess problem count w) (excess problem count w') := by
  unfold excess
  split
  · cases h with
    | nil => exact .nil
    | cons h _ => exact .cons (.mk problem h) .nil
  · exact .nil

theorem join_like (L : Level) {op op' : Token} {a a' b b' : Expr} (hop : K.token op op')
    (ha : Expr.Like K a a') (hb : Expr.Like K b b') :
    Expr.Like K (L.join op a b) (L.join op' a' b') := by
  cases L <;> first | exact .logical hop ha hb | exact .binary hop ha hb

mutual

/-- An expression with like tokens in it is a like expression. -/
theorem Phrase.alike {L : Level} {w : List Token} {e : Expr} {faults : List SyntaxError}
    (h : Phrase L w e faults) (hK : K.Lawful A A') {w' : List Token}
    (hw : List.Forall₂ K.token w w') :
    ∃ e' faults', Phrase L w' e' faults' ∧ Expr.Like K e e' ∧
      List.Forall₂ (SyntaxError.Like K) faults faults' := by
  match h, hw with
  | .literal ht, .cons h .nil =>
    obtain ⟨value', ht', hvalue⟩ := literal?_of_like hK h ht
    exact ⟨_, _, .literal ht', .literal hvalue, .nil⟩
  | .name ht, .cons h .nil =>
    exact ⟨_, _, .name (kind_of_like hK h ht), .variable h, .nil⟩
  | .grouping hl he hr, .cons hl' hw =>
    obtain ⟨v, r', rfl, hv, hr'⟩ := exists_concat_of_forall₂ hw
    obtain ⟨e', faults', he', hlike, hfaults⟩ := he.alike hK hv
    exact ⟨_, _, .grouping (kind_of_like hK hl' hl) he'
      (kind_of_like hK hr' hr), .grouping hlike, hfaults⟩
  -- the text is taken apart at the tokens that the rule names, in both texts at the same places
  | .call hf hl hargs hr, hw =>
    obtain ⟨u, l', v, rfl, hu, hl', hv⟩ := exists_append_cons_of_forall₂ hw
    obtain ⟨v, r', rfl, hv, hr'⟩ := exists_concat_of_forall₂ hv
    obtain ⟨f', faults', hf', hlike, hfaults⟩ := hf.alike hK hu
    obtain ⟨args', more', hargs', hlikes, hmore⟩ := hargs.alike hK hv
    exact ⟨_, _, .call hf' (kind_of_like hK hl' hl) hargs'
      (kind_of_like hK hr' hr), .call hlike hr' hlikes, List.rel_append hfaults hmore⟩
  | .unary hop he, .cons hop' hw =>
    obtain ⟨e', faults', he', hlike, hfaults⟩ := he.alike hK hw
    exact ⟨_, _, .unary (mem_of_like hK hop' hop (by simp)) he', .unary hop' hlike, hfaults⟩
  | .binary (L := L) ha hop hb, hw =>
    obtain ⟨u, op', v, rfl, hu, hop', hv⟩ := exists_append_cons_of_forall₂ hw
    obtain ⟨a', faults', ha', hlike, hfaults⟩ := ha.alike hK hu
    obtain ⟨b', more', hb', hlike', hmore⟩ := hb.alike hK hv
    exact ⟨_, _, .binary ha' (mem_of_like hK hop' hop L.number_not_mem_operators) hb',
      join_like L hop' hlike hlike', List.rel_append hfaults hmore⟩
  | .assign hname hop he, .cons hname' (.cons hop' hw) =>
    obtain ⟨e', faults', he', hlike, hfaults⟩ := he.alike hK hw
    exact ⟨_, _, .assign (kind_of_like hK hname' hname)
      (kind_of_like hK hop' hop) he', .assign hname' hlike, hfaults⟩
  | .misassign ht hv hop he, hw =>
    obtain ⟨u, op', v, rfl, hu, hop', hv'⟩ := exists_append_cons_of_forall₂ hw
    obtain ⟨target', faults', ht', hlike, hfaults⟩ := ht.alike hK hu
    obtain ⟨e', more', he', -, hmore⟩ := he.alike hK hv'
    -- like trees are variables together
    have hvariable : ∀ name, target' ≠ .variable name := by
      rintro name rfl
      cases hlike
      exact hv _ rfl
    exact ⟨_, _, .misassign ht' hvariable (kind_of_like hK hop' hop) he', hlike,
      List.rel_append hfaults (List.rel_append hmore (.cons (.mk _ hop') .nil))⟩
  | .tighter he, hw =>
    obtain ⟨e', faults', he', hlike, hfaults⟩ := he.alike hK hw
    exact ⟨e', faults', .tighter he', hlike, hfaults⟩

theorem Items.alike {count : Nat} {w : List Token} {es : List Expr} {faults : List SyntaxError}
    (h : Items count w es faults) (hK : K.Lawful A A') {w' : List Token}
    (hw : List.Forall₂ K.token w w') :
    ∃ es' faults', Items count w' es' faults' ∧ List.Forall₂ (Expr.Like K) es es' ∧
      List.Forall₂ (SyntaxError.Like K) faults faults' := by
  match h with
  | .one he =>
    obtain ⟨e', faults', he', hlike, hfaults⟩ := he.alike hK hw
    exact ⟨_, _, .one he', .cons hlike .nil, List.rel_append (excess_like _ _ hw) hfaults⟩
  | .more he hcomma hes =>
    obtain ⟨u, comma', v, rfl, hu, hcomma', hv⟩ := exists_append_cons_of_forall₂ hw
    obtain ⟨e', faults', he', hlike, hfaults⟩ := he.alike hK hu
    obtain ⟨es', more', hes', hlikes, hmore⟩ := hes.alike hK hv
    exact ⟨_, _, .more he' (kind_of_like hK hcomma' hcomma) hes', .cons hlike hlikes,
      List.rel_append (excess_like _ _ hu) (List.rel_append hfaults hmore)⟩

theorem Arguments.alike {w : List Token} {es : List Expr} {faults : List SyntaxError}
    (h : Arguments w es faults) (hK : K.Lawful A A') {w' : List Token}
    (hw : List.Forall₂ K.token w w') :
    ∃ es' faults', Arguments w' es' faults' ∧ List.Forall₂ (Expr.Like K) es es' ∧
      List.Forall₂ (SyntaxError.Like K) faults faults' := by
  match h, hw with
  | .none, .nil => exact ⟨[], [], .none, .nil, .nil⟩
  | .some hitems, hw =>
    obtain ⟨es', faults', hes', hlikes, hfaults⟩ := hitems.alike hK hw
    exact ⟨es', faults', .some hes', hlikes, hfaults⟩

end

/-! ## Statements -/

theorem Optional.alike {w : List Token} {value : Option Expr} {faults : List SyntaxError}
    (h : Optional w value faults) (hK : K.Lawful A A') {w' : List Token}
    (hw : List.Forall₂ K.token w w') :
    ∃ value' faults', Optional w' value' faults' ∧ Option.Rel (Expr.Like K) value value' ∧
      List.Forall₂ (SyntaxError.Like K) faults faults' := by
  cases h with
  | none =>
    cases hw
    exact ⟨_, _, .none, .none, .nil⟩
  | some he =>
    obtain ⟨e', faults', he', hlike, hfaults⟩ := he.alike hK hw
    exact ⟨_, _, .some he', .some hlike, hfaults⟩

theorem Variable.alike {w : List Token} {s : Stmt} {faults : List SyntaxError}
    (h : Variable w s faults) (hK : K.Lawful A A') {w' : List Token}
    (hw : List.Forall₂ K.token w w') :
    ∃ s' faults', Variable w' s' faults' ∧ Stmt.Like K s s' ∧
      List.Forall₂ (SyntaxError.Like K) faults faults' := by
  cases h with
  | bare hname hsemi =>
    obtain - | ⟨hname', - | ⟨hsemi', - | _⟩⟩ := hw
    exact ⟨_, _, .bare (kind_of_like hK hname' hname)
      (kind_of_like hK hsemi' hsemi), .var hname' .none, .nil⟩
  | initialized hname hop he hsemi =>
    obtain - | ⟨hname', - | ⟨hop', hw⟩⟩ := hw
    obtain ⟨v, semi', rfl, hv, hsemi'⟩ := exists_concat_of_forall₂ hw
    obtain ⟨e', faults', he', hlike, hfaults⟩ := he.alike hK hv
    exact ⟨_, _, .initialized (kind_of_like hK hname' hname)
      (kind_of_like hK hop' hop) he' (kind_of_like hK hsemi' hsemi),
      .var hname' (.some hlike), hfaults⟩

theorem Names.alike {count : Nat} {w names : List Token} {faults : List SyntaxError}
    (h : Names count w names faults) (hK : K.Lawful A A') {w' : List Token}
    (hw : List.Forall₂ K.token w w') :
    ∃ names' faults', Names count w' names' faults' ∧ List.Forall₂ K.token names names' ∧
      List.Forall₂ (SyntaxError.Like K) faults faults' := by
  induction h generalizing w' with
  | one hname =>
    obtain - | ⟨hname', - | _⟩ := hw
    exact ⟨_, _, .one (kind_of_like hK hname' hname), .cons hname' .nil,
      excess_like _ _ (.cons hname' .nil)⟩
  | more hname hcomma _ ih =>
    obtain - | ⟨hname', - | ⟨hcomma', hw⟩⟩ := hw
    obtain ⟨names', faults', hnames', hlikes, hfaults⟩ := ih hw
    exact ⟨_, _, .more (kind_of_like hK hname' hname)
      (kind_of_like hK hcomma' hcomma) hnames', .cons hname' hlikes,
      List.rel_append (excess_like _ _ (.cons hname' .nil)) hfaults⟩

theorem Parameters.alike {w names : List Token} {faults : List SyntaxError}
    (h : Parameters w names faults) (hK : K.Lawful A A') {w' : List Token}
    (hw : List.Forall₂ K.token w w') :
    ∃ names' faults', Parameters w' names' faults' ∧ List.Forall₂ K.token names names' ∧
      List.Forall₂ (SyntaxError.Like K) faults faults' := by
  cases h with
  | none =>
    cases hw
    exact ⟨_, _, .none, .nil, .nil⟩
  | some h =>
    obtain ⟨names', faults', hnames', hlikes, hfaults⟩ := h.alike hK hw
    exact ⟨_, _, .some hnames', hlikes, hfaults⟩

theorem Initializer.alike {w : List Token} {initial : Option Stmt} {faults : List SyntaxError}
    (h : Initializer w initial faults) (hK : K.Lawful A A') {w' : List Token}
    (hw : List.Forall₂ K.token w w') :
    ∃ initial' faults', Initializer w' initial' faults' ∧
      Option.Rel (Stmt.Like K) initial initial' ∧
      List.Forall₂ (SyntaxError.Like K) faults faults' := by
  cases h with
  | none hsemi =>
    obtain - | ⟨hsemi', - | _⟩ := hw
    exact ⟨_, _, .none (kind_of_like hK hsemi' hsemi), .none, .nil⟩
  | declared hkeyword hs =>
    obtain - | ⟨hkeyword', hw⟩ := hw
    obtain ⟨s', faults', hs', hlike, hfaults⟩ := hs.alike hK hw
    exact ⟨_, _, .declared (kind_of_like hK hkeyword' hkeyword) hs', .some hlike, hfaults⟩
  | expression he hsemi =>
    obtain ⟨v, semi', rfl, hv, hsemi'⟩ := exists_concat_of_forall₂ hw
    obtain ⟨e', faults', he', hlike, hfaults⟩ := he.alike hK hv
    exact ⟨_, _, .expression he' (kind_of_like hK hsemi' hsemi),
      .some (.expression hlike), hfaults⟩

theorem loopTree_like {initial initial' : Option Stmt}
    {condition condition' increment increment' : Option Expr} {body body' : Stmt}
    (hinitial : Option.Rel (Stmt.Like K) initial initial')
    (hcondition : Option.Rel (Expr.Like K) condition condition')
    (hincrement : Option.Rel (Expr.Like K) increment increment') (hbody : Stmt.Like K body body') :
    Stmt.Like K (loopTree initial condition increment body)
      (loopTree initial' condition' increment' body') := by
  have hturn : Stmt.Like K (turn increment body) (turn increment' body') := by
    cases hincrement with
    | none => exact hbody
    | some h => exact .block (.cons hbody (.cons (.expression h) .nil))
  have htest : Expr.Like K (condition.getD (.literal (.bool true)))
      (condition'.getD (.literal (.bool true))) := by
    cases hcondition with
    | none => exact .literal (.bool true)
    | some h => exact h
  cases hinitial with
  | none => exact .loop htest hturn
  | some h => exact .block (.cons h (.cons (.loop htest hturn) .nil))

theorem misplaced_like (inFunction : Bool) {t u : Token} (h : K.token t u) :
    List.Forall₂ (SyntaxError.Like K) (misplaced inFunction t) (misplaced inFunction u) := by
  unfold misplaced
  split
  · exact .nil
  · exact .cons (.mk _ h) .nil

mutual

/-- A statement with like tokens in it is a like statement. -/
theorem Statement.alike {f dangling : Bool} {w : List Token} {s : Stmt} {faults : List SyntaxError}
    (h : Statement f dangling w s faults) (hK : K.Lawful A A') {w' : List Token}
    (hw : List.Forall₂ K.token w w') :
    ∃ s' faults', Statement f dangling w' s' faults' ∧ Stmt.Like K s s' ∧
      List.Forall₂ (SyntaxError.Like K) faults faults' := by
  match h, hw with
  | .expression he hsemi, hw =>
    obtain ⟨v, semi', rfl, hv, hsemi'⟩ := exists_concat_of_forall₂ hw
    obtain ⟨e', faults', he', hlike, hfaults⟩ := he.alike hK hv
    exact ⟨_, _, .expression he' (kind_of_like hK hsemi' hsemi), .expression hlike, hfaults⟩
  | .print hkeyword he hsemi, .cons hkeyword' hw =>
    obtain ⟨v, semi', rfl, hv, hsemi'⟩ := exists_concat_of_forall₂ hw
    obtain ⟨e', faults', he', hlike, hfaults⟩ := he.alike hK hv
    exact ⟨_, _, .print (kind_of_like hK hkeyword' hkeyword) he'
      (kind_of_like hK hsemi' hsemi), .print hlike, hfaults⟩
  | .block hl hss hr, .cons hl' hw =>
    obtain ⟨v, r', rfl, hv, hr'⟩ := exists_concat_of_forall₂ hw
    obtain ⟨ss', faults', hss', hlikes, hfaults⟩ := hss.alike hK hv
    exact ⟨_, _, .block (kind_of_like hK hl' hl) hss' (kind_of_like hK hr' hr),
      .block hlikes, hfaults⟩
  | .ifThen hkeyword hl hc hr hs, .cons hkeyword' (.cons hl' hw) =>
    obtain ⟨u, r', v, rfl, hu, hr', hv⟩ := exists_append_cons_of_forall₂ hw
    obtain ⟨c', faults', hc', hlike, hfaults⟩ := hc.alike hK hu
    obtain ⟨s', more', hs', hlike', hmore⟩ := hs.alike hK hv
    exact ⟨_, _, .ifThen (kind_of_like hK hkeyword' hkeyword)
      (kind_of_like hK hl' hl) hc' (kind_of_like hK hr' hr) hs',
      .ifThen hlike hlike', List.rel_append hfaults hmore⟩
  | .ifElse hkeyword hl hc hr hs hotherwise ht, .cons hkeyword' (.cons hl' hw) =>
    obtain ⟨u, r', v, rfl, hu, hr', hv⟩ := exists_append_cons_of_forall₂ hw
    obtain ⟨v, otherwise', x, rfl, hv, hotherwise', hx⟩ := exists_append_cons_of_forall₂ hv
    obtain ⟨c', faults', hc', hlike, hfaults⟩ := hc.alike hK hu
    obtain ⟨s', more', hs', hlike', hmore⟩ := hs.alike hK hv
    obtain ⟨t', others', ht', hlike'', hothers⟩ := ht.alike hK hx
    exact ⟨_, _, .ifElse (kind_of_like hK hkeyword' hkeyword)
      (kind_of_like hK hl' hl) hc' (kind_of_like hK hr' hr) hs'
      (kind_of_like hK hotherwise' hotherwise) ht', .ifElse hlike hlike' hlike'',
      List.rel_append hfaults (List.rel_append hmore hothers)⟩
  | .whileLoop hkeyword hl hc hr hs, .cons hkeyword' (.cons hl' hw) =>
    obtain ⟨u, r', v, rfl, hu, hr', hv⟩ := exists_append_cons_of_forall₂ hw
    obtain ⟨c', faults', hc', hlike, hfaults⟩ := hc.alike hK hu
    obtain ⟨s', more', hs', hlike', hmore⟩ := hs.alike hK hv
    exact ⟨_, _, .whileLoop (kind_of_like hK hkeyword' hkeyword)
      (kind_of_like hK hl' hl) hc' (kind_of_like hK hr' hr) hs',
      .loop hlike hlike', List.rel_append hfaults hmore⟩
  | .forLoop hkeyword hl hi hc hsemi hn hr hs, .cons hkeyword' (.cons hl' hw) =>
    obtain ⟨u, _, rfl, hu, hw⟩ := exists_append_of_forall₂ hw
    -- clause by clause
    obtain ⟨v, semi', _, rfl, hv, hsemi', hw⟩ := exists_append_cons_of_forall₂ hw
    obtain ⟨x, r', y, rfl, hx, hr', hy⟩ := exists_append_cons_of_forall₂ hw
    obtain ⟨initial', faults', hi', hinitial, hfaults⟩ := hi.alike hK hu
    obtain ⟨condition', more', hc', hcondition, hmore⟩ := hc.alike hK hv
    obtain ⟨increment', others', hn', hincrement, hothers⟩ := hn.alike hK hx
    obtain ⟨s', last', hs', hlike, hlast⟩ := hs.alike hK hy
    exact ⟨_, _, .forLoop (kind_of_like hK hkeyword' hkeyword)
      (kind_of_like hK hl' hl) hi' hc' (kind_of_like hK hsemi' hsemi) hn'
      (kind_of_like hK hr' hr) hs', loopTree_like hinitial hcondition hincrement hlike,
      List.rel_append hfaults (List.rel_append hmore (List.rel_append hothers hlast))⟩
  | .result hkeyword hvalue hsemi, .cons hkeyword' hw =>
    obtain ⟨v, semi', rfl, hv, hsemi'⟩ := exists_concat_of_forall₂ hw
    obtain ⟨value', faults', hvalue', hlike, hfaults⟩ := hvalue.alike hK hv
    exact ⟨_, _, .result (kind_of_like hK hkeyword' hkeyword) hvalue'
      (kind_of_like hK hsemi' hsemi), .result hkeyword' hlike,
      List.rel_append (misplaced_like f hkeyword') hfaults⟩

theorem Declaration.alike {f dangling : Bool} {w : List Token} {s : Stmt}
    {faults : List SyntaxError} (h : Declaration f dangling w s faults) (hK : K.Lawful A A')
    {w' : List Token} (hw : List.Forall₂ K.token w w') :
    ∃ s' faults', Declaration f dangling w' s' faults' ∧ Stmt.Like K s s' ∧
      List.Forall₂ (SyntaxError.Like K) faults faults' := by
  match h, hw with
  | .varDeclaration hkeyword hs, .cons hkeyword' hw =>
    obtain ⟨s', faults', hs', hlike, hfaults⟩ := hs.alike hK hw
    exact ⟨_, _, .varDeclaration (kind_of_like hK hkeyword' hkeyword) hs', hlike, hfaults⟩
  | .funDeclaration hkeyword hname hl hnames hr hbrace hbody hclose,
      .cons hkeyword' (.cons hname' (.cons hl' hw)) =>
    obtain ⟨u, r', _, rfl, hu, hr', - | ⟨hbrace', hbody'⟩⟩ := exists_append_cons_of_forall₂ hw
    obtain ⟨v, close', rfl, hv, hclose'⟩ := exists_concat_of_forall₂ hbody'
    obtain ⟨names', faults', hnames', hlikes, hfaults⟩ := hnames.alike hK hu
    obtain ⟨body', more', hbody', hlikes', hmore⟩ := hbody.alike hK hv
    exact ⟨_, _, .funDeclaration (kind_of_like hK hkeyword' hkeyword)
      (kind_of_like hK hname' hname) (kind_of_like hK hl' hl) hnames'
      (kind_of_like hK hr' hr) (kind_of_like hK hbrace' hbrace) hbody'
      (kind_of_like hK hclose' hclose), .function hname' hlikes hlikes',
      List.rel_append hfaults hmore⟩
  | .statement hs, hw =>
    obtain ⟨s', faults', hs', hlike, hfaults⟩ := hs.alike hK hw
    exact ⟨_, _, .statement hs', hlike, hfaults⟩

theorem Block.alike {f : Bool} {w : List Token} {ss : List Stmt} {faults : List SyntaxError}
    (h : Block f w ss faults) (hK : K.Lawful A A') {w' : List Token}
    (hw : List.Forall₂ K.token w w') :
    ∃ ss' faults', Block f w' ss' faults' ∧ List.Forall₂ (Stmt.Like K) ss ss' ∧
      List.Forall₂ (SyntaxError.Like K) faults faults' := by
  match h, hw with
  | .nil, .nil => exact ⟨_, _, .nil, .nil, .nil⟩
  | .cons hs hss, hw =>
    obtain ⟨u, v, rfl, hu, hv⟩ := exists_append_of_forall₂ hw
    obtain ⟨s', faults', hs', hlike, hfaults⟩ := hs.alike hK hu
    obtain ⟨ss', more', hss', hlikes, hmore⟩ := hss.alike hK hv
    exact ⟨_, _, .cons hs' hss', .cons hlike hlikes, List.rel_append hfaults hmore⟩

end

/-- A program with like tokens in it is a like program. -/
theorem IsProgram.alike (hK : K.Lawful A A') {w w' : List Token} {p : List Stmt} (h : IsProgram w p)
    (hw : List.Forall₂ K.token w w') :
    ∃ p', IsProgram w' p' ∧ List.Forall₂ (Stmt.Like K) p p' := by
  obtain ⟨p', faults', hp', hlikes, hfaults⟩ := Block.alike h hK hw
  cases hfaults
  exact ⟨p', hp', hlikes⟩

/-- A list of declarations goes on with the declarations of another one. -/
theorem Block.append {f : Bool} {w v : List Token} {ss ts : List Stmt}
    {faults more : List SyntaxError} (h : Block f w ss faults) (h' : Block f v ts more) :
    Block f (w ++ v) (ss ++ ts) (faults ++ more) := by
  match h with
  | .nil => exact h'
  | .cons hs hss =>
    rw [List.append_assoc, List.cons_append, List.append_assoc]
    exact .cons hs (hss.append h')

end Grammar

end LoxScript
