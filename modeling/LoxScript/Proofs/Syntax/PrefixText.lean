import LoxScript.Proofs.Syntax.Nodes

/-!
# Texts in prefix notation

The text of an expression has the operator in front, parentheses around it and its operands, and a blank
before each operand. Nothing is escaped in it: names and literals stand there as in a script, so a string
may hold blanks and parentheses, and a variable may be called `call` or `group`, like the words that stand
in the place of an operator where there is none.

Still the text says what the expression is. Seen without the sorts of expressions it is a form, which is
one token, or a head and parts between parentheses. Every token in a form is as the script has it, so it
ends where a lexeme ends, which is before a blank, a closing parenthesis or the end. So a text is that of
one form only, and what follows a form is never taken for a part of it. The expression is read off its
form by the kind of the head and the number of the parts.

## Main definitions

* `Form`, `Expr.form`: an expression in prefix notation.
* `Form.Same`: forms of the same tokens, on whatever lines.

## Main statements

* `Form.same_of_append`: a text begins with one form at most, which ends in one place.
* `Expr.WellFormed.like_of_same`: the form of an expression determines it.
* `Program.text_eq_iff_like`: the text of an expression determines it.
-/

namespace LoxScript

/-! ## Forms -/

/-- An expression in prefix notation: a token alone, or a head and parts in parentheses. -/
inductive Form where
  | atom (t : Token)
  | list (head : Token) (parts : List Form)

namespace Form

mutual

/-- The characters of a form. -/
def text : Form → List Char
  | .atom t => t.lexeme.toList
  | .list head parts => '(' :: (head.lexeme.toList ++ (textEach parts ++ [')']))

/-- The characters of several forms, each after a blank. -/
def textEach : List Form → List Char
  | [] => []
  | f :: fs => ' ' :: (f.text ++ textEach fs)

end

/-- Forms in which all tokens are lexemes of their kinds, and in which no token alone is an opening
parenthesis. -/
inductive Lexed (A : Arithmetic) : Form → Prop where
  | atom {t : Token} (ht : t.Lexed A) (hopen : t.kind ≠ .leftParen) : Lexed A (.atom t)
  | list {head : Token} {parts : List Form} (hhead : head.Lexed A) (hparts : ∀ f ∈ parts, Lexed A f) :
      Lexed A (.list head parts)

/-- The forms differ in the lines of their tokens at most. -/
inductive Same : Form → Form → Prop where
  | atom {t u : Token} (h : t.SameText u) : Same (.atom t) (.atom u)
  | list {head head' : Token} {parts parts' : List Form} (hhead : head.SameText head')
      (hparts : List.Forall₂ Same parts parts') : Same (.list head parts) (.list head' parts')

theorem same_atom_iff {t u : Token} : Same (.atom t) (.atom u) ↔ t.SameText u := by
  constructor
  · rintro ⟨h⟩
    exact h
  · exact .atom

theorem same_list_iff {head head' : Token} {parts parts' : List Form} :
    Same (.list head parts) (.list head' parts') ↔
      head.SameText head' ∧ List.Forall₂ Same parts parts' := by
  constructor
  · rintro (_ | ⟨hhead, hparts⟩)
    exact ⟨hhead, hparts⟩
  · rintro ⟨hhead, hparts⟩
    exact .list hhead hparts

end Form

/-! ## A text has one form -/

/-- The text is over, or goes on with a character that ends a token. -/
def Piece.Stops (text : List Char) : Prop := ∀ c ∈ text.head?, c ∈ stops

variable {A : Arithmetic}

/-- A recognized token ends before a text that stops it. -/
theorem Piece.Recognized.first_append_stops {kind : Token.Kind} {lexeme rest : List Char}
    (h : Recognized A (.token kind lexeme)) (hrest : Stops rest) :
    ∃ c tail, lexeme = c :: tail ∧ first A c (tail ++ rest) = (.token kind lexeme, rest) := by
  cases rest with
  | nil => simpa [text] using h.first_eq
  | cons b rest => exact h.first_stop (hrest b rfl) rest

/-- Where two tokens begin a text and end there, they are the same. -/
theorem Token.Lexed.sameText_of_append {t u : Token} (ht : t.Lexed A) (hu : u.Lexed A)
    {r r' : List Char} (hr : Piece.Stops r) (hr' : Piece.Stops r')
    (h : t.lexeme.toList ++ r = u.lexeme.toList ++ r') : t.SameText u ∧ r = r' := by
  obtain ⟨c, tail, htext, hfirst⟩ := Piece.Recognized.first_append_stops ht hr
  obtain ⟨c', tail', htext', hfirst'⟩ := Piece.Recognized.first_append_stops hu hr'
  rw [htext, htext', List.cons_append, List.cons_append] at h
  obtain ⟨rfl, htails⟩ := List.cons.inj h
  -- both are the first piece of the same text
  rw [htails, hfirst'] at hfirst
  obtain ⟨hpiece, rfl⟩ := Prod.mk.inj hfirst
  obtain ⟨hkind, hlexeme⟩ := Piece.token.inj hpiece
  exact ⟨⟨hkind, String.toList_inj.1 hlexeme⟩, rfl⟩

theorem Piece.first_openParen (A : Arithmetic) (rest : List Char) :
    first A '(' rest = (.token .leftParen ['('], rest) := by
  show symbol '(' rest = _
  simp only [symbol, symbol?, symbolWithEqual?]
  split <;> rfl

/-- Only an opening parenthesis begins with one. -/
theorem Token.Lexed.ne_openParen {t : Token} (ht : t.Lexed A) (hopen : t.kind ≠ .leftParen)
    {r : List Char} (hr : Piece.Stops r) (text : List Char) : t.lexeme.toList ++ r ≠ '(' :: text := by
  intro h
  obtain ⟨c, tail, htext, hfirst⟩ := Piece.Recognized.first_append_stops ht hr
  rw [htext, List.cons_append] at h
  obtain ⟨rfl, -⟩ := List.cons.inj h
  rw [Piece.first_openParen] at hfirst
  exact hopen (Piece.token.inj (Prod.mk.inj hfirst).1).1.symm

namespace Form

theorem stops_textEach (fs : List Form) (r : List Char) :
    Piece.Stops (textEach fs ++ ')' :: r) := by
  cases fs <;> simp [Piece.Stops, Piece.stops, textEach]

mutual

/-- A form that begins a text and ends where a token ends is the only one, and ends in one place. -/
theorem same_of_append {f f' : Form} (hf : f.Lexed A) (hf' : f'.Lexed A) {r r' : List Char}
    (hr : Piece.Stops r) (hr' : Piece.Stops r') (h : f.text ++ r = f'.text ++ r') :
    Same f f' ∧ r = r' := by
  match f, f', hf, hf' with
  | .atom t, .atom t', .atom ht _, .atom ht' _ =>
    obtain ⟨hsame, hrest⟩ := ht.sameText_of_append ht' hr hr' h
    exact ⟨.atom hsame, hrest⟩
  -- a token alone and a form in parentheses differ in the first piece of the text
  | .atom t, .list _ _, .atom ht hopen, _ => exact absurd h (ht.ne_openParen hopen hr _)
  | .list _ _, .atom t, _, .atom ht hopen => exact absurd h.symm (ht.ne_openParen hopen hr' _)
  | .list head parts, .list head' parts', .list hhead hparts, .list hhead' hparts' =>
    simp only [text, List.cons_append, List.append_assoc, List.nil_append, List.cons.injEq,
      true_and] at h
    -- the heads end before a part or before the closing parenthesis
    obtain ⟨hsame, hrest⟩ :=
      hhead.sameText_of_append hhead' (stops_textEach parts r) (stops_textEach parts' r') h
    obtain ⟨hsames, hrest⟩ := same_of_textEach_append hparts hparts' hrest
    exact ⟨.list hsame hsames, hrest⟩

theorem same_of_textEach_append {fs fs' : List Form} (hfs : ∀ f ∈ fs, f.Lexed A)
    (hfs' : ∀ f ∈ fs', f.Lexed A) {r r' : List Char}
    (h : textEach fs ++ ')' :: r = textEach fs' ++ ')' :: r') :
    List.Forall₂ Same fs fs' ∧ r = r' := by
  match fs, fs' with
  | [], [] => exact ⟨.nil, (List.cons.inj h).2⟩
  -- the blank before a part is not the parenthesis behind the last
  | [], _ :: _ => exact absurd (List.cons.inj h).1 (by decide)
  | _ :: _, [] => exact absurd (List.cons.inj h).1 (by decide)
  | f :: fs, f' :: fs' =>
    obtain ⟨hf, hfs⟩ := List.forall_mem_cons.1 hfs
    obtain ⟨hf', hfs'⟩ := List.forall_mem_cons.1 hfs'
    simp only [textEach, List.cons_append, List.append_assoc, List.cons.injEq, true_and] at h
    obtain ⟨hsame, hrest⟩ := same_of_append hf hf' (stops_textEach fs r) (stops_textEach fs' r') h
    obtain ⟨hsames, hrest⟩ := same_of_textEach_append hfs hfs' hrest
    exact ⟨.cons hsame hsames, hrest⟩

end

end Form

/-! ## Forms of expressions -/

theorem Likeness.upToLines_reflexive : upToLines.Reflexive := ⟨fun _ => ⟨rfl, rfl⟩, fun _ => rfl⟩

theorem Grammar.literal?_kind (value : Literal) : literal? value.kind = some value := by
  rcases value with _ | ⟨_ | _⟩ | _ | _ <;> rfl

theorem Piece.Recognized.rightParen {lexeme : List Char}
    (h : Recognized A (.token .rightParen lexeme)) : lexeme = [')'] := by
  cases h with
  | symbol h => simpa [symbols] using h

/-- All closing parentheses look the same. -/
theorem Token.Lexed.lexeme_of_rightParen {t : Token} (ht : t.Lexed A) (hkind : t.kind = .rightParen) :
    t.lexeme = ")" := by
  rw [Token.Lexed, Token.piece, hkind] at ht
  exact String.toList_inj.1 ht.rightParen

/-- A name. -/
def Token.named (name : String) : Token := ⟨.identifier, name, 1⟩

theorem Token.lexed_group : (named "group").Lexed A := by
  show Piece.Recognized A (.token .identifier ('g' :: ['r', 'o', 'u', 'p']))
  exact .identifier rfl (List.all_eq_true.1 rfl) fun word => by cases word <;> decide

theorem Token.lexed_call : (named "call").Lexed A := by
  show Piece.Recognized A (.token .identifier ('c' :: ['a', 'l', 'l']))
  exact .identifier rfl (List.all_eq_true.1 rfl) fun word => by cases word <;> decide

namespace Expr

mutual

/-- The form of an expression. An assignment has its variable for a part, and a call what is called. -/
def form : Expr → Form
  | .literal value => .atom value.token
  | .grouping inner => .list (.named "group") [inner.form]
  | .unary operator operand => .list operator [operand.form]
  | .binary operator left right | .logical operator left right =>
    .list operator [left.form, right.form]
  | .variable name => .atom name
  | .assign name value => .list .equals [.atom name, value.form]
  | .call callee _ arguments => .list (.named "call") (callee.form :: formEach arguments)

/-- The forms of several expressions. -/
def formEach : List Expr → List Form
  | [] => []
  | e :: es => e.form :: formEach es

end

mutual

/-- The text of an expression is that of its form. -/
theorem toList_text : ∀ e : Expr, e.text.toList = e.form.text
  | .literal _ | .variable _ => rfl
  | .grouping inner => by simp [text, form, Form.text, Form.textEach, Token.named, inner.toList_text]
  | .unary _ operand => by simp [text, form, Form.text, Form.textEach, operand.toList_text]
  | .binary _ left right | .logical _ left right => by
    simp [text, form, Form.text, Form.textEach, left.toList_text, right.toList_text]
  | .assign _ value => by
    simp [text, form, Form.text, Form.textEach, Token.equals, value.toList_text]
  | .call callee _ arguments => by
    simp [text, form, Form.text, Form.textEach, Token.named, callee.toList_text,
      toList_textEach arguments]

theorem toList_textEach : ∀ es : List Expr, (textEach es).toList = Form.textEach (formEach es)
  | [] => rfl
  | e :: es => by
    simp [textEach, formEach, Form.textEach, e.toList_text, toList_textEach es]

end

theorem formEach_eq_map : ∀ es : List Expr, formEach es = es.map form
  | [] => rfl
  | e :: es => by rw [formEach, formEach_eq_map es, List.map_cons]

theorem allLexed_spelledItems : ∀ {es : List Expr},
    Token.AllLexed A (spelledItems es) ↔ ∀ e ∈ es, Token.AllLexed A e.spelled
  | [] => by simp [spelledItems]
  | [e] => by simp [spelledItems]
  | e :: e' :: es => by
    have ih : Token.AllLexed A (spelledItems (e' :: es)) ↔ _ := allLexed_spelledItems
    simp [spelledItems, ih]

theorem WellFormed.form_lexed {e : Expr} (h : e.WellFormed) (hlexed : Token.AllLexed A e.spelled) :
    e.form.Lexed A := by
  induction h with
  | literal value =>
    -- an infinite number would have the text of a name, but it has no lexeme
    refine .atom (Token.allLexed_cons.1 hlexed).1 ?_
    rcases value with _ | _ | _ | _ <;> simp [Literal.token, Literal.kind]
  | «variable» hname => exact .atom (Token.allLexed_cons.1 hlexed).1 (by simp [hname])
  | grouping _ ih =>
    simp only [spelled, Token.allLexed_cons, Token.allLexed_append] at hlexed
    exact .list Token.lexed_group (List.forall_mem_singleton.2 (ih hlexed.2.1))
  | unary _ _ ih =>
    obtain ⟨hop, hoperand⟩ := Token.allLexed_cons.1 hlexed
    exact .list hop (List.forall_mem_singleton.2 (ih hoperand))
  | binary _ _ _ ihleft ihright | logical _ _ _ ihleft ihright =>
    simp only [spelled, Token.allLexed_cons, Token.allLexed_append] at hlexed
    obtain ⟨hleft, hop, hright⟩ := hlexed
    exact .list hop (List.forall_mem_cons.2 ⟨ihleft hleft, List.forall_mem_singleton.2 (ihright hright)⟩)
  | assign hname _ ih =>
    simp only [spelled, Token.allLexed_cons] at hlexed
    obtain ⟨hvariable, hequals, hvalue⟩ := hlexed
    exact .list hequals (List.forall_mem_cons.2
      ⟨.atom hvariable (by simp [hname]), List.forall_mem_singleton.2 (ih hvalue)⟩)
  | call _ _ _ _ ihcallee iharguments =>
    simp only [spelled, Token.allLexed_cons, Token.allLexed_append, allLexed_spelledItems] at hlexed
    obtain ⟨hcallee, -, harguments, -⟩ := hlexed
    refine .list Token.lexed_call (List.forall_mem_cons.2 ⟨ihcallee hcallee, ?_⟩)
    rw [formEach_eq_map, List.forall_mem_map]
    exact fun a ha => iharguments a ha (harguments a ha)

/-- The sorts of expressions. -/
inductive Shape where
  | literal | grouping | unary | binary | logical | «variable» | assign | call

/-- The sort of an expression. -/
def shape : Expr → Shape
  | .literal _ => .literal
  | .grouping _ => .grouping
  | .unary _ _ => .unary
  | .binary _ _ _ => .binary
  | .logical _ _ _ => .logical
  | .variable _ => .variable
  | .assign _ _ => .assign
  | .call _ _ _ => .call

end Expr

/-- The sort of the expressions with this form. A minus with one operand is not one with two. -/
def Form.shape : Form → Expr.Shape
  | .atom t => if t.kind = .identifier then .variable else .literal
  | .list head parts =>
    if head.kind = .identifier then if head.lexeme = "group" then .grouping else .call
    else if head.kind = .equal then .assign
    else if head.kind ∈ [.keyword .and, .keyword .or] then .logical
    else if parts.length = 1 then .unary
    else .binary

theorem Form.Same.shape {f f' : Form} (h : Same f f') : f'.shape = f.shape := by
  cases h with
  | atom h => simp only [Form.shape, h.1]
  | list hhead hparts => simp only [Form.shape, hhead.1, hhead.2, hparts.length_eq]

namespace Expr

theorem WellFormed.shape_form {e : Expr} (h : e.WellFormed) : e.form.shape = e.shape := by
  cases h with
  | literal value =>
    rcases value with _ | _ | _ | _ <;> simp [form, Form.shape, shape, Literal.token, Literal.kind]
  | «variable» hname => simp [form, Form.shape, shape, hname]
  | grouping _ => simp [form, Form.shape, shape, Token.named]
  | unary hop _ =>
    simp only [List.mem_cons, List.not_mem_nil, or_false] at hop
    rcases hop with hop | hop <;> simp [form, Form.shape, shape, hop]
  -- no operator between operands is an equals sign or a word
  | binary hop _ _ =>
    simp only [binaryOperators, List.mem_cons, List.not_mem_nil, or_false] at hop
    rcases hop with hop | hop | hop | hop | hop | hop | hop | hop | hop | hop <;>
      simp [form, Form.shape, shape, hop]
  | logical hop _ _ =>
    simp only [List.mem_cons, List.not_mem_nil, or_false] at hop
    rcases hop with hop | hop <;> simp [form, Form.shape, shape, hop]
  | assign _ _ => simp [form, Form.shape, shape, Token.equals]
  | call _ _ _ _ => simp [form, Form.shape, shape, Token.named]

theorem WellFormed.shape_eq {e e' : Expr} (h : e.WellFormed) (h' : e'.WellFormed)
    (hsame : Form.Same e.form e'.form) : e'.shape = e.shape := by
  rw [← h.shape_form, ← h'.shape_form, hsame.shape]

/-- Well formed expressions with the same form are the same. -/
theorem WellFormed.like_of_same {e e' : Expr} (h : e.WellFormed) (h' : e'.WellFormed)
    (hlexed : Token.AllLexed A e.spelled) (hlexed' : Token.AllLexed A e'.spelled)
    (hsame : Form.Same e.form e'.form) : Expr.Like .upToLines e e' := by
  -- the form says of which sort the other expression is
  have hshape := h.shape_eq h' hsame
  induction h generalizing e' with
  | literal value =>
    cases h' with
    | literal value' =>
      -- the kind of the token has the value in it
      have hliteral := Grammar.literal?_kind value'
      rw [show value'.kind = value.kind from (Form.same_atom_iff.1 hsame).1,
        Grammar.literal?_kind] at hliteral
      obtain rfl := Option.some.inj hliteral
      exact .literal (Likeness.upToLines_reflexive.literal value)
    | _ => cases hshape
  | «variable» =>
    cases h' with
    | «variable» => exact .variable (Form.same_atom_iff.1 hsame)
    | _ => cases hshape
  | grouping hw ih =>
    cases h' with
    | grouping hw' =>
      simp only [spelled, Token.allLexed_cons, Token.allLexed_append] at hlexed hlexed'
      simp only [form, Form.same_list_iff, List.forall₂_cons] at hsame
      obtain ⟨-, hinner, -⟩ := hsame
      exact .grouping (ih hw' hlexed.2.1 hlexed'.2.1 hinner (hw.shape_eq hw' hinner))
    | _ => cases hshape
  | unary _ hw ih =>
    cases h' with
    | unary _ hw' =>
      simp only [spelled, Token.allLexed_cons] at hlexed hlexed'
      simp only [form, Form.same_list_iff, List.forall₂_cons] at hsame
      obtain ⟨hop, hoperand, -⟩ := hsame
      exact .unary hop (ih hw' hlexed.2 hlexed'.2 hoperand (hw.shape_eq hw' hoperand))
    | _ => cases hshape
  | binary _ hw hv ihleft ihright =>
    cases h' with
    | binary _ hw' hv' =>
      simp only [spelled, Token.allLexed_cons, Token.allLexed_append] at hlexed hlexed'
      simp only [form, Form.same_list_iff, List.forall₂_cons] at hsame
      obtain ⟨hop, hleft, hright, -⟩ := hsame
      exact .binary hop (ihleft hw' hlexed.1 hlexed'.1 hleft (hw.shape_eq hw' hleft))
        (ihright hv' hlexed.2.2 hlexed'.2.2 hright (hv.shape_eq hv' hright))
    | _ => cases hshape
  | logical _ hw hv ihleft ihright =>
    cases h' with
    | logical _ hw' hv' =>
      simp only [spelled, Token.allLexed_cons, Token.allLexed_append] at hlexed hlexed'
      simp only [form, Form.same_list_iff, List.forall₂_cons] at hsame
      obtain ⟨hop, hleft, hright, -⟩ := hsame
      exact .logical hop (ihleft hw' hlexed.1 hlexed'.1 hleft (hw.shape_eq hw' hleft))
        (ihright hv' hlexed.2.2 hlexed'.2.2 hright (hv.shape_eq hv' hright))
    | _ => cases hshape
  | assign _ hw ih =>
    cases h' with
    | assign _ hw' =>
      simp only [spelled, Token.allLexed_cons] at hlexed hlexed'
      simp only [form, Form.same_list_iff, Form.same_atom_iff, List.forall₂_cons] at hsame
      obtain ⟨-, hname, hvalue, -⟩ := hsame
      exact .assign hname (ih hw' hlexed.2.2 hlexed'.2.2 hvalue (hw.shape_eq hw' hvalue))
    | _ => cases hshape
  | call hw hparen hws _ ih ihs =>
    cases h' with
    | call hw' hparen' hws' _ =>
      simp only [spelled, Token.allLexed_cons, Token.allLexed_append, allLexed_spelledItems,
        Token.allLexed_nil, and_true] at hlexed hlexed'
      obtain ⟨hcallee, -, hitems, hclose⟩ := hlexed
      obtain ⟨hcallee', -, hitems', hclose'⟩ := hlexed'
      simp only [form, Form.same_list_iff, List.forall₂_cons, formEach_eq_map,
        List.forall₂_map_left_iff, List.forall₂_map_right_iff] at hsame
      obtain ⟨-, hfirst, hothers⟩ := hsame
      obtain ⟨hlength, hothers⟩ := List.forall₂_iff_zip.1 hothers
      refine .call (ih hw' hcallee hcallee' hfirst (hw.shape_eq hw' hfirst)) ?_ ?_
      -- the form leaves out the parenthesis, but there is only one way to write it
      · have hlexeme := hclose.lexeme_of_rightParen hparen
        exact ⟨hparen'.trans hparen.symm, (hclose'.lexeme_of_rightParen hparen').trans hlexeme.symm⟩
      · refine List.forall₂_iff_zip.2 ⟨hlength, fun hmem => ?_⟩
        obtain ⟨ha, ha'⟩ := List.of_mem_zip hmem
        exact ihs _ ha (hws' _ ha') (hitems _ ha) (hitems' _ ha') (hothers hmem)
          ((hws _ ha).shape_eq (hws' _ ha') (hothers hmem))
    | _ => cases hshape

mutual

/-- The text of an expression does not show lines. -/
theorem Like.text_eq : ∀ {e e' : Expr}, Like .upToLines e e' → e'.text = e.text
  | _, _, .literal h => by
    cases h with
    | number h => rw [show _ = _ from h]
    | nil | bool | string => rfl
  | _, _, .grouping h => by simp only [text, h.text_eq]
  | _, _, .unary hop h => by simp only [text, hop.2, h.text_eq]
  | _, _, .binary hop hleft hright | _, _, .logical hop hleft hright => by
    simp only [text, hop.2, hleft.text_eq, hright.text_eq]
  | _, _, .variable hname => hname.2
  | _, _, .assign hname h => by simp only [text, hname.2, h.text_eq]
  | _, _, .call hcallee _ harguments => by
    simp only [text, hcallee.text_eq, textEach_eq_of_like harguments]

theorem textEach_eq_of_like : ∀ {es es' : List Expr}, List.Forall₂ (Like .upToLines) es es' →
    textEach es' = textEach es
  | _, _, .nil => rfl
  | _, _, .cons h hs => by simp only [textEach, h.text_eq, textEach_eq_of_like hs]

end

/-- Expressions that can be read have the same text just if they are the same. -/
theorem Derived.text_eq_iff (hA : A.ReadsBack) {e e' : Expr} (h : e.Derived A) (h' : e'.Derived A)
    (hfinite : Number.AllFinite e.numbers) (hfinite' : Number.AllFinite e'.numbers) :
    e.text = e'.text ↔ Like .upToLines e e' := by
  refine ⟨fun htext => ?_, fun hlike => hlike.text_eq.symm⟩
  have hlexed := h.spelled hA hfinite
  have hlexed' := h'.spelled hA hfinite'
  have hforms : e.form.text ++ [] = e'.form.text ++ [] := by
    rw [← e.toList_text, ← e'.toList_text, htext]
  have hstops : Piece.Stops [] := by simp [Piece.Stops]
  have hsame := Form.same_of_append (h.wellFormed.form_lexed hlexed) (h'.wellFormed.form_lexed hlexed')
    hstops hstops hforms
  exact h.wellFormed.like_of_same h'.wellFormed hlexed hlexed' hsame.1

end Expr

/-- Two expressions that occur anywhere in accepted scripts, with finite literals, have the same text just
if they differ in nothing but the lines of their tokens. -/
theorem Program.text_eq_iff_like {source source' : String} {p p' : Program}
    (hp : Program.ofSource .binary64 source = .ok p) (hp' : Program.ofSource .binary64 source' = .ok p')
    {e e' : Expr} (he : e ∈ p.nodes) (he' : e' ∈ p'.nodes) (hfinite : Number.AllFinite e.numbers)
    (hfinite' : Number.AllFinite e'.numbers) :
    e.text = e'.text ↔ Expr.Like .upToLines e e' :=
  (Program.derived_of_ofSource hp he).text_eq_iff Arithmetic.binary64_readsBack
    (Program.derived_of_ofSource hp' he') hfinite hfinite'

/-- A string with a blank and a parenthesis in it, a number that is written in two ways, and a variable
that is called like the head of a grouping, in a call on one line and in a call on two. -/
theorem Program.text_eq_iff_like_group :
    ∃ p p' e e', Program.ofSource .binary64 "print group(\"a (b\", -1.50);" = .ok p ∧
      Program.ofSource .binary64 "x = (group(\"a (b\",\n-1.5));" = .ok p' ∧ e ∈ p.nodes ∧ e' ∈ p'.nodes ∧
      Number.AllFinite e.numbers ∧ Number.AllFinite e'.numbers ∧ e.text = e'.text ∧
      Expr.Like .upToLines e e' := by
  obtain ⟨x, hx⟩ : ∃ x, x = Number.ofDecimal ⟨150, 2⟩ := ⟨_, rfl⟩
  have hx' : x = Number.ofDecimal ⟨15, 1⟩ := hx.trans (by decide +kernel)
  have hscan : Scan.ofSource .binary64 "print group(\"a (b\", -1.50);" =
      ⟨[⟨.keyword .print, "print", 1⟩, ⟨.identifier, "group", 1⟩, ⟨.leftParen, "(", 1⟩,
        ⟨.string "a (b", "\"a (b\"", 1⟩, ⟨.comma, ",", 1⟩, ⟨.minus, "-", 1⟩, ⟨.number x, "1.50", 1⟩,
        ⟨.rightParen, ")", 1⟩, ⟨.semicolon, ";", 1⟩, Token.ending 1], []⟩ := by
    rw [hx]
    decide +kernel
  have hscan' : Scan.ofSource .binary64 "x = (group(\"a (b\",\n-1.5));" =
      ⟨[⟨.identifier, "x", 1⟩, ⟨.equal, "=", 1⟩, ⟨.leftParen, "(", 1⟩, ⟨.identifier, "group", 1⟩,
        ⟨.leftParen, "(", 1⟩, ⟨.string "a (b", "\"a (b\"", 1⟩, ⟨.comma, ",", 1⟩, ⟨.minus, "-", 2⟩,
        ⟨.number x, "1.5", 2⟩, ⟨.rightParen, ")", 2⟩, ⟨.rightParen, ")", 2⟩, ⟨.semicolon, ";", 2⟩,
        Token.ending 2], []⟩ := by
    rw [hx']
    decide +kernel
  have hfinite : Number.AllFinite [x] := by
    rw [hx]
    have hnumber : (Number.ofDecimal ⟨150, 2⟩).isFinite := by decide +kernel
    exact List.forall_mem_singleton.2 hnumber
  let e (line : Nat) : Expr := .call (.variable ⟨.identifier, "group", 1⟩) ⟨.rightParen, ")", line⟩
    [.literal (.string "a (b"), .unary ⟨.minus, "-", line⟩ (.literal (.number x))]
  let p : Program := [.print (e 1)]
  let p' : Program := [.expression (.assign ⟨.identifier, "x", 1⟩ (.grouping (e 2)))]
  have hp : Program.ofSource .binary64 "print group(\"a (b\", -1.50);" = .ok p := by
    rw [Program.ofSource, hscan]
    cbv
  have hp' : Program.ofSource .binary64 "x = (group(\"a (b\",\n-1.5));" = .ok p' := by
    rw [Program.ofSource, hscan']
    cbv
  have he : e 1 ∈ p.nodes := by simp [p, e, Program.nodes, Stmt.nodesEach, Stmt.nodes, Expr.nodes]
  have he' : e 2 ∈ p'.nodes := by simp [p', e, Program.nodes, Stmt.nodesEach, Stmt.nodes, Expr.nodes]
  have htext : (e 1).text = (e 2).text := rfl
  exact ⟨p, p', e 1, e 2, hp, hp', he, he', hfinite, hfinite, htext,
    (text_eq_iff_like hp hp' he he' hfinite hfinite).1 htext⟩

end LoxScript
