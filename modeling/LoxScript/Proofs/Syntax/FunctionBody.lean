import LoxScript.Proofs.Syntax.Cut

/-!
# Open function bodies

A function body is open behind a list of tokens if somewhere in it there is the head of a function
declaration, up to the opening brace, and the brace has not been closed. This is about the tokens alone, and
does not depend on how they are read.

What is passed as a whole opens no function body, since a declaration closes each brace that it opens.

## Main definitions

* `Grammar.OpenBody`: a function body is open behind the text.
* `Grammar.Sealed`: a text that opens no function body, whatever follows it.

## Main statements

* `Grammar.sealed_function`: a whole function declaration opens no function body.
-/

namespace LoxScript.Grammar

/-- A brace that is open in front of the text is still open behind it. -/
def KeepsOpen (w : List Token) : Prop := ∀ u, u <+: w → u.foldl depthBehind 1 ≠ 0

/-- Behind the text a function body is open: the brace at the end of the head of a function declaration has
not been closed. -/
inductive OpenBody : List Token → Prop where
  | head {keyword name l r brace : Token} {u w names v : List Token} {faults : List SyntaxError}
      (htext : u = name :: l :: (w ++ r :: brace :: v)) (hkeyword : keyword.kind = .keyword .fun)
      (hname : name.kind = .identifier) (hl : l.kind = .leftParen) (hnames : Parameters w names faults)
      (hr : r.kind = .rightParen) (hbrace : brace.kind = .leftBrace) (hopen : KeepsOpen v) :
      OpenBody (keyword :: u)
  | behind {t : Token} {w : List Token} (h : OpenBody w) : OpenBody (t :: w)

/-- No function body that is open behind a longer text was opened in `w`. -/
def Sealed (w : List Token) : Prop := ∀ v, OpenBody (w ++ v) → OpenBody v

/-- As long as no brace is closed, all stay open. -/
theorem keepsOpen_of_no_close {w : List Token} (h : ∀ t ∈ w, t.kind ≠ .rightBrace) : KeepsOpen w := by
  have hle (u : List Token) (hu : ∀ t ∈ u, t.kind ≠ .rightBrace) (depth : Nat) :
      depth ≤ u.foldl depthBehind depth := by
    induction u generalizing depth with
    | nil => exact Nat.le_refl _
    | cons t u ih =>
      obtain ⟨ht, hu⟩ := List.forall_mem_cons.1 hu
      refine Nat.le_trans ?_ (ih hu _)
      unfold depthBehind
      split
      · exact Nat.le_succ depth
      · exact Nat.le_refl depth
  intro u hu hzero
  have hone := hle u (fun t ht => h t (hu.subset ht)) 1
  omega

theorem not_openBody_nil : ¬ OpenBody [] := nofun

theorem sealed_nil : Sealed [] := fun _ h => h

theorem Sealed.append {w v : List Token} (hw : Sealed w) (hv : Sealed v) : Sealed (w ++ v) := by
  intro u h
  rw [List.append_assoc] at h
  exact hv u (hw (v ++ u) h)

/-- The head of a declaration begins with its keyword. -/
theorem sealed_of_no_keyword {w : List Token} (h : ∀ t ∈ w, t.kind ≠ .keyword .fun) : Sealed w := by
  intro v hopen
  induction w with
  | nil => exact hopen
  | cons t w ih =>
    obtain ⟨ht, hw⟩ := List.forall_mem_cons.1 h
    cases hopen with
    | head _ hkeyword => exact absurd hkeyword ht
    | behind hopen => exact ih hw hopen

theorem sealed_singleton {t : Token} (h : t.kind ≠ .keyword .fun) : Sealed [t] :=
  sealed_of_no_keyword (List.forall_mem_singleton.2 h)

/-! ## Whole function declarations -/

/-- Farther outside fewer braces are open. -/
theorem foldl_depthBehind_mono (w : List Token) {depth outer : Nat} (h : outer ≤ depth) :
    w.foldl depthBehind outer ≤ w.foldl depthBehind depth := by
  induction w generalizing depth outer with
  | nil => exact h
  | cons t w ih =>
    apply ih
    unfold depthBehind
    split
    · omega
    · split <;> omega

/-- A balanced text that ends with a closing brace opens no function body: it closes the brace of every head
that is in it, and no head reaches beyond its end. -/
theorem sealed_of_balanced {w : List Token} {close : Token} (hclose : close.kind = .rightBrace)
    (hbalanced : Balanced (w ++ [close])) : Sealed (w ++ [close]) := by
  intro u hopen
  -- the heads are looked for from the first token on, and `x` has none
  suffices h : ∀ x y, w ++ [close] = x ++ y → OpenBody (y ++ u) → OpenBody u from h [] _ rfl hopen
  intro x y hsplit hopen
  induction y generalizing x with
  | nil => exact hopen
  | cons t y ih =>
    cases hopen with
    | behind hopen => exact ih (x ++ [t]) (by simpa using hsplit) hopen
    | @head _ name l r brace _ params names v faults htext hkeyword hname hl hnames hr hbrace hkeeps =>
      replace htext : y ++ u = name :: l :: (params ++ r :: brace :: v) := htext
      let signature := t :: name :: l :: (params ++ [r])
      have hflat : ∀ t ∈ signature, Flat t.kind := flat_signature hkeyword hname hl hnames hr
      have hhead : (t :: y) ++ u = (signature ++ [brace]) ++ v := by simp [htext, signature]
      rcases List.append_eq_append_iff.1 hhead with ⟨z, hz, -⟩ | ⟨z, hz, hv⟩
      · -- the head would reach beyond the closing brace, but there is none in a head
        have hlast : (t :: y).getLast? = some close := by
          simpa using (congrArg List.getLast? hsplit).symm
        have hmem : close ∈ signature ++ [brace] :=
          hz ▸ List.mem_append_left z (List.mem_of_getLast? hlast)
        rcases List.mem_append.1 hmem with hmem | hmem
        · simpa [Flat, hclose] using hflat close hmem
        · rw [List.mem_singleton.1 hmem, hbrace] at hclose
          cases hclose
      · -- the head is in the text, and so is the end of its body
        have hdepth : z.foldl depthBehind (x.foldl depthBehind 0 + 1) = 0 := by
          have hzero := hbalanced 0
          rw [hsplit, hz, List.foldl_append, List.foldl_append, List.foldl_append,
            balanced_of_flat hflat] at hzero
          simpa [depthBehind, hbrace] using hzero
        have hmono := foldl_depthBehind_mono z (Nat.le_add_left 1 (x.foldl depthBehind 0))
        exact absurd (Nat.le_zero.1 (hdepth ▸ hmono)) (hkeeps z ⟨u, hv.symm⟩)

/-- A whole function declaration opens no function body. -/
theorem sealed_function {f dangling : Bool} {keyword : Token} {w : List Token} {s : Stmt}
    {faults : List SyntaxError} (hkeyword : keyword.kind = .keyword .fun)
    (h : Declaration f dangling (keyword :: w) s faults) : Sealed (keyword :: w) := by
  have hbalanced := h.balanced
  generalize htext : keyword :: w = text at h hbalanced
  cases h with
  | varDeclaration hvar =>
    obtain ⟨rfl, -⟩ := List.cons.inj htext
    rw [hkeyword] at hvar
    cases hvar
  | @funDeclaration _ _ name l r brace close params v _ _ _ _ _ _ _ _ _ _ _ hclose =>
    have hlast (keyword : Token) : keyword :: name :: l :: (params ++ r :: brace :: (v ++ [close])) =
        (keyword :: name :: l :: (params ++ r :: brace :: v)) ++ [close] := by simp
    rw [hlast] at hbalanced ⊢
    exact sealed_of_balanced hclose hbalanced
  | statement hs =>
    obtain ⟨t, v, hv, ht⟩ := hs.starts
    obtain ⟨rfl, -⟩ := List.cons.inj (htext.trans hv)
    simp [StartsStatement, StartsPhrase, StartsPrimary, literal?, hkeyword] at ht

end LoxScript.Grammar
