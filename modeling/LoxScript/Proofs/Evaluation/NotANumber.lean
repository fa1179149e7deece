import LoxScript.Proofs.Evaluation.Lines

/-!
# Patterns that are not a number

No program can tell the patterns apart that are not a number. Two ways to compute may leave different ones,
and different signs, where there is no number; all that is printed, and all errors, are the same.

## Main definitions

* `Number.AgreesUpToNaN`, `Arithmetic.AgreesUpToNaN`: the same numbers, where there is a number.
* `Likeness.upToNaN`: tokens and numbers that differ in such patterns.
* `Session.EndsEach`: scripts that run in a session, one after the other.

## Main statements

* `Scan.ofSource_like`: one script, read with two ways to compute.
* `Session.endsEach_upToNaN`: the scripts of a session, run with two ways to compute.
-/

namespace LoxScript

/-! ## Numbers -/

/-- The same pattern, or two patterns that are not a number. -/
inductive Number.AgreesUpToNaN : Number → Number → Prop where
  | same (a : Number) : AgreesUpToNaN a a
  | nan {a b : Number} (ha : a.isNaN) (hb : b.isNaN) : AgreesUpToNaN a b

namespace Number.AgreesUpToNaN

variable {a b c d : Number}

theorem symm (h : a.AgreesUpToNaN b) : b.AgreesUpToNaN a := by
  cases h with
  | same => exact .same a
  | nan ha hb => exact .nan hb ha

theorem trans (h : a.AgreesUpToNaN b) (h' : b.AgreesUpToNaN c) : a.AgreesUpToNaN c := by
  cases h with
  | same => exact h'
  | nan ha hb =>
    cases h' with
    | same => exact .nan ha hb
    | nan _ hc => exact .nan ha hc

/-- Numbers agree exactly if they are the same to a program. -/
theorem iff_same : a.AgreesUpToNaN b ↔ a.same b := by
  constructor
  · rintro (_ | ⟨ha, hb⟩) <;> simp [Number.same, *]
  · intro h
    simp only [Number.same, Bool.or_eq_true, Bool.and_eq_true, decide_eq_true_eq] at h
    rcases h with ⟨ha, hb⟩ | h
    · exact .nan ha hb
    · obtain ⟨bits⟩ := a
      obtain ⟨bits'⟩ := b
      obtain rfl : bits = bits' := h
      exact .same _

/-- No order holds with a pattern that is not a number. -/
theorem less_eq (h : a.AgreesUpToNaN b) (h' : c.AgreesUpToNaN d) : b.less d = a.less c := by
  cases h <;> cases h' <;> simp [less, *]

theorem atMost_eq (h : a.AgreesUpToNaN b) (h' : c.AgreesUpToNaN d) : b.atMost d = a.atMost c := by
  cases h <;> cases h' <;> simp [atMost, *]

theorem same_eq (h : a.AgreesUpToNaN b) (h' : c.AgreesUpToNaN d) : b.same d = a.same c := by
  rw [Bool.eq_iff_iff, ← iff_same, ← iff_same]
  exact ⟨fun hbd => (h.trans hbd).trans h'.symm, fun hac => (h.symm.trans hac).trans h'⟩

theorem text_eq (h : a.AgreesUpToNaN b) (word : String) : b.text word = a.text word := by
  cases h with
  | same => rfl
  | nan ha hb => simp [text, ha, hb]

end Number.AgreesUpToNaN

/-- Two ways to compute that agree where there is a number, also for operands that are not a number on either
side. -/
structure Arithmetic.AgreesUpToNaN (A A' : Arithmetic) : Prop where
  ofDecimal : ∀ d, (A.ofDecimal d).AgreesUpToNaN (A'.ofDecimal d)
  neg : ∀ {a b}, a.AgreesUpToNaN b → (A.neg a).AgreesUpToNaN (A'.neg b)
  add : ∀ {a b c d}, a.AgreesUpToNaN b → c.AgreesUpToNaN d → (A.add a c).AgreesUpToNaN (A'.add b d)
  sub : ∀ {a b c d}, a.AgreesUpToNaN b → c.AgreesUpToNaN d → (A.sub a c).AgreesUpToNaN (A'.sub b d)
  mul : ∀ {a b c d}, a.AgreesUpToNaN b → c.AgreesUpToNaN d → (A.mul a c).AgreesUpToNaN (A'.mul b d)
  div : ∀ {a b c d}, a.AgreesUpToNaN b → c.AgreesUpToNaN d → (A.div a c).AgreesUpToNaN (A'.div b d)

/-! ### Arithmetics that differ -/

/-- The number, or `nan` in the place of a pattern that is none. -/
def Number.orNaN (nan x : Number) : Number := if x.isNaN then nan else x

/-- The operation that leaves the pattern `nan` wherever there is no number. All operands that are not a number
are taken as the same one. -/
def Number.leaving (nan : Number) (compute : Number → Number → Number) (x y : Number) : Number :=
  let quiet : Number := ⟨0x7ff8000000000000⟩
  nan.orNaN (compute (quiet.orNaN x) (quiet.orNaN y))

/-- The arithmetic that leaves the pattern `nan` wherever there is no number. -/
def Arithmetic.leaving (nan : Number) (A : Arithmetic) : Arithmetic where
  ofDecimal d := nan.orNaN (A.ofDecimal d)
  neg x := nan.leaving (fun x _ => A.neg x) x x
  add := nan.leaving A.add
  sub := nan.leaving A.sub
  mul := nan.leaving A.mul
  div := nan.leaving A.div

section Leaving

variable {nan nan' : Number} (h : nan.isNaN) (h' : nan'.isNaN)

theorem Number.AgreesUpToNaN.orNaN_eq {a b : Number} (hab : a.AgreesUpToNaN b) (nan : Number) :
    nan.orNaN b = nan.orNaN a := by
  cases hab with
  | same => rfl
  | nan ha hb => simp [Number.orNaN, ha, hb]

include h h'

theorem Number.orNaN_agrees (x : Number) : (nan.orNaN x).AgreesUpToNaN (nan'.orNaN x) := by
  unfold orNaN
  split
  · exact .nan h h'
  · exact .same x

theorem Number.leaving_agrees (compute : Number → Number → Number) {a b c d : Number}
    (hab : a.AgreesUpToNaN b) (hcd : c.AgreesUpToNaN d) :
    (nan.leaving compute a c).AgreesUpToNaN (nan'.leaving compute b d) := by
  unfold leaving
  dsimp only
  rw [hab.orNaN_eq, hcd.orNaN_eq]
  exact orNaN_agrees h h' _

/-- Which pattern is left where there is no number is what arithmetics may differ in. -/
theorem Arithmetic.leaving_agrees (A : Arithmetic) : (A.leaving nan).AgreesUpToNaN (A.leaving nan') where
  ofDecimal d := Number.orNaN_agrees h h' (A.ofDecimal d)
  neg hab := Number.leaving_agrees h h' (fun x _ => A.neg x) hab hab
  add hab hcd := Number.leaving_agrees h h' A.add hab hcd
  sub hab hcd := Number.leaving_agrees h h' A.sub hab hcd
  mul hab hcd := Number.leaving_agrees h h' A.mul hab hcd
  div hab hcd := Number.leaving_agrees h h' A.div hab hcd

end Leaving

/-! ### Likeness -/

/-- Tokens with the same text in the same place that are of the same kind, but for the pattern of a literal,
and numbers, may stand for each other as far as they agree. -/
def Likeness.upToNaN : Likeness where
  token t u := u.lexeme = t.lexeme ∧ u.line = t.line ∧
    (u.kind = t.kind ∨ ∃ a b, t.kind = .number a ∧ u.kind = .number b ∧ a.AgreesUpToNaN b)
  number := Number.AgreesUpToNaN
  within _ := True

theorem Likeness.kind_upToNaN {t u : Token} (h : Likeness.upToNaN.token t u) :
    Token.Kind.Like .upToNaN t.kind u.kind := by
  obtain ⟨-, -, hkind | ⟨a, b, ht, hu, hab⟩⟩ := h
  · rw [hkind]
    cases t.kind with
    | number value => exact .number (.same value)
    | _ => exact .same (by simp)
  · rw [ht, hu]
    exact .number hab

theorem Likeness.upToNaN_lawful {A A' : Arithmetic} (h : A.AgreesUpToNaN A') :
    Likeness.upToNaN.Lawful A A' where
  kind := Likeness.kind_upToNaN
  lexeme h := h.1
  neg := h.neg
  add := h.add
  sub := h.sub
  mul := h.mul
  div := h.div
  less := Number.AgreesUpToNaN.less_eq
  atMost := Number.AgreesUpToNaN.atMost_eq
  same := Number.AgreesUpToNaN.same_eq
  text h := h.text_eq "Infinity"

theorem Likeness.upToNaN_reflexive : Likeness.upToNaN.Reflexive :=
  ⟨fun _ => ⟨rfl, rfl, .inl rfl⟩, .same⟩

/-! ## Scanning -/

section Scanning

variable (A A' : Arithmetic)

/-- The same piece, but for the number that a literal denotes. -/
inductive Piece.SameText : Piece → Piece → Prop where
  | same (piece : Piece) : SameText piece piece
  | number (d : Decimal) (lexeme : List Char) :
      SameText (.token (.number (A.ofDecimal d)) lexeme) (.token (.number (A'.ofDecimal d)) lexeme)

namespace Piece

/-- Only a literal is read by computing. -/
theorem first_sameText (c : Char) (rest : List Char) :
    SameText A A' (first A c rest).1 (first A' c rest).1 ∧ (first A' c rest).2 = (first A c rest).2 := by
  unfold first
  split
  · exact ⟨.same _, rfl⟩
  split
  · exact ⟨.same _, rfl⟩
  split
  · exact ⟨.same _, rfl⟩
  split
  · exact ⟨.number _ _, rfl⟩
  split <;> exact ⟨.same _, rfl⟩

theorem split_sameText (text : List Char) :
    List.Forall₂ (SameText A A') (split A text) (split A' text) := by
  induction hn : text.length using Nat.strongRecOn generalizing text with
  | ind n ih =>
    cases text with
    | nil => exact .nil
    | cons c rest =>
      -- the first piece ends in the same place, whatever number it denotes
      obtain ⟨hfirst, hrest⟩ := first_sameText A A' c rest
      have hlength := length_first A c rest
      rw [List.length_cons] at hn
      rw [split_cons, split_cons, hrest]
      exact .cons hfirst (ih _ (by omega) _ rfl)

end Piece

namespace Scan

variable {K : Likeness} (htoken : ∀ t, K.token t t)
  (hnumber : ∀ d lexeme line, K.token ⟨.number (A.ofDecimal d), lexeme, line⟩
    ⟨.number (A'.ofDecimal d), lexeme, line⟩)

include htoken hnumber

theorem ofPieces_like {pieces pieces' : List Piece} (h : List.Forall₂ (Piece.SameText A A') pieces pieces')
    (line : Nat) : List.Forall₂ K.token (ofPieces line pieces).tokens (ofPieces line pieces').tokens ∧
      (ofPieces line pieces').errors = (ofPieces line pieces).errors := by
  induction h generalizing line with
  | nil => exact ⟨.cons (htoken _) .nil, rfl⟩
  | @cons piece _ _ _ hpiece _ ih =>
    unfold ofPieces
    cases hpiece with
    | number d lexeme =>
      obtain ⟨htokens, herrors⟩ := ih (line + Text.newlines lexeme)
      exact ⟨.cons (hnumber d _ _) htokens, herrors⟩
    | same =>
      obtain ⟨htokens, herrors⟩ := ih (line + Text.newlines piece.text)
      cases piece with
      | token => exact ⟨.cons (htoken _) htokens, herrors⟩
      | unexpected | unterminated => exact ⟨htokens, congrArg (_ :: ·) herrors⟩
      | blank | comment => exact ⟨htokens, herrors⟩

/-- A script has like tokens, and the same errors in its characters, whatever the arithmetic. -/
theorem ofSource_like (source : String) :
    List.Forall₂ K.token (ofSource A source).tokens (ofSource A' source).tokens ∧
      (ofSource A' source).errors = (ofSource A source).errors :=
  ofPieces_like A A' htoken hnumber (Piece.split_sameText A A' source.toList) 1

end Scan

end Scanning

/-! ## Failures -/

/-- Scripts that end in the same way, as far as it is told. -/
inductive Failure.SameEnd : Except Failure Unit → Except Failure Unit → Prop where
  | ok : SameEnd (.ok ()) (.ok ())
  | rejected {r r' : Rejection} (h : r'.diagnostics = r.diagnostics) :
      SameEnd (.error (.rejected r)) (.error (.rejected r'))
  | stopped (stop : Stop) : SameEnd (.error (.stopped stop)) (.error (.stopped stop))

theorem Failure.SameEnd.eq_of_stopped {r : Except Failure Unit} {stop : Stop}
    (h : SameEnd r (.error (.stopped stop))) : r = .error (.stopped stop) := by
  cases h
  rfl

theorem Failure.LikeEnd.sameEnd {r r' : Except Failure Unit} (h : Failure.LikeEnd .upToNaN r r') :
    Failure.SameEnd r r' := by
  cases h with
  | ok => exact .ok
  | rejected reason => exact .rejected rfl
  | stopped h =>
    cases h with
    | runtime problem h =>
      rw [h.2.1]
      exact .stopped _
    | outputRefused | malformed | exhausted => exact .stopped _

/-- Syntax errors blame the same place, whatever number stands there. -/
theorem SyntaxError.Like.diagnostic_eq {e e' : SyntaxError} (h : SyntaxError.Like .upToNaN e e') :
    e'.diagnostic = e.diagnostic := by
  cases h with
  | @mk problem t u h =>
    have hending : u.kind = .endOfInput ↔ t.kind = .endOfInput :=
      (Likeness.kind_upToNaN h).eq_iff (by simp)
    simp [SyntaxError.diagnostic, Token.location, hending, h.1, h.2.1]

/-! ## Sessions -/

theorem Arithmetic.AgreesUpToNaN.symm {A A' : Arithmetic} (h : A.AgreesUpToNaN A') :
    A'.AgreesUpToNaN A where
  ofDecimal d := (h.ofDecimal d).symm
  neg hab := (h.neg hab.symm).symm
  add hab hcd := (h.add hab.symm hcd.symm).symm
  sub hab hcd := (h.sub hab.symm hcd.symm).symm
  mul hab hcd := (h.mul hab.symm hcd.symm).symm
  div hab hcd := (h.div hab.symm hcd.symm).symm

namespace Session

variable {A A' : Arithmetic}

/-- The scripts run in the session one after the other, each to its end: how they end, and the session that
they leave. -/
inductive EndsEach (A : Arithmetic) :
    Session → List String → List (Except Failure Unit) → Session → Prop where
  | nil (s : Session) : EndsEach A s [] [] s
  | cons {s t u : Session} {source : String} {sources : List String} {r : Except Failure Unit}
      {rs : List (Except Failure Unit)} (h : s.Ends A source r t) (hrest : EndsEach A t sources rs u) :
      EndsEach A s (source :: sources) (r :: rs) u

/-- The scripts of a session do not end in two ways. -/
theorem EndsEach.unique {s t t' : Session} {sources : List String} {rs rs' : List (Except Failure Unit)}
    (h : s.EndsEach A sources rs t) (h' : s.EndsEach A sources rs' t') : rs' = rs ∧ t' = t := by
  induction h generalizing rs' with
  | nil =>
    cases h'
    exact ⟨rfl, rfl⟩
  | cons hfirst _ ih =>
    cases h' with
    | cons hfirst' hrest' =>
      obtain ⟨rfl, rfl⟩ := hfirst.unique hfirst'
      obtain ⟨rfl, rfl⟩ := ih hrest'
      exact ⟨rfl, rfl⟩

section Agreement

variable (h : A.AgreesUpToNaN A') {s s' t : Session} (hs : Session.Like .upToNaN s s')

include h hs

/-- A script that ends with one arithmetic ends with the other, in the same way. -/
theorem Ends.upToNaN {source : String} {r : Except Failure Unit} (hends : s.Ends A source r t) :
    ∃ r' t', s'.Ends A' source r' t' ∧ Failure.SameEnd r r' ∧ Session.Like .upToNaN t t' := by
  have hK := Likeness.upToNaN_lawful h
  obtain ⟨bound, hrun, hexhausted⟩ := hends
  -- numbers in the script are read alike, so the tokens are
  obtain ⟨htokens, herrors⟩ := Scan.ofSource_like A A' Likeness.upToNaN_reflexive.token
    (fun d _ _ => ⟨rfl, rfl, .inr ⟨_, _, rfl, rfl, h.ofDecimal d⟩⟩) source
  rcases Program.ofSource_alike hK htokens herrors with
    ⟨p, q, hp, hq, hlikes⟩ | ⟨reason, reason', hreason, hreason', hlike⟩
  · -- the same bound is enough on both sides
    obtain ⟨hend, hsession⟩ := runSource_alike hK hp hq hlikes hs bound
    rcases hrun' : s'.runSource A' bound source with ⟨r', t'⟩
    rw [hrun, hrun'] at hend hsession
    refine ⟨r', t', ⟨bound, hrun', ?_⟩, hend.sameEnd, hsession⟩
    rintro rfl
    exact hexhausted hend.sameEnd.eq_of_stopped
  · have hdiagnostics : reason'.diagnostics = reason.diagnostics := by
      simpa using hlike.diagnostics_map (f := id) SyntaxError.Like.diagnostic_eq
    unfold runSource at hrun
    simp only [hreason] at hrun
    obtain ⟨rfl, rfl⟩ := Prod.mk.inj hrun
    exact ⟨_, s', ⟨bound, by unfold runSource; simp only [hreason'], by simp⟩, .rejected hdiagnostics, hs⟩

theorem EndsEach.upToNaN {sources : List String} {rs : List (Except Failure Unit)}
    (hends : s.EndsEach A sources rs t) :
    ∃ rs' t', s'.EndsEach A' sources rs' t' ∧ List.Forall₂ Failure.SameEnd rs rs' ∧
      Session.Like .upToNaN t t' := by
  induction hends generalizing s' with
  | nil => exact ⟨[], s', .nil s', .nil, hs⟩
  | cons hfirst _ ih =>
    obtain ⟨r', t', hfirst', hsame, ht⟩ := hfirst.upToNaN h hs
    obtain ⟨rs', u', hrest', hsames, hu⟩ := ih ht
    exact ⟨r' :: rs', u', .cons hfirst' hrest', .cons hsame hsames, hu⟩

end Agreement

/-- No session can tell patterns apart that are not a number. Take two ways to compute that agree where there
is a number, a clock, a sink, and any scripts, run one after the other in a session of their own. All of them
end with the one arithmetic if they do with the other, and then each ends in the same way, and the same is
printed: what is rejected is rejected with the same diagnostics, and what stops does so for the same reason. -/
theorem endsEach_upToNaN (h : A.AgreesUpToNaN A') (clock : Clock) (sink : Sink)
    (sources : List String) :
    ((∃ rs t, (start clock sink).EndsEach A sources rs t) ↔
      ∃ rs t, (start clock sink).EndsEach A' sources rs t) ∧
    ∀ rs t rs' t', (start clock sink).EndsEach A sources rs t →
      (start clock sink).EndsEach A' sources rs' t' →
      List.Forall₂ Failure.SameEnd rs rs' ∧ t'.output = t.output := by
  have hs : Session.Like .upToNaN (start clock sink) (start clock sink) :=
    start_like_self Number.AgreesUpToNaN.same (fun _ => trivial) clock sink
  refine ⟨⟨?_, ?_⟩, ?_⟩
  · rintro ⟨rs, t, hends⟩
    obtain ⟨rs', t', hends', -⟩ := hends.upToNaN h hs
    exact ⟨rs', t', hends'⟩
  · rintro ⟨rs, t, hends⟩
    obtain ⟨rs', t', hends', -⟩ := hends.upToNaN h.symm hs
    exact ⟨rs', t', hends'⟩
  · intro rs t rs' t' hends hends'
    -- the run that corresponds to the first is the second, as scripts do not end in two ways
    obtain ⟨rs'', t'', hends'', hsames, ht⟩ := hends.upToNaN h hs
    obtain ⟨rfl, rfl⟩ := hends''.unique hends'
    exact ⟨hsames, ht.output⟩

/-- Zero by zero leaves a pattern with a sign or one without. Neither equality nor the text of what is computed
from it shows which. -/
theorem endsEach_upToNaN_zero_by_zero :
    let A := Arithmetic.binary64.leaving ⟨0x7ff8000000000000⟩
    let A' := Arithmetic.binary64.leaving ⟨0xfff8000000000000⟩
    let s := start (.stopped ⟨0⟩) .unlimited
    let sources := ["var x = 0 / 0;", "print x == -x;"]
    A.AgreesUpToNaN A' ∧ A.div ⟨0⟩ ⟨0⟩ ≠ A'.div ⟨0⟩ ⟨0⟩ ∧
      (∃ t, s.EndsEach A sources [.ok (), .ok ()] t ∧ t.output = "true\n") ∧
      ∃ rs' t', s.EndsEach A' sources rs' t' ∧ List.Forall₂ Failure.SameEnd [.ok (), .ok ()] rs' ∧
        t'.output = "true\n" := by
  intro A A' s sources
  have hagrees : A.AgreesUpToNaN A' := Arithmetic.binary64.leaving_agrees (by decide) (by decide)
  have hscan : Scan.ofSource A "var x = 0 / 0;" =
      ⟨[⟨.keyword .var, "var", 1⟩, ⟨.identifier, "x", 1⟩, ⟨.equal, "=", 1⟩, ⟨.number ⟨0⟩, "0", 1⟩,
        ⟨.slash, "/", 1⟩, ⟨.number ⟨0⟩, "0", 1⟩, ⟨.semicolon, ";", 1⟩, Token.ending 1], []⟩ := by
    decide +kernel
  have hscan' : Scan.ofSource A "print x == -x;" =
      ⟨[⟨.keyword .print, "print", 1⟩, ⟨.identifier, "x", 1⟩, ⟨.equalEqual, "==", 1⟩, ⟨.minus, "-", 1⟩,
        ⟨.identifier, "x", 1⟩, ⟨.semicolon, ";", 1⟩, Token.ending 1], []⟩ := by decide +kernel
  let x : Token := ⟨.identifier, "x", 1⟩
  let zero : Expr := .literal (.number ⟨0⟩)
  let p : Program := [.var x (some (.binary ⟨.slash, "/", 1⟩ zero zero))]
  let q : Program := [.print (.binary ⟨.equalEqual, "==", 1⟩ (.variable x)
    (.unary ⟨.minus, "-", 1⟩ (.variable x)))]
  have hp : Program.ofSource A "var x = 0 / 0;" = .ok p := by
    rw [Program.ofSource, hscan]
    rfl
  have hq : Program.ofSource A "print x == -x;" = .ok q := by
    rw [Program.ofSource, hscan']
    rfl
  have hfirst := Ends.of_isOk hp 5 (s := s) (by decide +kernel)
  have hsecond := Ends.of_isOk hq 5 (s := (s.run (Eval.executeEach A 5 p)).2) (by decide +kernel)
  have hends : s.EndsEach A sources [.ok (), .ok ()] _ := .cons hfirst (.cons hsecond (.nil _))
  have houtput : ((s.run (Eval.executeEach A 5 p)).2.run (Eval.executeEach A 5 q)).2.output = "true\n" := by
    decide +kernel
  obtain ⟨hboth, hsame⟩ := endsEach_upToNaN hagrees (.stopped ⟨0⟩) .unlimited sources
  obtain ⟨rs', t', hends'⟩ := hboth.1 ⟨_, _, hends⟩
  obtain ⟨hsames, houtput'⟩ := hsame _ _ _ _ hends hends'
  exact ⟨hagrees, by decide +kernel, ⟨_, hends, houtput⟩, rs', t', hends', hsames, houtput'.trans houtput⟩

end Session

end LoxScript
