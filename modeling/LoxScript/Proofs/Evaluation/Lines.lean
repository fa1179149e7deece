import LoxScript.Proofs.Evaluation.Join
import LoxScript.Proofs.Evaluation.Reflexive
import LoxScript.Proofs.Syntax.ReadAlike

/-!
# Scripts on other lines

How a script is laid out has no meaning. Two scripts with the same tokens on different lines are read in the
same way, and they run in the same way. Only where an error is said to stand may differ.

## Main definitions

* `Likeness.anyLine`: tokens that differ in nothing but their lines.

## Main statements

* `Session.runSource_alike`: scripts with like trees, in like sessions.
* `Session.runSource_layout`: scripts with the same tokens on different lines.
-/

namespace LoxScript

/-- Tokens of the same kind with the same text may stand for each other, on whatever lines. Nothing else may
differ. -/
def Likeness.anyLine : Likeness where
  token t u := u.kind = t.kind ∧ u.lexeme = t.lexeme
  number := Eq
  within _ := True

theorem Likeness.anyLine_lawful (A : Arithmetic) : Likeness.anyLine.Lawful A A :=
  Likeness.lawful_of_lines A fun _ _ h => h

theorem Likeness.anyLine_reflexive : Likeness.anyLine.Reflexive :=
  ⟨fun _ => ⟨rfl, rfl⟩, fun _ => rfl⟩

/-! ## Rejected scripts -/

/-- What the diagnostics of like errors have in common, those of like rejections have in common. -/
theorem Rejection.Like.diagnostics_map {K : Likeness} {α : Type} {f : Diagnostic → α} {r r' : Rejection}
    (h : Rejection.Like K r r')
    (hf : ∀ {e e'}, SyntaxError.Like K e e' → f e'.diagnostic = f e.diagnostic) :
    r'.diagnostics.map f = r.diagnostics.map f := by
  have hsyntactic : r'.syntactic.map (f ·.diagnostic) = r.syntactic.map (f ·.diagnostic) := by
    have herrors := h.syntactic
    generalize r.syntactic = errors at herrors
    generalize r'.syntactic = errors' at herrors
    induction herrors with
    | nil => rfl
    | cons he _ ih => rw [List.map_cons, List.map_cons, hf he, ih]
  unfold diagnostics
  rw [List.map_append, List.map_append, List.map_map, List.map_map, List.map_map, List.map_map, h.lexical]
  exact congrArg _ hsyntactic

/-- A syntax error says the same at the same place, but for the line. -/
theorem SyntaxError.Like.place {e e' : SyntaxError} (h : SyntaxError.Like .anyLine e e') :
    (e'.diagnostic.location, e'.diagnostic.message) = (e.diagnostic.location, e.diagnostic.message) := by
  obtain ⟨problem, hkind, hlexeme⟩ := h
  simp [SyntaxError.diagnostic, Token.location, hkind, hlexeme]

/-! ## Running scripts -/

namespace Session

/-- Scripts with like trees run alike in like sessions. -/
theorem runSource_alike {K : Likeness} {A A' : Arithmetic} (hK : K.Lawful A A') {a b : String}
    {p q : Program} (ha : Program.ofSource A a = .ok p) (hb : Program.ofSource A' b = .ok q)
    (hlikes : List.Forall₂ (Stmt.Like K) p q) {s s' : Session} (hs : Session.Like K s s') (bound : Nat) :
    Failure.LikeEnd K (s.runSource A bound a).1 (s'.runSource A' bound b).1 ∧
      Session.Like K (s.runSource A bound a).2 (s'.runSource A' bound b).2 := by
  obtain ⟨houtcome, hsession, -⟩ := (Eval.alike hK bound).executeEach hlikes hs
  unfold runSource
  simp only [ha, hb, interpret_eq]
  exact ⟨ended_like houtcome, hsession⟩

/-- Two scripts without errors in their characters, and with tokens of the same kinds and with the same
texts, on whatever lines, are both accepted or both rejected.

* If they are accepted, their trees are the same up to the lines of tokens. In any session the native
  functions of which do not tell the lines in a function apart, both run alike under every bound, also where
  the bound is reached: they end in the same way up to the line of a runtime error, with the same output, and
  leave the same session up to the lines of tokens.
* If they are rejected, the errors are at the same places with the same messages, in the same order. -/
theorem runSource_layout {A : Arithmetic} {a b : String} (ha : (Scan.ofSource A a).errors = [])
    (hb : (Scan.ofSource A b).errors = [])
    (htokens : List.Forall₂ Likeness.anyLine.token (Scan.ofSource A a).tokens (Scan.ofSource A b).tokens) :
    (∃ p q, Program.ofSource A a = .ok p ∧ Program.ofSource A b = .ok q ∧
      List.Forall₂ (Stmt.Like .anyLine) p q ∧
      ∀ s : Session, (∀ native ∈ s.natives, native.Respects .anyLine) → ∀ bound,
        Failure.LikeEnd .anyLine (s.runSource A bound a).1 (s.runSource A bound b).1 ∧
        (s.runSource A bound b).2.output = (s.runSource A bound a).2.output ∧
        Session.Like .anyLine (s.runSource A bound a).2 (s.runSource A bound b).2) ∨
    ∃ r r', Program.ofSource A a = .error r ∧ Program.ofSource A b = .error r' ∧
      r'.diagnostics.map (fun d => (d.location, d.message)) =
        r.diagnostics.map fun d => (d.location, d.message) := by
  have hK := Likeness.anyLine_lawful A
  rcases Program.ofSource_alike hK htokens (hb.trans ha.symm) with
    ⟨p, q, hp, hq, hlikes⟩ | ⟨r, r', hr, hr', hlike⟩
  · refine .inl ⟨p, q, hp, hq, hlikes, fun s hnatives bound => ?_⟩
    have hs := Likeness.anyLine_reflexive.session (fun _ => trivial) hnatives
    obtain ⟨hend, hsession⟩ := runSource_alike hK hp hq hlikes hs bound
    exact ⟨hend, hsession.output, hsession⟩
  · exact .inr ⟨r, r', hr, hr', hlike.diagnostics_map SyntaxError.Like.place⟩

/-- The same two statements on two lines, and on four. -/
theorem runSource_layout_four_lines :
    let s := start (.stopped ⟨0⟩) .unlimited
    let a := "print nil;\nprint y;"
    let b := "print\nnil; print\n\ny;"
    (Scan.ofSource .binary64 a).errors = [] ∧ (Scan.ofSource .binary64 b).errors = [] ∧
      List.Forall₂ Likeness.anyLine.token (Scan.ofSource .binary64 a).tokens
        (Scan.ofSource .binary64 b).tokens ∧
      (∀ native ∈ s.natives, native.Respects .anyLine) ∧
      s.runSource .binary64 4 a = (.error (.stopped (.runtime ⟨.undefinedVariable "y", 2⟩)),
        { s with output := "nil\n" }) ∧
      (s.runSource .binary64 4 b).1 = .error (.stopped (.runtime ⟨.undefinedVariable "y", 4⟩)) ∧
      (s.runSource .binary64 4 b).2.output = "nil\n" := by
  intro s a b
  have hscan : Scan.ofSource .binary64 a =
      ⟨[⟨.keyword .print, "print", 1⟩, ⟨.keyword .nil, "nil", 1⟩, ⟨.semicolon, ";", 1⟩,
        ⟨.keyword .print, "print", 2⟩, ⟨.identifier, "y", 2⟩, ⟨.semicolon, ";", 2⟩,
        Token.ending 2], []⟩ := by decide +kernel
  have hscan' : Scan.ofSource .binary64 b =
      ⟨[⟨.keyword .print, "print", 1⟩, ⟨.keyword .nil, "nil", 2⟩, ⟨.semicolon, ";", 2⟩,
        ⟨.keyword .print, "print", 2⟩, ⟨.identifier, "y", 4⟩, ⟨.semicolon, ";", 4⟩,
        Token.ending 4], []⟩ := by decide +kernel
  have ha : (Scan.ofSource .binary64 a).errors = [] := by rw [hscan]
  have hb : (Scan.ofSource .binary64 b).errors = [] := by rw [hscan']
  have htokens : List.Forall₂ Likeness.anyLine.token (Scan.ofSource .binary64 a).tokens
      (Scan.ofSource .binary64 b).tokens := by
    rw [hscan, hscan']
    repeat' constructor
  have hp : Program.ofSource .binary64 a =
      .ok [.print (.literal .nil), .print (.variable ⟨.identifier, "y", 2⟩)] := by
    rw [Program.ofSource, hscan]
    rfl
  have hq : Program.ofSource .binary64 b =
      .ok [.print (.literal .nil), .print (.variable ⟨.identifier, "y", 4⟩)] := by
    rw [Program.ofSource, hscan']
    rfl
  have hnatives := (start_like_self (K := .anyLine) (fun _ => rfl) (fun _ => trivial)
    (.stopped ⟨0⟩) .unlimited).respects
  have hrun : s.runSource .binary64 4 a =
      (.error (.stopped (.runtime ⟨.undefinedVariable "y", 2⟩)), { s with output := "nil\n" }) := by
    rw [runSource, hp]
    rfl
  rcases runSource_layout ha hb htokens with ⟨_, _, -, -, -, h⟩ | ⟨r, -, hr, -⟩
  · obtain ⟨-, houtput, -⟩ := h s hnatives 4
    refine ⟨ha, hb, htokens, hnatives, hrun, ?_, by rw [houtput, hrun]⟩
    rw [runSource, hq]
    rfl
  · cases hp.symm.trans hr

end Session

end LoxScript
