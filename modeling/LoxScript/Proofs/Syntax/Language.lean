import LoxScript.Proofs.Syntax.Completeness
import LoxScript.Proofs.Syntax.Soundness

/-!
# The language that is read

The programs that are read are the programs of the grammar, and the grammar gives a text one tree at
most. Both come from the two directions between texts and readings: what is read has been derived, and
what can be derived is what is read.

## Main statements

* `Grammar.Block.unique`: a list of declarations has one tree and one list of faults.
* `Program.ofTokens_iff_grammar`: which lists of tokens are programs, and of which trees.
* `Program.ofSource_eq_ok_iff`: which scripts are accepted.
-/

namespace LoxScript

theorem Token.endingOf_kind (ts : List Token) : (Token.endingOf ts).kind = .endOfInput := by
  unfold Token.endingOf
  cases h : ts.find? (·.kind = .endOfInput) with
  | none => rfl
  | some t => simpa using List.find?_some h

namespace Grammar

/-- A text has at most one tree, and one list of faults. -/
theorem Block.unique {w : List Token} {p q : List Stmt} {faults more : List SyntaxError}
    (hp : Block false w p faults) (hq : Block false w q more) : p = q ∧ faults = more := by
  -- both are what is read, under any bound that is long enough
  have hfirst : Parser.readWithin (Token.ending 1) w.length w = ⟨p, faults⟩ :=
    hp.readWithin (Nat.le_refl _)
  have hread := hfirst.symm.trans (hq.readWithin (Nat.le_refl _))
  simpa using hread

end Grammar

/-- What is read without errors is a program of the language, and the other way round. -/
theorem Parser.read_iff_isProgram {ending : Token} {w : List Token} {p : List Stmt}
    (hending : ending.kind = .endOfInput) :
    (Parser.read ending w).errors = [] ∧ (Parser.read ending w).program = p ↔
      Grammar.IsProgram w p := by
  constructor
  · rintro ⟨herrors, rfl⟩
    exact readWithin_reads hending (Nat.le_refl _) herrors
  · intro h
    rw [Parser.read, h.readWithin (Nat.le_refl _)]
    exact ⟨rfl, rfl⟩

theorem Program.ofTokens_eq_ok_iff {ts : List Token} {p : Program} :
    Program.ofTokens ts = .ok p ↔ Grammar.IsProgram (Token.content ts) p := by
  rw [← Parser.read_iff_isProgram (Token.endingOf_kind ts)]
  unfold Program.ofTokens
  rcases Parser.read (Token.endingOf ts) (Token.content ts) with ⟨program, errors⟩
  cases errors <;> simp

/-- A list of tokens is rejected with all errors that were found, if there are any. -/
theorem Program.ofTokens_eq_error_iff {ts : List Token} {errors : List SyntaxError} :
    Program.ofTokens ts = .error errors ↔
      (Parser.read (Token.endingOf ts) (Token.content ts)).errors = errors ∧ errors ≠ [] := by
  unfold Program.ofTokens
  rcases Parser.read (Token.endingOf ts) (Token.content ts) with ⟨program, - | ⟨e, others⟩⟩
  · constructor
    · rintro ⟨⟩
    · rintro ⟨rfl, hne⟩
      exact absurd rfl hne
  · constructor
    · rintro ⟨⟩
      exact ⟨rfl, List.cons_ne_nil _ _⟩
    · rintro ⟨rfl, -⟩
      rfl

/-- A script is accepted exactly if there is no error in its characters and its tokens are a program. -/
theorem Program.ofSource_eq_ok_iff {A : Arithmetic} {source : String} {p : Program} :
    Program.ofSource A source = .ok p ↔
      (Scan.ofSource A source).errors = [] ∧
        Grammar.IsProgram (Token.content (Scan.ofSource A source).tokens) p := by
  rw [← Program.ofTokens_eq_ok_iff]
  unfold Program.ofSource
  dsimp only
  rcases (Scan.ofSource A source).errors with - | ⟨e, errors⟩ <;>
    rcases Program.ofTokens (Scan.ofSource A source).tokens with syntactic | program <;> simp

/-- A list of tokens is read as a program exactly if the tokens before the first for the end of the
script are a program of the grammar with that tree, and no text has two trees. -/
theorem Program.ofTokens_iff_grammar :
    (∀ (ts : List Token) (p : Program),
      Program.ofTokens ts = .ok p ↔ Grammar.IsProgram (Token.content ts) p) ∧
    ∀ (w : List Token) (p q : Program), Grammar.IsProgram w p → Grammar.IsProgram w q → p = q :=
  ⟨fun _ _ => Program.ofTokens_eq_ok_iff, fun _ _ _ hp hq => (hp.unique hq).1⟩

end LoxScript
