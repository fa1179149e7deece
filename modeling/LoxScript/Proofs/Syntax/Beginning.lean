import LoxScript.Proofs.Syntax.Completion
import LoxScript.Proofs.Syntax.Lookahead
import Mathlib.Data.List.TakeWhile

/-!
# Behind a readable beginning

A list of declarations that stands in front of other tokens is read as if it stood alone, unless an `else`
comes next: nothing in it looks further than the next token, and that token ends its last declaration. Every
turn of reading begins anew, so the other tokens are then read as if nothing had been in front of them, with
all their errors and recoveries.

## Main statements

* `Parser.readWithin_eq_read`: a bound that is long enough does not matter for reading a script.
* `Grammar.Block.read_append`: what is read of declarations and the tokens behind them.
* `Program.ofTokens_append`: an accepted list of tokens in front of any other list.
-/

namespace LoxScript

open LoxScript.Grammar LoxScript.Parser

namespace Parser

variable {ending : Token} {ts : List Token}

/-- A turn of reading leaves fewer tokens than there were, whether it reads a declaration or recovers from
an error. -/
theorem readWithin_eq_of_length_le (hending : ending.kind = .endOfInput) {n m : Nat}
    (hn : ts.length ≤ n) (hm : ts.length ≤ m) :
    readWithin ending n ts = readWithin ending m ts := by
  induction n generalizing m ts with
  | zero =>
    obtain rfl : ts = [] := by simpa using hn
    rw [readWithin_nil, readWithin_nil]
  | succ n ih =>
    by_cases hts : ts = []
    · subst hts
      rw [readWithin_nil, readWithin_nil]
    have hpos := List.length_pos_iff.2 hts
    obtain ⟨m, rfl, -⟩ := exists_eq_succ (Nat.le_trans hpos hm)
    -- a reader answers alike under all bounds, and passes what it has read
    obtain ⟨begun, hbegun, -⟩ : FollowsAt ⟨ending, false⟩ ts (declaration ts.length) _ :=
      follows_item (Nat.le_refl _) (Nat.le_refl _) true hending (Nat.le_refl _)
    replace hbegun := congrArg List.length hbegun
    rw [List.length_append] at hbegun
    rcases hread : declaration ts.length ⟨ending, false⟩ ts with ⟨reports, rest, e | s⟩ <;>
      rw [hread] at hbegun
    · have hshort := length_resume_le rest
      dsimp only at hbegun
      rw [readWithin_of_error hts hread, readWithin_of_error hts hread]
      rw [@ih (resume rest) m (by omega) (by omega)]
    · have hshort := (item_reads ts.length).2.strict_declaration hending hread
      rw [readWithin_of_ok hts hread, readWithin_of_ok hts hread]
      rw [@ih rest m (by omega) (by omega)]

theorem readWithin_eq_read (hending : ending.kind = .endOfInput) {bound : Nat}
    (hbound : ts.length ≤ bound) : readWithin ending bound ts = read ending ts :=
  readWithin_eq_of_length_le hending hbound (Nat.le_refl _)

end Parser

namespace Grammar

/-- Declarations in front of other tokens are read with their trees and faults, and then the others are
read. -/
theorem Block.read_append {u rest : List Token} {p : List Stmt} {found : List SyntaxError}
    {ending : Token} (h : Block false u p found) (hending : ending.kind = .endOfInput)
    (hrest : ∀ t ∈ rest.head?, t.kind ≠ .keyword .else) :
    Parser.read ending (u ++ rest) =
      ⟨p ++ (Parser.read ending rest).program, found ++ (Parser.read ending rest).errors⟩ := by
  match h with
  | .nil => rfl
  | @Block.cons _ _ w v s ss faults more hs hss =>
    -- only an `else` could change where the first declaration ends
    have hothers := hss.read_append hending hrest
    have hfirst : declaration (w ++ (v ++ rest)).length ⟨ending, false⟩ (w ++ (v ++ rest)) =
        ⟨faults, v ++ rest, .ok s⟩ :=
      hs.read rfl (by simp) (hss.noElse fun _ => hrest)
    have hpos := List.length_pos_iff.2 hs.ne_nil
    obtain ⟨bound, hbound, hshort⟩ : ∃ bound, (w ++ (v ++ rest)).length = bound + 1 ∧
        (v ++ rest).length ≤ bound :=
      exists_eq_succ (by simp only [List.length_append]; omega)
    rw [List.append_assoc, Parser.read, hbound,
      readWithin_of_ok (by simp [hs.ne_nil]) (by rw [← hfirst]),
      readWithin_eq_read hending hshort, hothers]
    simp

end Grammar

/-! ## Two lists of tokens -/

namespace Token

variable {a b : List Token}

theorem content_append (ha : ∀ t ∈ a, t.kind ≠ .endOfInput) (b : List Token) :
    content (a ++ b) = a ++ content b :=
  List.takeWhile_append_of_pos fun t ht => by simpa using ha t ht

theorem content_eq_self (ha : ∀ t ∈ a, t.kind ≠ .endOfInput) : content a = a :=
  List.takeWhile_eq_self_iff.2 fun t ht => by simpa using ha t ht

/-- The end of the script is the same with other tokens in front. -/
theorem endingOf_append (ha : ∀ t ∈ a, t.kind ≠ .endOfInput) (hb : b ≠ []) :
    endingOf (a ++ b) = endingOf b := by
  have hnone : a.find? (·.kind = .endOfInput) = none :=
    List.find?_eq_none.2 fun t ht => by simpa using ha t ht
  have hlast : (a ++ b).getLast? = b.getLast? := by
    rw [List.getLast?_append, List.getLast?_eq_some_getLast hb, Option.some_or]
  rw [endingOf, List.find?_append, hnone, hlast]
  rfl

theorem head?_content {t : Token} (h : t ∈ (content b).head?) : t ∈ b.head? := by
  cases b with
  | nil => exact h
  | cons u b =>
    rw [content, List.takeWhile_cons] at h
    split at h
    · exact h
    · cases h

end Token

namespace Program

/-- Tokens behind an accepted list, which do not begin with `else`, are read as if they stood alone. If they
are accepted, their program follows the first one; if not, their errors are the errors. -/
theorem ofTokens_append {a b : List Token} {p : Program} (ha : ∀ t ∈ a, t.kind ≠ .endOfInput)
    (hp : ofTokens a = .ok p) (hb : ∀ t ∈ b.head?, t.kind ≠ .keyword .else) :
    (∀ q, ofTokens b = .ok q → ofTokens (a ++ b) = .ok (p ++ q)) ∧
      ∀ errors, ofTokens b = .error errors → ofTokens (a ++ b) = .error errors := by
  have hprogram := ofTokens_eq_ok_iff.1 hp
  rw [Token.content_eq_self ha] at hprogram
  -- with nothing behind them, the token for the end would be another one
  by_cases hnil : b = []
  · subst hnil
    have hempty : ofTokens [] = .ok [] := rfl
    rw [List.append_nil, hp]
    exact ⟨fun q hq => by simp_all, fun errors h => by simp_all⟩
  have hhead : ∀ t ∈ (Token.content b).head?, t.kind ≠ .keyword .else :=
    fun t ht => hb t (Token.head?_content ht)
  have hread := hprogram.read_append (Token.endingOf_kind b) hhead
  have hsame : Parser.read (Token.endingOf (a ++ b)) (Token.content (a ++ b)) =
      ⟨p ++ (Parser.read (Token.endingOf b) (Token.content b)).program,
        (Parser.read (Token.endingOf b) (Token.content b)).errors⟩ := by
    rw [Token.endingOf_append ha hnil, Token.content_append ha, hread, List.nil_append]
  unfold ofTokens
  rw [hsame]
  dsimp only
  split <;> simp_all

/-- An `if` that could go on with `else`, in front of a parenthesis that begins no statement. -/
theorem ofTokens_append_dangling :
    let x : Token := ⟨.identifier, "x", 1⟩
    let semi : Token := ⟨.semicolon, ";", 1⟩
    let close : Token := ⟨.rightParen, ")", 1⟩
    let a : List Token := [⟨.keyword .if, "if", 1⟩, ⟨.leftParen, "(", 1⟩, x, close, x, semi]
    ofTokens a = .ok [.ifThen (.variable x) (.expression (.variable x))] ∧
      ofTokens (a ++ [close, semi]) = .error [⟨.expected .expression, close⟩] ∧
      ofTokens (a ++ [x, semi]) =
        .ok [.ifThen (.variable x) (.expression (.variable x)), .expression (.variable x)] := by
  intro x semi close a
  have hx : Phrase .assignment [x] (.variable x) [] := (Phrase.name rfl).of_primary .assignment
  have hbody : Statement false false [x, semi] (.expression (.variable x)) [] := .expression hx rfl
  have hif : Statement false true a (.ifThen (.variable x) (.expression (.variable x))) [] :=
    .ifThen rfl rfl hx rfl hbody
  have hp : ofTokens a = .ok [.ifThen (.variable x) (.expression (.variable x))] :=
    ofTokens_eq_ok_iff.2 (.cons (.statement hif) .nil)
  have hrejected : ofTokens [close, semi] = .error [⟨.expected .expression, close⟩] :=
    ofTokens_eq_error_iff.2 ⟨by decide +kernel, List.cons_ne_nil _ _⟩
  have haccepted : ofTokens [x, semi] = .ok [.expression (.variable x)] :=
    ofTokens_eq_ok_iff.2 (.cons (.statement hbody) .nil)
  have ha : ∀ t ∈ a, t.kind ≠ .endOfInput := by decide
  exact ⟨hp, (ofTokens_append ha hp (by decide)).2 _ hrejected,
    (ofTokens_append ha hp (by decide)).1 _ haccepted⟩

end Program

end LoxScript
