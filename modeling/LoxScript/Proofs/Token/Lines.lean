import LoxScript.Proofs.Token.LongestMatch

/-!
# Lines of tokens and errors

The line of a token is that of the end of its lexeme, and so is one more than the line feeds in the script
up to there. The same holds for an error and its piece, and for the end of the script.

Pieces in front of a place leave their line feeds behind and nothing else. So what is said about the first
piece of a text carries over to a piece anywhere in a script.

## Main statements

* `Scan.tokens_getElem?`, `Scan.errors_getElem?`: the piece that a token or an error is read off, with its
  line.
* `Scan.ofPieces_lines`: no token and no error goes back to an earlier line.
* `Scan.ofSource_linesExact`: the lines in the scan of a script.
-/

namespace LoxScript

/-- A character that begins no token is no line feed, since that is a blank. -/
theorem Piece.Tokenization.unexpected_ne {A : Arithmetic} {text : List Char} {pieces : List Piece}
    (h : Tokenization A text pieces) {c : Char} (hc : .unexpected c ∈ pieces) : c ≠ '\n' := by
  induction h with
  | nil => cases hc
  | cons h _ ih =>
    rcases List.mem_cons.1 hc with rfl | hc
    · rintro rfl
      cases h with
      | recognized h _ => cases h
      | unexpected h => exact h (.blank '\n') (.blank (by decide)) rfl
    · exact ih hc

namespace Scan

variable {line i : Nat} {pieces before after : List Piece}

/-! ## One place in the script -/

/-- As many tokens come before a place as pieces in front of it are tokens. -/
theorem length_dropLast_tokens (line : Nat) (pieces : List Piece) :
    (ofPieces line pieces).tokens.dropLast.length = (pieces.filterMap Piece.token?).length := by
  have h := congrArg List.length (tokens_ofPieces line pieces)
  rw [List.length_map, List.length_append, List.length_singleton] at h
  rw [List.length_dropLast, h, Nat.add_sub_cancel]

/-- As many errors come before a place as pieces in front of it are faulty. -/
theorem length_errors (line : Nat) (pieces : List Piece) :
    (ofPieces line pieces).errors.length = (pieces.filterMap Piece.problem?).length := by
  rw [← errors_ofPieces line pieces, List.length_map]

/-- The token of a piece behind others is on the line of the end of the piece. -/
theorem tokens_getElem?_token (line : Nat) (before after : List Piece) (kind : Token.Kind)
    (lexeme : List Char) :
    (ofPieces line (before ++ .token kind lexeme :: after)).tokens[
        (before.filterMap Piece.token?).length]? =
      some ⟨kind, String.ofList lexeme,
        line + Text.newlines (before.flatMap Piece.text ++ lexeme)⟩ := by
  -- the index is where the tokens in front end, so it is the first one of those behind
  rw [ofPieces_append, followedBy, ← length_dropLast_tokens line before,
    List.getElem?_append_right (Nat.le_refl _), Nat.sub_self, Text.newlines_append, ← Nat.add_assoc]
  rfl

/-- The error of a faulty piece behind others is on the line of the end of the piece. -/
theorem errors_getElem?_problem (line : Nat) (before after : List Piece) {piece : Piece}
    {problem : LexicalError.Problem} (h : piece.problem? = some problem) :
    (ofPieces line (before ++ piece :: after)).errors[(before.filterMap Piece.problem?).length]? =
      some ⟨problem, line + Text.newlines (before.flatMap Piece.text ++ piece.text)⟩ := by
  rw [ofPieces_append, followedBy, ← length_errors line before,
    List.getElem?_append_right (Nat.le_refl _), Nat.sub_self, Text.newlines_append, ← Nat.add_assoc]
  cases piece <;> cases h <;> rfl

/-! ## Every place -/

/-- What is at an index of a selection was selected from somewhere, behind as much as the index says. -/
theorem exists_of_getElem?_filterMap {α β : Type} {g : α → Option β} {l : List α} {b : β}
    (h : (l.filterMap g)[i]? = some b) :
    ∃ before a after, l = before ++ a :: after ∧ g a = some b ∧ (before.filterMap g).length = i := by
  obtain ⟨hi, hb⟩ := List.getElem?_eq_some_iff.1 h
  have hcut : l.filterMap g = (l.filterMap g).take i ++ b :: (l.filterMap g).drop (i + 1) := by
    rw [← hb, List.getElem_cons_drop, List.take_append_drop]
  obtain ⟨first, last, rfl, hfirst, hlast⟩ := List.filterMap_eq_append_iff.1 hcut
  obtain ⟨skipped, a, after, rfl, hskipped, ha, -⟩ := List.filterMap_eq_cons_iff.1 hlast
  refine ⟨first ++ skipped, a, after, (List.append_assoc ..).symm, ha, ?_⟩
  rw [List.filterMap_append, hfirst, List.filterMap_eq_nil_iff.2 hskipped, List.append_nil,
    List.length_take, Nat.min_eq_left (Nat.le_of_lt hi)]

/-- Every token is read off a piece and is on the line of its end, but for the end of the script, which is
on the line behind all pieces. -/
theorem tokens_getElem? {t : Token} (h : (ofPieces line pieces).tokens[i]? = some t) :
    (∃ before lexeme after, pieces = before ++ .token t.kind lexeme :: after ∧
        (before.filterMap Piece.token?).length = i ∧ t.lexeme = String.ofList lexeme ∧
        t.line = line + Text.newlines (before.flatMap Piece.text ++ lexeme)) ∨
      i + 1 = (ofPieces line pieces).tokens.length ∧
        t = Token.ending (line + Text.newlines (pieces.flatMap Piece.text)) := by
  have hlength := congrArg List.length (ofPieces_tokens_eq line pieces)
  rw [List.length_append, List.length_singleton, length_dropLast_tokens] at hlength
  -- there is one token for each piece that is one, and the end of the script
  by_cases hi : i < (pieces.filterMap Piece.token?).length
  · left
    obtain ⟨before, piece, after, rfl, hpiece, rfl⟩ :=
      exists_of_getElem?_filterMap (List.getElem?_eq_getElem hi)
    cases piece with
    | token kind lexeme =>
      rw [tokens_getElem?_token] at h
      obtain rfl := Option.some.inj h
      exact ⟨before, lexeme, after, rfl, rfl, rfl, rfl⟩
    | _ => cases hpiece
  · right
    obtain ⟨hlt, -⟩ := List.getElem?_eq_some_iff.1 h
    have hlast : i = (ofPieces line pieces).tokens.dropLast.length := by
      rw [length_dropLast_tokens]
      omega
    refine ⟨by omega, ?_⟩
    rw [ofPieces_tokens_eq, hlast, List.getElem?_append_right (Nat.le_refl _), Nat.sub_self] at h
    exact (Option.some.inj h).symm

/-- Every error is read off a faulty piece and is on the line of its end. -/
theorem errors_getElem? {e : LexicalError} (h : (ofPieces line pieces).errors[i]? = some e) :
    ∃ before piece after, pieces = before ++ piece :: after ∧ piece.problem? = some e.problem ∧
      (before.filterMap Piece.problem?).length = i ∧
      e.line = line + Text.newlines (before.flatMap Piece.text ++ piece.text) := by
  obtain ⟨hi, -⟩ := List.getElem?_eq_some_iff.1 h
  rw [length_errors] at hi
  obtain ⟨before, piece, after, rfl, hpiece, rfl⟩ :=
    exists_of_getElem?_filterMap (List.getElem?_eq_getElem hi)
  rw [errors_getElem?_problem line before after hpiece] at h
  obtain rfl := Option.some.inj h
  exact ⟨before, piece, after, rfl, hpiece, rfl, rfl⟩

/-! ## The order of the lines -/

/-- Tokens and errors never go back to an earlier line. -/
theorem ofPieces_lines (line : Nat) (pieces : List Piece) :
    (line :: (ofPieces line pieces).tokens.map (·.line)).Pairwise (· ≤ ·) ∧
      (line :: (ofPieces line pieces).errors.map (·.line)).Pairwise (· ≤ ·) := by
  have skipped {line later : Nat} {lines : List Nat} (h : (later :: lines).Pairwise (· ≤ ·))
      (hline : line ≤ later) : (line :: lines).Pairwise (· ≤ ·) := by
    obtain ⟨hlater, hlines⟩ := List.pairwise_cons.1 h
    exact List.pairwise_cons.2 ⟨fun n hn => Nat.le_trans hline (hlater n hn), hlines⟩
  have noted {line later : Nat} {lines : List Nat} (h : (later :: lines).Pairwise (· ≤ ·))
      (hline : line ≤ later) : (line :: later :: lines).Pairwise (· ≤ ·) :=
    skipped (List.pairwise_cons.2 ⟨by simpa using (List.pairwise_cons.1 h).1, h⟩) hline
  induction pieces generalizing line with
  | nil => simp [ofPieces, Token.ending]
  | cons piece pieces ih =>
    obtain ⟨htokens, herrors⟩ := ih (line + Text.newlines piece.text)
    have hline : line ≤ line + Text.newlines piece.text := Nat.le_add_right ..
    unfold ofPieces
    cases piece with
    | blank | comment => exact ⟨skipped htokens hline, skipped herrors hline⟩
    | token => exact ⟨noted htokens hline, skipped herrors hline⟩
    | unexpected | unterminated => exact ⟨skipped htokens hline, noted herrors hline⟩

/-- A scan has the tokens and errors of the pieces of a script, each on its line, and no others. -/
structure LinesExact (source : List Char) (pieces : List Piece) (scan : Scan) : Prop where
  /-- The last token is the end of the script, on the last line of the script. In front of it there is a
  token for each piece that is one. -/
  ending : ∃ tokens, scan.tokens = tokens ++ [Token.ending (1 + Text.newlines source)] ∧
    tokens.length = (pieces.filterMap Piece.token?).length
  /-- There is an error for each faulty piece. -/
  errors_length : scan.errors.length = (pieces.filterMap Piece.problem?).length
  /-- A piece that is a token gives it on the line of the last character of its lexeme. -/
  token : ∀ before kind lexeme after, pieces = before ++ .token kind lexeme :: after →
    scan.tokens[(before.filterMap Piece.token?).length]? =
      some ⟨kind, String.ofList lexeme,
        1 + Text.newlines (before.flatMap Piece.text ++ lexeme)⟩
  /-- A character that begins no token gives an error on its own line. -/
  unexpected : ∀ before c after, pieces = before ++ .unexpected c :: after →
    scan.errors[(before.filterMap Piece.problem?).length]? =
      some ⟨.unexpectedCharacter, 1 + Text.newlines (before.flatMap Piece.text)⟩
  /-- A string that is not closed is the last piece and gives an error on the last line of the script. -/
  unterminated : ∀ before text after, pieces = before ++ .unterminated text :: after → after = [] ∧
    scan.errors[(before.filterMap Piece.problem?).length]? =
      some ⟨.unterminatedString, 1 + Text.newlines source⟩
  /-- Every token is that of a piece, or the end of the script. -/
  of_token : ∀ (i : Nat) (t : Token), scan.tokens[i]? = some t →
    (∃ before lexeme after, pieces = before ++ .token t.kind lexeme :: after ∧
        (before.filterMap Piece.token?).length = i ∧ t.lexeme = String.ofList lexeme ∧
        t.line = 1 + Text.newlines (before.flatMap Piece.text ++ lexeme)) ∨
      i + 1 = scan.tokens.length ∧ t = Token.ending (1 + Text.newlines source)
  /-- Every error is that of a faulty piece. -/
  of_error : ∀ (i : Nat) (e : LexicalError), scan.errors[i]? = some e →
    (∃ before c after, pieces = before ++ .unexpected c :: after ∧
        (before.filterMap Piece.problem?).length = i ∧
        e = ⟨.unexpectedCharacter, 1 + Text.newlines (before.flatMap Piece.text)⟩) ∨
      ∃ before text, pieces = before ++ [.unterminated text] ∧
        (before.filterMap Piece.problem?).length = i ∧
        e = ⟨.unterminatedString, 1 + Text.newlines source⟩
  /-- No token goes back to an earlier line. -/
  tokens_ordered : (scan.tokens.map (·.line)).Pairwise (· ≤ ·)
  /-- No error goes back to an earlier line. -/
  errors_ordered : (scan.errors.map (·.line)).Pairwise (· ≤ ·)

section Faults

variable {A : Arithmetic} {source : List Char}

/-- A character that begins no token is no line feed, so its own line is that of the characters before. -/
theorem errors_getElem?_unexpected (hpieces : Piece.Tokenization A source pieces) {c : Char}
    (hcut : pieces = before ++ .unexpected c :: after) :
    (ofPieces 1 pieces).errors[(before.filterMap Piece.problem?).length]? =
      some ⟨.unexpectedCharacter, 1 + Text.newlines (before.flatMap Piece.text)⟩ := by
  have hne : c ≠ '\n' := hpieces.unexpected_ne (by simp [hcut])
  rw [hcut, errors_getElem?_problem 1 before after rfl, Text.newlines_append, Piece.text,
    Text.newlines_cons, if_neg hne, Text.newlines_nil]
  rfl

/-- Nothing follows a string that is not closed, so the piece ends where the script does. -/
theorem errors_getElem?_unterminated (hpieces : Piece.Tokenization A source pieces) {text : List Char}
    (hcut : pieces = before ++ .unterminated text :: after) : after = [] ∧
      (ofPieces 1 pieces).errors[(before.filterMap Piece.problem?).length]? =
        some ⟨.unterminatedString, 1 + Text.newlines source⟩ := by
  obtain rfl := hpieces.eq_nil_of_unterminated before text after hcut
  refine ⟨rfl, ?_⟩
  rw [← hpieces.flatMap_text, hcut, errors_getElem?_problem 1 before [] rfl, List.flatMap_append,
    List.flatMap_singleton]

end Faults

/-- The lines in the scan of a script. A token is on the line of the last character of its lexeme, the end
of the script on the last line of the script, a character that begins no token on its own line, and a string
that is not closed on the last line of the script. So neither tokens nor errors go back to an earlier
line. -/
theorem ofSource_linesExact (A : Arithmetic) (source : String) :
    ∃ pieces, Piece.Tokenization A source.toList pieces ∧
      LinesExact source.toList pieces (ofSource A source) := by
  obtain ⟨htokens, herrors⟩ := ofPieces_lines 1 (Piece.split A source.toList)
  have hpieces : Piece.Tokenization A source.toList (Piece.split A source.toList) :=
    Piece.tokenization_iff.2 rfl
  have htext := hpieces.flatMap_text
  refine ⟨_, hpieces, ?_⟩
  constructor
  case ending =>
    have hending := ofPieces_tokens_eq 1 (Piece.split A source.toList)
    rw [htext] at hending
    exact ⟨_, hending, length_dropLast_tokens 1 _⟩
  case errors_length => exact length_errors 1 _
  case token =>
    intro before kind lexeme after hcut
    rw [ofSource, hcut]
    exact tokens_getElem?_token 1 before after kind lexeme
  case unexpected => exact fun before c after hcut => errors_getElem?_unexpected hpieces hcut
  case unterminated => exact fun before text after hcut => errors_getElem?_unterminated hpieces hcut
  case of_token =>
    intro i t ht
    have h := tokens_getElem? ht
    rwa [htext] at h
  case of_error =>
    intro i e he
    obtain ⟨before, piece, after, hcut, hproblem, rfl, -⟩ := errors_getElem? he
    cases piece with
    | unexpected c =>
      have herror := errors_getElem?_unexpected hpieces hcut
      exact .inl ⟨before, c, after, hcut, rfl, Option.some.inj (he.symm.trans herror)⟩
    | unterminated text =>
      obtain ⟨rfl, herror⟩ := errors_getElem?_unterminated hpieces hcut
      exact .inr ⟨before, text, hcut, rfl, Option.some.inj (he.symm.trans herror)⟩
    | _ => cases hproblem
  case tokens_ordered => exact (List.pairwise_cons.1 htokens).2
  case errors_ordered => exact (List.pairwise_cons.1 herrors).2

/-- A string over two lines is on the second, and one that is not closed on the last line there is. -/
example : (ofSource .binary64 "\"a\nb\" c\n@ \"d\n").tokens.map (·.line) = [2, 2, 4] ∧
    (ofSource .binary64 "\"a\nb\" c\n@ \"d\n").errors.map (·.line) = [3, 4] := by decide +kernel

end Scan

end LoxScript
