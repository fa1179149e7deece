import LoxScript.Syntax.Program
import Mathlib.Data.List.TakeWhile

/-!
# Texts joined by a line feed

A line feed can stand in a string only. A piece of a text that is no unclosed string therefore stays the
same piece when a line feed and another text follow, and so the pieces of the whole are those of the two
texts, with the line feed between them. The lines of the second text move down.

## Main statements

* `Piece.split_append`: the pieces of joined texts.
* `Scan.ofPieces_append`, `Scan.ofPieces_add`: the tokens and errors of pieces in a row, and further
  down.
* `Scan.ofSource_join`, `Scan.ofSource_lines`: scanning distributes over joined texts.
-/

namespace LoxScript

namespace Piece

variable {A : Arithmetic} {c : Char} {rest a b : List Char}

/-! ## The first piece -/

theorem takeWhile_append_lineFeed {p : Char → Bool} (hp : p '\n' = false) (a b : List Char) :
    (a ++ '\n' :: b).takeWhile p = a.takeWhile p := by
  induction a with
  | nil => simp [hp]
  | cons c a ih =>
    rw [List.cons_append, List.takeWhile_cons, List.takeWhile_cons, ih]

theorem dropWhile_append_lineFeed {p : Char → Bool} (hp : p '\n' = false) (a b : List Char) :
    (a ++ '\n' :: b).dropWhile p = a.dropWhile p ++ '\n' :: b := by
  induction a with
  | nil => simp [hp]
  | cons c a ih =>
    rw [List.cons_append, List.dropWhile_cons, List.dropWhile_cons, ih]
    split <;> rfl

/-- The text behind a piece, with a line feed and another text behind it. -/
def before (b : List Char) (cut : Piece × List Char) : Piece × List Char :=
  (cut.1, cut.2 ++ '\n' :: b)

theorem quoted_append (h : ∀ text, (quoted a).1 ≠ .unterminated text) :
    quoted (a ++ '\n' :: b) = before b (quoted a) := by
  unfold quoted at h ⊢
  rw [List.takeWhile_append, List.dropWhile_append]
  cases hdrop : a.dropWhile (· != '"') with
  | nil => simp [hdrop] at h
  | cons quote tail =>
    -- there is a closing quote in the first text, so the string ends before the line feed
    have hlength : (a.takeWhile (· != '"')).length ≠ a.length := by
      have hsplit := congrArg List.length (List.takeWhile_append_dropWhile (p := (· != '"')) (l := a))
      rw [List.length_append, hdrop, List.length_cons] at hsplit
      omega
    rw [if_neg hlength]
    rfl

theorem numeral_append : numeral A (a ++ '\n' :: b) = before b (numeral A a) := by
  have hdigit : Char.isDigit '\n' = false := by decide
  unfold numeral
  rw [takeWhile_append_lineFeed hdigit, dropWhile_append_lineFeed hdigit]
  cases hdrop : a.dropWhile Char.isDigit with
  | nil => rfl
  | cons point tail =>
    -- a point goes on only before a digit, and a line feed is none
    by_cases hpoint : point = '.'
    · subst hpoint
      cases tail with
      | nil => simp [before, hdigit]
      | cons digit tail =>
        by_cases hd : digit.isDigit
        · simp [before, hd, takeWhile_append_lineFeed hdigit, dropWhile_append_lineFeed hdigit]
        · simp [before, hd]
    · cases tail <;> simp [before, hpoint]

theorem name_append : name (a ++ '\n' :: b) = before b (name a) := by
  have hpart : isNamePart '\n' = false := by decide
  unfold name
  rw [takeWhile_append_lineFeed hpart, dropWhile_append_lineFeed hpart]
  rfl

theorem remark_append : remark (a ++ '\n' :: b) = before b (remark a) := by
  unfold remark
  rw [takeWhile_append_lineFeed (by decide), dropWhile_append_lineFeed (by decide)]
  rfl

theorem symbol_append : symbol c (rest ++ '\n' :: b) = before b (symbol c rest) := by
  unfold symbol
  cases rest with
  | nil => cases symbol? c <;> rfl
  | cons d rest =>
    by_cases hd : d = '='
    · subst hd
      cases symbolWithEqual? c <;> cases symbol? c <;> rfl
    · cases symbol? c <;> simp [before, hd]

/-- A piece that is no unclosed string ends before a line feed that is put behind the text. -/
theorem first_append (h : ∀ text, (first A c rest).1 ≠ .unterminated text) :
    first A c (rest ++ '\n' :: b) = before b (first A c rest) := by
  have hslash : (rest ++ '\n' :: b).head? = some '/' ↔ rest.head? = some '/' := by
    cases rest <;> simp
  unfold first at h ⊢
  -- the cases of `first`; only a string could go on behind the line feed
  simp only [hslash]
  split
  · rfl
  · rename_i hblank
    rw [if_neg hblank] at h
    split
    · rename_i hquote
      rw [if_pos hquote] at h
      exact quoted_append h
    · split
      · exact remark_append (a := c :: rest)
      · split
        · exact numeral_append (a := c :: rest)
        · split
          · exact name_append (a := c :: rest)
          · exact symbol_append

theorem isNamePart_of_isNameStart (hc : isNameStart c) : isNamePart c := by
  rcases Bool.or_eq_true_iff.1 hc with halpha | hunderscore
  · rw [isNamePart, Char.isAlphanum, halpha, Bool.true_or, Bool.true_or]
  · rw [isNamePart, hunderscore, Bool.or_true]

/-- At least one character is in the first piece. -/
theorem length_first (A : Arithmetic) (c : Char) (rest : List Char) :
    (first A c rest).2.length ≤ rest.length := by
  have hdrop (p : Char → Bool) (l : List Char) : (l.dropWhile p).length ≤ l.length :=
    (List.dropWhile_sublist p).length_le
  -- only runs of characters are dropped, each from what stands behind the first character
  unfold first
  split
  · exact Nat.le_refl _
  split
  · have h := hdrop (· != '"') rest
    unfold quoted
    dsimp only
    split
    · exact Nat.zero_le _
    · rename_i heq
      rw [heq, List.length_cons] at h
      exact Nat.le_of_succ_le h
  split
  · rename_i hslash
    have hc : c = '/' := by simp_all
    subst hc
    exact hdrop (· != '\n') rest
  split
  · rename_i hdigit
    have h := hdrop Char.isDigit rest
    unfold numeral
    rw [List.dropWhile_cons_of_pos hdigit]
    dsimp only
    split
    · rename_i digit tail heq
      rw [heq, List.length_cons, List.length_cons] at h
      split
      · have := hdrop Char.isDigit tail
        dsimp only
        omega
      · simpa using h
    · exact h
  split
  · rename_i hname
    unfold name
    rw [List.dropWhile_cons_of_pos (isNamePart_of_isNameStart hname)]
    exact hdrop isNamePart rest
  · unfold symbol
    cases symbol? c <;> cases symbolWithEqual? c <;> cases rest with
    | nil => simp
    | cons d rest => by_cases h : d = '=' <;> simp [h]

/-! ## All pieces -/

theorem splitWithin_succ (bound : Nat) :
    splitWithin A (bound + 1) (c :: rest) =
      (first A c rest).1 :: splitWithin A bound (first A c rest).2 := rfl

/-- A bound that is long enough does not matter. -/
theorem splitWithin_eq_split {bound : Nat} {text : List Char} (h : text.length ≤ bound) :
    splitWithin A bound text = split A text := by
  -- two bounds that are long enough give the same, one step after the other
  have key : ∀ n m (text : List Char), text.length ≤ n → text.length ≤ m →
      splitWithin A n text = splitWithin A m text := by
    intro n
    induction n with
    | zero =>
      intro m text hn _
      obtain rfl : text = [] := by simpa using hn
      cases m <;> rfl
    | succ n ih =>
      intro m text hn hm
      cases text with
      | nil => cases m <;> rfl
      | cons c rest =>
        cases m with
        | zero => simp at hm
        | succ m =>
          have hlength := length_first A c rest
          simp only [List.length_cons] at hn hm
          rw [splitWithin_succ, splitWithin_succ, ih m _ (by omega) (by omega)]
  exact key bound text.length text h (Nat.le_refl _)

@[simp]
theorem split_nil : split A [] = [] := rfl

theorem split_cons (A : Arithmetic) (c : Char) (rest : List Char) :
    split A (c :: rest) = (first A c rest).1 :: split A (first A c rest).2 := by
  rw [split, List.length_cons, splitWithin_succ, splitWithin_eq_split (length_first A c rest)]

/-- No piece is an unclosed string. -/
def Closed (pieces : List Piece) : Prop := ∀ piece ∈ pieces, ∀ text, piece ≠ .unterminated text

/-- The pieces of two texts with a line feed between them are those of each. -/
theorem split_append (hclosed : Closed (split A a)) :
    split A (a ++ '\n' :: b) = split A a ++ .blank '\n' :: split A b := by
  induction hn : a.length using Nat.strongRecOn generalizing a with
  | ind n ih =>
    cases a with
    | nil =>
      rw [List.nil_append, split_cons]
      rfl
    | cons c rest =>
      rw [split_cons] at hclosed ⊢
      obtain ⟨hfirst, hrest⟩ := List.forall_mem_cons.1 hclosed
      -- the first piece is the same, and less is left of the first text
      rw [List.cons_append, split_cons, first_append hfirst]
      have hlength := length_first A c rest
      rw [List.length_cons] at hn
      rw [before, ih _ (by omega) hrest rfl, List.cons_append]

/-- The pieces of a text, in order, are the text. -/
theorem text_split (A : Arithmetic) (a : List Char) : (split A a).flatMap text = a := by
  induction hn : a.length using Nat.strongRecOn generalizing a with
  | ind n ih =>
    cases a with
    | nil => rfl
    | cons c rest =>
      have hlength := length_first A c rest
      rw [List.length_cons] at hn
      rw [split_cons, List.flatMap_cons, ih _ (by omega) _ rfl, text_first]

/-- No piece of a text is a token for the end of the script. -/
theorem first_ne_endOfInput (A : Arithmetic) (c : Char) (rest lexeme : List Char) :
    (first A c rest).1 ≠ .token .endOfInput lexeme := by
  unfold first
  split
  · simp
  split
  · unfold quoted
    dsimp only
    split <;> simp
  split
  · simp [remark]
  split
  · simp [numeral]
  split
  · unfold name nameKind
    dsimp only
    split <;> simp
  -- the symbols of one and of two characters, all listed
  · have hsymbol : ∀ kind, symbol? c = some kind → kind ≠ .endOfInput := by
      unfold symbol?
      grind
    have hlonger : ∀ kind, symbolWithEqual? c = some kind → kind ≠ .endOfInput := by
      unfold symbolWithEqual?
      grind
    unfold symbol
    grind

theorem split_ne_endOfInput (A : Arithmetic) (a lexeme : List Char) :
    .token .endOfInput lexeme ∉ split A a := by
  induction hn : a.length using Nat.strongRecOn generalizing a with
  | ind n ih =>
    cases a with
    | nil => simp
    | cons c rest =>
      have hlength := length_first A c rest
      rw [List.length_cons] at hn
      rw [split_cons, List.mem_cons, not_or]
      exact ⟨(first_ne_endOfInput A c rest lexeme).symm, ih _ (by omega) _ rfl⟩

end Piece

/-! ## Tokens and errors -/

/-- The token `n` lines further down. -/
def Token.shift (n : Nat) (t : Token) : Token := { t with line := t.line + n }

/-- The error `n` lines further down. -/
def LexicalError.shift (n : Nat) (e : LexicalError) : LexicalError := { e with line := e.line + n }

namespace Scan

/-- The scan of a text that stands `n` lines further down. -/
def shift (n : Nat) (s : Scan) : Scan := ⟨s.tokens.map (·.shift n), s.errors.map (·.shift n)⟩

/-- Two scans in a row. The first has its end no longer. -/
def followedBy (s t : Scan) : Scan := ⟨s.tokens.dropLast ++ t.tokens, s.errors ++ t.errors⟩

theorem ofPieces_add (line n : Nat) (pieces : List Piece) :
    ofPieces (line + n) pieces = (ofPieces line pieces).shift n := by
  induction pieces generalizing line with
  | nil => rfl
  | cons piece pieces ih =>
    unfold ofPieces
    dsimp only
    -- the piece takes as many lines as before
    rw [Nat.add_right_comm, ih]
    cases piece <;> rfl

theorem ofPieces_tokens_ne_nil (line : Nat) (pieces : List Piece) :
    (ofPieces line pieces).tokens ≠ [] := by
  induction pieces generalizing line with
  | nil => simp [ofPieces]
  | cons piece pieces ih =>
    unfold ofPieces
    cases piece <;> simp [prepend, ih]

theorem prepend_followedBy {s : Scan} (hs : s.tokens ≠ []) (line : Nat) (t : Scan) (piece : Piece) :
    (s.followedBy t).prepend line piece = (s.prepend line piece).followedBy t := by
  cases piece with
  | token kind lexeme => simp [prepend, followedBy, List.dropLast_cons_of_ne_nil hs]
  | blank | comment | unexpected | unterminated => rfl

/-- The tokens and errors of pieces in a row are those of the pieces. -/
theorem ofPieces_append (line : Nat) (ps qs : List Piece) :
    ofPieces line (ps ++ qs) =
      (ofPieces line ps).followedBy
        (ofPieces (line + Text.newlines (ps.flatMap Piece.text)) qs) := by
  induction ps generalizing line with
  | nil => simp [followedBy, ofPieces]
  | cons piece ps ih =>
    rw [List.cons_append, ofPieces, ih, ofPieces,
      prepend_followedBy (ofPieces_tokens_ne_nil _ ps), List.flatMap_cons, Text.newlines_append,
      Nat.add_assoc]

/-- Where no error says so, no piece is an unclosed string. -/
theorem closed_of_errors {line : Nat} {pieces : List Piece}
    (h : ∀ e ∈ (ofPieces line pieces).errors, e.problem ≠ .unterminatedString) :
    Piece.Closed pieces := by
  induction pieces generalizing line with
  | nil => exact List.forall_mem_nil _
  | cons piece pieces ih =>
    unfold ofPieces at h
    cases piece with
    | unterminated text => exact absurd rfl (h _ (List.mem_cons_self ..))
    | unexpected char =>
      exact List.forall_mem_cons.2 ⟨by simp, ih fun e he => h e (List.mem_cons_of_mem _ he)⟩
    | blank | comment | token => exact List.forall_mem_cons.2 ⟨by simp, ih h⟩

/-- The scan of two texts with a line feed between them is that of the first without its end, and that
of the second, as many lines down as the first and the line feed take. -/
theorem ofSource_join (A : Arithmetic) (a b : String)
    (h : ∀ e ∈ (ofSource A a).errors, e.problem ≠ .unterminatedString) :
    ofSource A (a ++ "\n" ++ b) =
      (ofSource A a).followedBy ((ofSource A b).shift (Text.newlines a.toList + 1)) := by
  have htext : (a ++ "\n" ++ b).toList = a.toList ++ '\n' :: b.toList := by simp
  unfold ofSource at h ⊢
  rw [htext, Piece.split_append (closed_of_errors h), ofPieces_append, Piece.text_split,
    ← ofPieces_add, ← Nat.add_assoc]
  rfl

/-- Only the last token of a script is the end of the script. -/
theorem content_ofSource (A : Arithmetic) (source : String) :
    Token.content (ofSource A source).tokens = (ofSource A source).tokens.dropLast := by
  have key : ∀ line pieces, (∀ lexeme, .token .endOfInput lexeme ∉ pieces) →
      Token.content (ofPieces line pieces).tokens = (ofPieces line pieces).tokens.dropLast := by
    intro line pieces hpieces
    induction pieces generalizing line with
    | nil => rfl
    | cons piece pieces ih =>
      have hrest := ih (line + Text.newlines piece.text) fun lexeme hmem =>
        hpieces lexeme (List.mem_cons_of_mem _ hmem)
      unfold ofPieces
      cases piece with
      | token kind lexeme =>
        have hkind : kind ≠ .endOfInput := by
          rintro rfl
          exact hpieces lexeme (List.mem_cons_self ..)
        dsimp only [prepend]
        rw [List.dropLast_cons_of_ne_nil (ofPieces_tokens_ne_nil _ _), ← hrest]
        simp [Token.content, hkind]
      | blank | comment | unexpected | unterminated => exact hrest
  exact key 1 _ (Piece.split_ne_endOfInput A source.toList)

/-- The last token of pieces is on the line behind all of them. -/
theorem ofPieces_tokens_eq (line : Nat) (pieces : List Piece) :
    (ofPieces line pieces).tokens = (ofPieces line pieces).tokens.dropLast ++
      [Token.ending (line + Text.newlines (pieces.flatMap Piece.text))] := by
  induction pieces generalizing line with
  | nil => rfl
  | cons piece pieces ih =>
    -- the lines of the piece count for what is behind it, also where it is no token
    have hrest := ih (line + Text.newlines piece.text)
    rw [Nat.add_assoc, ← Text.newlines_append, ← List.flatMap_cons] at hrest
    unfold ofPieces
    cases piece with
    | token kind lexeme =>
      dsimp only [prepend]
      rw [List.dropLast_cons_of_ne_nil (ofPieces_tokens_ne_nil _ _), List.cons_append, ← hrest]
    | blank | comment | unexpected | unterminated => exact hrest

/-- The tokens of a script are those before its end, and its end, which is on its last line. -/
theorem tokens_eq_content_append (A : Arithmetic) (source : String) :
    (ofSource A source).tokens =
      Token.content (ofSource A source).tokens ++ [Token.ending (1 + Text.newlines source.toList)] := by
  have h := ofPieces_tokens_eq 1 (Piece.split A source.toList)
  rw [Piece.text_split] at h
  rw [content_ofSource]
  exact h

/-- Scanning distributes over two texts with a line feed between them, unless a string is left open in the
first. The tokens are those of the first without its end, and those of the second; the errors are those of
both. All of the second stand further down, by the lines of the first. -/
theorem ofSource_lines (A : Arithmetic) (a b : String)
    (h : ∀ e ∈ (ofSource A a).errors, e.problem ≠ .unterminatedString) :
    let n := 1 + Text.newlines a.toList
    ∃ w, (ofSource A a).tokens = w ++ [Token.ending n] ∧ (∀ t ∈ w, t.kind ≠ .endOfInput) ∧
      (ofSource A (a ++ "\n" ++ b)).tokens =
        w ++ (ofSource A b).tokens.map (fun t => { t with line := t.line + n }) ∧
      (ofSource A (a ++ "\n" ++ b)).errors =
        (ofSource A a).errors ++ (ofSource A b).errors.map fun e => { e with line := e.line + n } := by
  intro n
  have hjoin := ofSource_join A a b h
  rw [Nat.add_comm] at hjoin
  refine ⟨Token.content (ofSource A a).tokens, tokens_eq_content_append A a, fun t ht => ?_, ?_, ?_⟩
  · simpa using List.mem_takeWhile_imp ht
  · rw [hjoin, content_ofSource]
    rfl
  · rw [hjoin]
    rfl

/-- A comment and a character that begins no token stand before the line feed, and a string with another one
behind it. -/
theorem ofSource_lines_comment :
    let a := "1.\n@ // c"
    let b := "\"s\n\" $"
    (∀ e ∈ (ofSource .binary64 a).errors, e.problem ≠ .unterminatedString) ∧
      (ofSource .binary64 (a ++ "\n" ++ b)).errors =
        [⟨.unexpectedCharacter, 2⟩, ⟨.unexpectedCharacter, 4⟩] ∧
      (ofSource .binary64 (a ++ "\n" ++ b)).tokens.map (fun t => (t.lexeme, t.line)) =
        [("1", 1), (".", 1), ("\"s\n\"", 4), ("", 4)] := by
  intro a b
  have ha : ∀ e ∈ (ofSource .binary64 a).errors, e.problem ≠ .unterminatedString := by decide +kernel
  obtain ⟨w, htokens, -, hjoined, herrors⟩ := ofSource_lines .binary64 a b ha
  have hw : w = (ofSource .binary64 a).tokens.dropLast := by rw [htokens, List.dropLast_concat]
  refine ⟨ha, ?_, ?_⟩
  · rw [herrors]
    decide +kernel
  · rw [hjoined, hw]
    decide +kernel

end Scan

end LoxScript
