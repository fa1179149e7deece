import LoxScript.Proofs.Token.Join
import Mathlib.Data.List.TakeWhile

/-!
# Longest matches

What the pieces of a script may be, said without saying how they are found: blanks, comments, and the
lexemes of tokens. A script is cut from the front, each time behind the longest beginning that is such a
piece. Where there is none, either a character that begins no piece at all is cut off, or an opening
quote with everything behind it.

A piece is found in the same way alone as in a script, and what follows it can only make it longer. That
is why the first piece is the longest.

## Main definitions

* `Piece.Recognized`: the lexical grammar.
* `Piece.Longest`: the first piece of a text, and what follows it.
* `Piece.Tokenization`: all pieces of a text.

## Main statements

* `Piece.longest_first`, `Piece.Longest.first_eq`: there is one first piece, and it is found.
* `Piece.tokenization_iff`: the pieces of a text are those found.
* `Scan.ofSource_longestMatch`: scanning a script.
-/

namespace LoxScript

namespace Piece

variable {A : Arithmetic} {c : Char} {rest text : List Char}

/-! ## The lexical grammar -/

/-- The operators and punctuation marks. -/
def symbols : List (List Char × Token.Kind) :=
  [(['('], .leftParen), ([')'], .rightParen), (['{'], .leftBrace), (['}'], .rightBrace),
    ([','], .comma), (['.'], .dot), (['-'], .minus), (['+'], .plus), ([';'], .semicolon),
    (['/'], .slash), (['*'], .star), (['!'], .bang), (['!', '='], .bangEqual), (['='], .equal),
    (['=', '='], .equalEqual), (['>'], .greater), (['>', '='], .greaterEqual), (['<'], .less),
    (['<', '='], .lessEqual)]

/-- The pieces of which scripts without lexical errors consist. -/
inductive Recognized (A : Arithmetic) : Piece → Prop where
  | blank {c : Char} (h : c ∈ [' ', '\t', '\r', '\n']) : Recognized A (.blank c)
  | comment {text : List Char} (h : '\n' ∉ text) : Recognized A (.comment ('/' :: '/' :: text))
  | symbol {lexeme : List Char} {kind : Token.Kind} (h : (lexeme, kind) ∈ symbols) :
      Recognized A (.token kind lexeme)
  | string {text : List Char} (h : '"' ∉ text) :
      Recognized A (.token (.string (String.ofList text)) ('"' :: (text ++ ['"'])))
  | integer {whole : List Char} (hwhole : whole ≠ []) (h : ∀ d ∈ whole, d.isDigit) :
      Recognized A (.token (.number (A.ofDecimal (.ofDigits whole []))) whole)
  | decimal {whole fraction : List Char} (hwhole : whole ≠ []) (hfraction : fraction ≠ [])
      (h : ∀ d ∈ whole, d.isDigit) (h' : ∀ d ∈ fraction, d.isDigit) :
      Recognized A (.token (.number (A.ofDecimal (.ofDigits whole fraction))) (whole ++ '.' :: fraction))
  | keyword (word : Keyword) : Recognized A (.token (.keyword word) word.spelling.toList)
  -- every other name is an identifier
  | identifier {c : Char} {rest : List Char} (hc : isNameStart c) (hrest : ∀ d ∈ rest, isNamePart d)
      (h : ∀ word : Keyword, word.spelling.toList ≠ c :: rest) :
      Recognized A (.token .identifier (c :: rest))

/-- `Longest A text piece rest`: the text begins with `piece`, the longest that is recognized, and `rest`
follows. A character that no recognized piece begins with is an error, and so is a quote without a second
one. -/
inductive Longest (A : Arithmetic) : List Char → Piece → List Char → Prop where
  | recognized {piece : Piece} {rest : List Char} (h : Recognized A piece)
      (hlongest : ∀ other, Recognized A other → other.text <+: piece.text ++ rest →
        other.text.length ≤ piece.text.length) : Longest A (piece.text ++ rest) piece rest
  | unexpected {c : Char} {rest : List Char}
      (h : ∀ other, Recognized A other → other.text.head? ≠ some c) :
      Longest A (c :: rest) (.unexpected c) rest
  | unterminated {text : List Char} (h : '"' ∉ text) :
      Longest A ('"' :: text) (.unterminated ('"' :: text)) []

/-- The longest-match tokenization of a text. -/
inductive Tokenization (A : Arithmetic) : List Char → List Piece → Prop where
  | nil : Tokenization A [] []
  | cons {text rest : List Char} {piece : Piece} {pieces : List Piece} (h : Longest A text piece rest)
      (hrest : Tokenization A rest pieces) : Tokenization A text (piece :: pieces)

/-! ## Runs of characters -/

/-- A run of characters with the property `p` does not go on into the text. -/
def Ends (p : Char → Bool) (text : List Char) : Prop := ∀ d, text.head? = some d → ¬p d

theorem ends_nil {p : Char → Bool} : Ends p [] := by simp [Ends]

theorem takeWhile_run {p : Char → Bool} (h : ∀ d ∈ text, p d) (hend : Ends p rest) :
    (text ++ rest).takeWhile p = text := by
  rw [List.takeWhile_append_of_pos h]
  cases rest with
  | nil => exact List.append_nil text
  | cons d rest => rw [List.takeWhile_cons_of_neg (hend d rfl), List.append_nil]

theorem dropWhile_run {p : Char → Bool} (h : ∀ d ∈ text, p d) (hend : Ends p rest) :
    (text ++ rest).dropWhile p = rest := by
  rw [List.dropWhile_append_of_pos h]
  cases rest with
  | nil => rfl
  | cons d rest => exact List.dropWhile_cons_of_neg (hend d rfl)

/-- Every text begins with a run, which may be empty. -/
theorem exists_run (p : Char → Bool) (source : List Char) :
    ∃ text rest, source = text ++ rest ∧ (∀ d ∈ text, p d) ∧ Ends p rest := by
  refine ⟨source.takeWhile p, source.dropWhile p, List.takeWhile_append_dropWhile.symm,
    fun d hd => List.mem_takeWhile_imp hd, ?_⟩
  intro d hd
  have hsplit := List.head?_dropWhile_not p source
  rw [hd] at hsplit
  simpa using hsplit

theorem bne_of_notMem {quote : Char} (h : quote ∉ text) : ∀ d ∈ text, (d != quote) = true :=
  fun _ hd => bne_iff_ne.2 fun heq => h (heq ▸ hd)

/-! ## The readers of the sorts of pieces -/

theorem isBlank_iff : isBlank c ↔ c ∈ [' ', '\t', '\r', '\n'] := by simp [isBlank, or_assoc]

theorem isNamePart_of_isDigit (hc : c.isDigit) : isNamePart c := by
  rw [isNamePart, Char.isAlphanum, hc, Bool.or_true, Bool.true_or]

/-- A digit comes before all letters. -/
theorem isDigit_of_isNameStart (hc : isNameStart c) : c.isDigit = false := by
  have hstart : 'A'.val ≤ c.val := by
    rcases Bool.or_eq_true_iff.1 hc with halpha | hunderscore
    · rcases Bool.or_eq_true_iff.1 halpha with hupper | hlower
      · exact (of_decide_eq_true hupper).1
      · have hle : 'a'.val ≤ c.val := of_decide_eq_true (Bool.and_eq_true_iff.1 hlower).1
        exact UInt32.le_trans (by decide) hle
    · rw [of_decide_eq_true hunderscore]
      decide
  have hend : ¬c.val ≤ '9'.val := fun hle => absurd (UInt32.le_trans hstart hle) (by decide)
  exact Bool.and_eq_false_iff.2 (.inr (decide_eq_false hend))

/-- The part of a name begins no piece of another sort than numbers and names. -/
theorem ordinary_of_isNamePart (hc : isNamePart c) : isBlank c = false ∧ c ≠ '"' ∧ c ≠ '/' := by
  simp only [isBlank, Bool.or_eq_false_iff, decide_eq_false_iff_not]
  refine ⟨⟨⟨⟨?_, ?_⟩, ?_⟩, ?_⟩, ?_, ?_⟩ <;>
  · rintro rfl
    exact absurd hc (by decide)

theorem first_of_isBlank (hc : isBlank c) : first A c rest = (.blank c, rest) := if_pos hc

theorem first_quote : first A '"' rest = quoted rest := rfl

theorem first_slash : first A '/' ('/' :: rest) = remark ('/' :: '/' :: rest) := rfl

theorem first_of_isDigit (hc : c.isDigit) : first A c rest = numeral A (c :: rest) := by
  obtain ⟨hblank, hquote, hslash⟩ := ordinary_of_isNamePart (isNamePart_of_isDigit hc)
  simp [first, hblank, hquote, hslash, hc]

theorem first_of_isNameStart (hc : isNameStart c) : first A c rest = name (c :: rest) := by
  obtain ⟨hblank, hquote, hslash⟩ := ordinary_of_isNamePart (isNamePart_of_isNameStart hc)
  simp [first, hblank, hquote, hslash, isDigit_of_isNameStart hc, hc]

/-- A string goes up to the next quote. -/
theorem quoted_of_closed (h : '"' ∉ text) :
    quoted (text ++ '"' :: rest) =
      (.token (.string (String.ofList text)) ('"' :: (text ++ ['"'])), rest) := by
  have hend : Ends (· != '"') ('"' :: rest) := by simp [Ends]
  unfold quoted
  rw [takeWhile_run (bne_of_notMem h) hend, dropWhile_run (bne_of_notMem h) hend]
  rfl

/-- A quote without a second one takes everything. -/
theorem quoted_of_open (h : '"' ∉ text) : quoted text = (.unterminated ('"' :: text), []) := by
  unfold quoted
  rw [List.takeWhile_eq_self_iff.2 (bne_of_notMem h), List.dropWhile_eq_nil_iff.2 (bne_of_notMem h)]

theorem ofLiteral_whole {whole : List Char} (h : ∀ d ∈ whole, d.isDigit) :
    Decimal.ofLiteral whole = .ofDigits whole [] := by
  have hpoint := bne_of_notMem fun hmem => absurd (h '.' hmem) (by decide)
  rw [Decimal.ofLiteral, List.takeWhile_eq_self_iff.2 hpoint, List.dropWhile_eq_nil_iff.2 hpoint,
    List.drop_nil]

theorem ofLiteral_fraction {whole fraction : List Char} (h : ∀ d ∈ whole, d.isDigit) :
    Decimal.ofLiteral (whole ++ '.' :: fraction) = .ofDigits whole fraction := by
  have hpoint := bne_of_notMem fun hmem => absurd (h '.' hmem) (by decide)
  have hend : Ends (· != '.') ('.' :: fraction) := by simp [Ends]
  rw [Decimal.ofLiteral, takeWhile_run hpoint hend, dropWhile_run hpoint hend, List.drop_one,
    List.tail_cons]

/-- The text begins with a point and a digit, and so goes on with the fraction of a number. -/
def PointDigit (text : List Char) : Prop := ∃ digit rest, text = '.' :: digit :: rest ∧ digit.isDigit

theorem numeral_whole {whole : List Char} (h : ∀ d ∈ whole, d.isDigit) (hend : Ends Char.isDigit rest)
    (hpoint : ¬PointDigit rest) :
    numeral A (whole ++ rest) =
      (.token (.number (A.ofDecimal (.ofDigits whole []))) whole, rest) := by
  unfold numeral
  rw [takeWhile_run h hend, dropWhile_run h hend]
  dsimp only
  split
  · next digit rest =>
    have hdigit : ¬digit.isDigit := fun hd => hpoint ⟨digit, rest, rfl, hd⟩
    rw [if_neg hdigit, ofLiteral_whole h]
  · rw [ofLiteral_whole h]

theorem numeral_fraction {whole : List Char} {digit : Char} (h : ∀ d ∈ whole, d.isDigit)
    (hdigit : digit.isDigit) (text : List Char) :
    numeral A (whole ++ '.' :: digit :: text) =
      (.token (.number (A.ofDecimal (.ofDigits whole (digit :: text.takeWhile Char.isDigit))))
        (whole ++ '.' :: digit :: text.takeWhile Char.isDigit), text.dropWhile Char.isDigit) := by
  have hend : Ends Char.isDigit ('.' :: digit :: text) := by
    simp only [Ends, List.head?_cons, Option.some.injEq, forall_eq']
    decide
  unfold numeral
  rw [takeWhile_run h hend, dropWhile_run h hend]
  simp only [if_pos hdigit]
  rw [ofLiteral_fraction h]

theorem name_run (h : ∀ d ∈ text, isNamePart d) (hend : Ends isNamePart rest) :
    name (text ++ rest) = (.token (nameKind text) text, rest) := by
  rw [name, takeWhile_run h hend, dropWhile_run h hend]

theorem spelling_starts (word : Keyword) :
    ∃ c rest, word.spelling.toList = c :: rest ∧ isNameStart c := by
  cases word <;> exact ⟨_, _, rfl, rfl⟩

theorem spelling_parts (word : Keyword) : word.spelling.toList.all isNamePart := by
  cases word <;> rfl

theorem nameKind_spelling (word : Keyword) : nameKind word.spelling.toList = .keyword word := by
  cases word <;> decide

theorem nameKind_of_ne (h : ∀ word : Keyword, word.spelling.toList ≠ text) :
    nameKind text = .identifier := by
  have hnone : Keyword.ofSpelling? (String.ofList text) = none := by
    rw [Keyword.ofSpelling?, List.find?_eq_none]
    intro word _ heq
    exact h word (by rw [of_decide_eq_true heq, String.toList_ofList])
  rw [nameKind, hnone]

/-! ## Recognized pieces alone -/

theorem first_symbol (A : Arithmetic) : ∀ s ∈ symbols, ∃ c rest, s.1 = c :: rest ∧
    first A c rest = (.token s.2 s.1, []) := by
  simp only [symbols, List.forall_mem_cons, List.not_mem_nil, false_implies, implies_true, and_true]
  and_intros <;> exact ⟨_, _, rfl, rfl⟩

/-- A recognized piece on its own is found as a whole. -/
theorem Recognized.first_eq {piece : Piece} (h : Recognized A piece) :
    ∃ c rest, piece.text = c :: rest ∧ first A c rest = (piece, []) := by
  cases h with
  | @blank c h => exact ⟨c, [], rfl, first_of_isBlank (isBlank_iff.2 h)⟩
  | @comment text h =>
    have hline : '\n' ∉ '/' :: '/' :: text := by simpa using h
    have htext := bne_of_notMem hline
    refine ⟨'/', '/' :: text, rfl, ?_⟩
    rw [first_slash, remark, List.takeWhile_eq_self_iff.2 htext, List.dropWhile_eq_nil_iff.2 htext]
  | symbol h => exact first_symbol A _ h
  | @string text h => exact ⟨'"', text ++ ['"'], rfl, first_quote.trans (quoted_of_closed h)⟩
  | @integer whole hwhole h =>
    obtain ⟨c, rest, rfl⟩ := List.exists_cons_of_ne_nil hwhole
    refine ⟨c, rest, rfl, ?_⟩
    rw [first_of_isDigit (h c (List.mem_cons_self ..))]
    simpa using numeral_whole (A := A) h ends_nil (by simp [PointDigit])
  | @decimal whole fraction hwhole hfraction h h' =>
    obtain ⟨c, rest, rfl⟩ := List.exists_cons_of_ne_nil hwhole
    obtain ⟨digit, digits, rfl⟩ := List.exists_cons_of_ne_nil hfraction
    obtain ⟨hdigit, hdigits⟩ := List.forall_mem_cons.1 h'
    have hnumeral := numeral_fraction (A := A) h hdigit digits
    rw [List.takeWhile_eq_self_iff.2 hdigits, List.dropWhile_eq_nil_iff.2 hdigits] at hnumeral
    exact ⟨c, rest ++ '.' :: digit :: digits, rfl,
      (first_of_isDigit (h c (List.mem_cons_self ..))).trans hnumeral⟩
  -- a word of the language is found as a name first, and then by its spelling
  | keyword word =>
    obtain ⟨c, rest, htext, hc⟩ := spelling_starts word
    have hname := name_run (List.all_eq_true.1 (spelling_parts word)) ends_nil
    rw [List.append_nil, nameKind_spelling] at hname
    refine ⟨c, rest, htext, ?_⟩
    rw [first_of_isNameStart hc, ← htext, hname]
  | @identifier c rest hc hrest h =>
    have hparts : ∀ d ∈ c :: rest, isNamePart d :=
      List.forall_mem_cons.2 ⟨isNamePart_of_isNameStart hc, hrest⟩
    have hname := name_run hparts ends_nil
    rw [List.append_nil, nameKind_of_ne h] at hname
    exact ⟨c, rest, rfl, (first_of_isNameStart hc).trans hname⟩

/-! ## What follows a piece -/

theorem length_dropWhile_append (p : Char → Bool) (a b : List Char) :
    ((a ++ b).dropWhile p).length ≤ (a.dropWhile p).length + b.length := by
  have hle := List.length_dropWhile_le p b
  rw [List.dropWhile_append]
  split
  · omega
  · rw [List.length_append]

theorem rest_quoted (text : List Char) : (quoted text).2 = (text.dropWhile (· != '"')).tail := by
  unfold quoted
  cases text.dropWhile (· != '"') <;> rfl

theorem length_quoted_append (a b : List Char) :
    (quoted (a ++ b)).2.length ≤ (quoted a).2.length + b.length := by
  have hle := List.length_dropWhile_le (· != '"') b
  rw [rest_quoted, rest_quoted, List.dropWhile_append, List.length_tail, List.length_tail]
  split
  · omega
  · next hclosed =>
    have hpos := List.length_pos_iff.2 fun heq => hclosed (List.isEmpty_iff.2 heq)
    rw [List.length_append]
    omega

theorem length_numeral_le (text : List Char) :
    (numeral A text).2.length ≤ (text.dropWhile Char.isDigit).length := by
  unfold numeral
  dsimp only
  split
  · next digit rest heq =>
    have hle := List.length_dropWhile_le Char.isDigit rest
    split
    · simp only [heq, List.length_cons]
      omega
    · simp only [heq, Nat.le_refl]
  · rfl

theorem length_numeral_append (a b : List Char) :
    (numeral A (a ++ b)).2.length ≤ (numeral A a).2.length + b.length := by
  obtain ⟨whole, rest, rfl, hwhole, hend⟩ := exists_run Char.isDigit a
  by_cases hpoint : PointDigit rest
  · obtain ⟨digit, text, rfl, hdigit⟩ := hpoint
    rw [List.append_assoc, List.cons_append, List.cons_append, numeral_fraction hwhole hdigit,
      numeral_fraction hwhole hdigit]
    exact length_dropWhile_append Char.isDigit text b
  -- whatever becomes of the rest, the digits before it still belong to the number
  · have hle := length_numeral_le (A := A) (whole ++ (rest ++ b))
    rw [List.dropWhile_append_of_pos hwhole] at hle
    have hrest := List.length_dropWhile_le Char.isDigit (rest ++ b)
    rw [List.length_append] at hrest
    rw [List.append_assoc, numeral_whole hwhole hend hpoint]
    exact hle.trans hrest

theorem length_symbol_append (c d : Char) (a b : List Char) :
    (symbol c (d :: (a ++ b))).2.length = (symbol c (d :: a)).2.length + b.length := by
  unfold symbol
  by_cases hd : d = '='
  · subst hd
    cases symbolWithEqual? c <;> cases symbol? c <;> simp [Nat.add_right_comm]
  · cases symbol? c <;> simp [hd, Nat.add_right_comm]

/-- With more text behind it, the first piece is no shorter. -/
theorem length_first_append (A : Arithmetic) (c : Char) (a b : List Char) :
    (first A c (a ++ b)).2.length ≤ (first A c a).2.length + b.length := by
  cases a with
  | nil => exact (length_first A c b).trans (Nat.le_add_left ..)
  | cons d a =>
    unfold first
    rw [List.cons_append, List.head?_cons, List.head?_cons]
    split
    · rw [← List.cons_append, List.length_append]
    split
    · exact length_quoted_append (d :: a) b
    split
    · exact length_dropWhile_append (· != '\n') (c :: d :: a) b
    split
    · exact length_numeral_append (c :: d :: a) b
    split
    · exact length_dropWhile_append isNamePart (c :: d :: a) b
    · exact (length_symbol_append c d a b).le

/-! ## What is found -/

theorem recognized_quoted (h : '"' ∈ rest) : Recognized A (quoted rest).1 := by
  obtain ⟨text, tail, rfl, htext⟩ := List.eq_append_cons_of_mem h
  rw [quoted_of_closed htext]
  exact .string htext

theorem recognized_remark : Recognized A (remark ('/' :: '/' :: rest)).1 := by
  have htext : '\n' ∉ rest.takeWhile (· != '\n') := by
    intro hmem
    have hline := List.mem_takeWhile_imp hmem
    exact absurd hline (by decide)
  exact .comment htext

theorem recognized_numeral (hc : c.isDigit) : Recognized A (numeral A (c :: rest)).1 := by
  obtain ⟨whole, tail, heq, hwhole, hend⟩ := exists_run Char.isDigit (c :: rest)
  -- the first digit is part of the run
  have hne : whole ≠ [] := by
    rintro rfl
    rw [List.nil_append] at heq
    exact hend c (by rw [← heq, List.head?_cons]) hc
  rw [heq]
  by_cases hpoint : PointDigit tail
  · obtain ⟨digit, text, rfl, hdigit⟩ := hpoint
    have hfraction : ∀ d ∈ digit :: text.takeWhile Char.isDigit, d.isDigit :=
      List.forall_mem_cons.2 ⟨hdigit, fun _ hd => List.mem_takeWhile_imp hd⟩
    rw [numeral_fraction hwhole hdigit]
    exact .decimal hne (List.cons_ne_nil _ _) hwhole hfraction
  · rw [numeral_whole hwhole hend hpoint]
    exact .integer hne hwhole

theorem recognized_name (hc : isNameStart c) : Recognized A (name (c :: rest)).1 := by
  have hparts : ∀ d ∈ rest.takeWhile isNamePart, isNamePart d :=
    fun _ hd => List.mem_takeWhile_imp hd
  rw [name, List.takeWhile_cons_of_pos (isNamePart_of_isNameStart hc)]
  by_cases h : ∃ word : Keyword, word.spelling.toList = c :: rest.takeWhile isNamePart
  · obtain ⟨word, hword⟩ := h
    rw [← hword, nameKind_spelling]
    exact .keyword word
  · have hother : ∀ word : Keyword, word.spelling.toList ≠ c :: rest.takeWhile isNamePart :=
      fun word hword => h ⟨word, hword⟩
    rw [nameKind_of_ne hother]
    exact .identifier hc hparts hother

theorem mem_symbols_of_symbol? {kind : Token.Kind} (h : symbol? c = some kind) :
    ([c], kind) ∈ symbols := by
  unfold symbol? at h
  split at h <;> cases h <;> decide

theorem mem_symbols_of_symbolWithEqual? {kind : Token.Kind} (h : symbolWithEqual? c = some kind) :
    ([c, '='], kind) ∈ symbols := by
  unfold symbolWithEqual? at h
  split at h <;> cases h <;> decide

theorem recognized_symbol {kind : Token.Kind} (h : symbol? c = some kind) :
    Recognized A (symbol c rest).1 := by
  have hsingle : Recognized A (.token kind [c]) := .symbol (mem_symbols_of_symbol? h)
  unfold symbol
  rw [h]
  cases rest with
  | nil => exact hsingle
  | cons d rest =>
    by_cases hd : d = '='
    · subst hd
      cases hlonger : symbolWithEqual? c with
      | none => exact hsingle
      | some longer => exact .symbol (mem_symbols_of_symbolWithEqual? hlonger)
    · simpa [hd] using hsingle

theorem symbol_of_none (h : symbol? c = none) : symbol c rest = (.unexpected c, rest) := by
  have hlonger : symbolWithEqual? c = none := by
    unfold symbolWithEqual?
    split <;> simp_all [symbol?]
  unfold symbol
  rw [h, hlonger]
  cases rest with
  | nil => rfl
  | cons d rest => by_cases hd : d = '=' <;> simp [hd]

/-- What is found is recognized, unless the first character begins nothing or a string that is not
closed. -/
theorem first_cases (A : Arithmetic) (c : Char) (rest : List Char) :
    Recognized A (first A c rest).1 ∨ (∀ text, first A c text = (.unexpected c, text)) ∨
      c = '"' ∧ '"' ∉ rest := by
  by_cases hblank : isBlank c
  · left
    rw [first_of_isBlank hblank]
    exact .blank (isBlank_iff.1 hblank)
  by_cases hquote : c = '"'
  · subst hquote
    by_cases hclosed : '"' ∈ rest
    · exact .inl (recognized_quoted hclosed)
    · exact .inr (.inr ⟨rfl, hclosed⟩)
  by_cases hdigit : c.isDigit
  · left
    rw [first_of_isDigit hdigit]
    exact recognized_numeral hdigit
  by_cases hname : isNameStart c
  · left
    rw [first_of_isNameStart hname]
    exact recognized_name hname
  by_cases hslash : c = '/' ∧ rest.head? = some '/'
  · left
    obtain ⟨rfl, hhead⟩ := hslash
    obtain ⟨tail, rfl⟩ := List.head?_eq_some_iff.1 hhead
    exact recognized_remark
  -- one of the symbols is left, or nothing
  cases hsymbol : symbol? c with
  | some kind =>
    left
    have hfirst : first A c rest = symbol c rest := by
      simp [first, hblank, hquote, hdigit, hname, hslash]
    rw [hfirst]
    exact recognized_symbol hsymbol
  | none =>
    have hc : c ≠ '/' := by
      rintro rfl
      simp [symbol?] at hsymbol
    refine .inr (.inl fun text => ?_)
    rw [← symbol_of_none hsymbol]
    simp [first, hblank, hquote, hdigit, hname, hc]

/-! ## The first piece is the longest -/

theorem first_open (h : '"' ∉ rest) : first A '"' rest = (.unterminated ('"' :: rest), []) :=
  first_quote.trans (quoted_of_open h)

/-- No recognized piece is a character that begins nothing. -/
theorem Recognized.head_ne {piece : Piece} (h : Recognized A piece)
    (hc : ∀ text, first A c text = (.unexpected c, text)) : piece.text.head? ≠ some c := by
  obtain ⟨d, tail, htext, hfirst⟩ := h.first_eq
  rw [htext, List.head?_cons]
  rintro ⟨rfl⟩
  rw [hc] at hfirst
  obtain ⟨rfl, -⟩ := Prod.mk.inj hfirst
  cases h

/-- Every recognized piece that the text begins with fits into the first piece. -/
theorem Recognized.length_le {piece : Piece} (h : Recognized A piece)
    (hbegin : piece.text <+: c :: rest) : piece.text.length ≤ (first A c rest).1.text.length := by
  obtain ⟨d, tail, htext, hfirst⟩ := h.first_eq
  obtain ⟨behind, hbehind⟩ := hbegin
  rw [htext, List.cons_append] at hbehind
  obtain ⟨rfl, rfl⟩ := List.cons.inj hbehind
  have hrest := length_first_append A d tail behind
  have htexts := congrArg List.length (text_first A d (tail ++ behind))
  rw [hfirst, List.length_nil] at hrest
  rw [List.length_append, List.length_cons, List.length_append] at htexts
  rw [htext, List.length_cons]
  omega

/-- The piece found at the front of a text is its longest one. -/
theorem longest_first (A : Arithmetic) (c : Char) (rest : List Char) :
    Longest A (c :: rest) (first A c rest).1 (first A c rest).2 := by
  rcases first_cases A c rest with hrecognized | hunexpected | ⟨rfl, hopen⟩
  · have htext := text_first A c rest
    have hlongest : ∀ other, Recognized A other →
        other.text <+: (first A c rest).1.text ++ (first A c rest).2 →
        other.text.length ≤ (first A c rest).1.text.length := by
      intro other hother hbegin
      rw [htext] at hbegin
      exact hother.length_le hbegin
    have hfound := Longest.recognized hrecognized hlongest
    rwa [htext] at hfound
  · rw [hunexpected]
    exact .unexpected fun other hother => hother.head_ne hunexpected
  · rw [first_open hopen]
    exact .unterminated hopen

/-- A recognized piece that is the longest of a text is the one found. -/
theorem Recognized.first_append {piece : Piece} (h : Recognized A piece)
    (hlongest : ∀ other, Recognized A other → other.text <+: piece.text ++ rest →
      other.text.length ≤ piece.text.length) :
    ∃ c tail, piece.text ++ rest = c :: tail ∧ first A c tail = (piece, rest) := by
  obtain ⟨c, tail, htext, hfirst⟩ := h.first_eq
  have hwhole : piece.text ++ rest = c :: (tail ++ rest) := by rw [htext, List.cons_append]
  refine ⟨c, tail ++ rest, hwhole, ?_⟩
  rcases first_cases A c (tail ++ rest) with hrecognized | hunexpected | ⟨rfl, hopen⟩
  -- two recognized pieces of the same length are read off the same characters
  · have hcut := (text_first A c (tail ++ rest)).trans hwhole.symm
    have hle := hlongest _ hrecognized ⟨_, hcut⟩
    have hge := h.length_le ⟨rest, hwhole⟩
    obtain ⟨hsame, hrest⟩ := List.append_inj hcut (Nat.le_antisymm hle hge)
    obtain ⟨d, tail', htext', hfirst'⟩ := hrecognized.first_eq
    rw [hsame, htext] at htext'
    obtain ⟨rfl, rfl⟩ := List.cons.inj htext'
    rw [hfirst] at hfirst'
    exact Prod.ext (Prod.mk.inj hfirst').1.symm hrest
  · have hhead : piece.text.head? = some c := by rw [htext, List.head?_cons]
    exact absurd hhead (h.head_ne hunexpected)
  -- a quote that is not closed is not closed either in less text
  · rw [first_open fun hmem => hopen (List.mem_append_left _ hmem)] at hfirst
    obtain ⟨rfl, -⟩ := Prod.mk.inj hfirst
    cases h

/-- A text has no other longest piece at its front than the one found. -/
theorem Longest.first_eq {piece : Piece} (h : Longest A text piece rest) :
    ∃ c tail, text = c :: tail ∧ first A c tail = (piece, rest) := by
  cases h with
  | recognized h hlongest => exact h.first_append hlongest
  | @unexpected c _ hnone =>
    refine ⟨c, rest, rfl, ?_⟩
    rcases first_cases A c rest with hrecognized | hunexpected | ⟨rfl, hopen⟩
    · obtain ⟨d, tail, htext, hfirst⟩ := hrecognized.first_eq
      have hcut := text_first A c rest
      rw [htext, List.cons_append] at hcut
      obtain ⟨rfl, -⟩ := List.cons.inj hcut
      exact absurd (by rw [htext, List.head?_cons]) (hnone _ hrecognized)
    · exact hunexpected rest
    -- a quote begins a string, if only the empty one
    · exact absurd rfl (hnone _ (.string List.not_mem_nil))
  | @unterminated text h => exact ⟨'"', text, rfl, first_open h⟩

/-! ## All pieces -/

/-- There is one longest-match tokenization of a text. -/
theorem tokenization_iff {pieces : List Piece} : Tokenization A text pieces ↔ pieces = split A text := by
  constructor
  · intro h
    induction h with
    | nil => rfl
    | cons h _ ih =>
      obtain ⟨c, tail, rfl, hfirst⟩ := h.first_eq
      rw [split_cons, hfirst, ih]
  · rintro rfl
    induction hn : text.length using Nat.strongRecOn generalizing text with
    | ind n ih =>
      cases text with
      | nil => exact .nil
      | cons c rest =>
        have hlength := length_first A c rest
        rw [List.length_cons] at hn
        rw [split_cons]
        exact .cons (longest_first A c rest) (ih _ (by omega) rfl)

/-- A name goes on behind a reserved word, and a number stops before a point without a digit. -/
example (A : Arithmetic) : (split A "orchid!==6.//".toList).map Piece.text =
    ["orchid".toList, "!=".toList, "=".toList, "6".toList, ".".toList, "//".toList] := rfl

theorem Longest.text_ne_nil {piece : Piece} (h : Longest A text piece rest) : piece.text ≠ [] := by
  cases h with
  | recognized h _ =>
    obtain ⟨c, tail, htext, -⟩ := h.first_eq
    rw [htext]
    exact List.cons_ne_nil c tail
  | unexpected _ => exact List.cons_ne_nil _ _
  | unterminated _ => exact List.cons_ne_nil _ _

theorem Longest.text_append {piece : Piece} (h : Longest A text piece rest) :
    piece.text ++ rest = text := by
  cases h with
  | recognized _ _ => rfl
  | unexpected _ => rfl
  | unterminated _ => exact List.append_nil _

namespace Tokenization

variable {pieces : List Piece}

/-- Nothing is lost. -/
theorem flatMap_text (h : Tokenization A text pieces) : pieces.flatMap Piece.text = text := by
  induction h with
  | nil => rfl
  | cons h _ ih => rw [List.flatMap_cons, ih, h.text_append]

theorem text_ne_nil (h : Tokenization A text pieces) : ∀ piece ∈ pieces, piece.text ≠ [] := by
  induction h with
  | nil => exact List.forall_mem_nil _
  | cons h _ ih => exact List.forall_mem_cons.2 ⟨h.text_ne_nil, ih⟩

/-- Nothing follows a string that is not closed. -/
theorem eq_nil_of_unterminated (h : Tokenization A text pieces) :
    ∀ before quoted after, pieces = before ++ .unterminated quoted :: after → after = [] := by
  induction h with
  | nil => simp
  | cons h hrest ih =>
    intro before quoted after heq
    cases before with
    | nil =>
      obtain ⟨rfl, rfl⟩ := List.cons.inj heq
      cases h with
      | recognized h _ => cases h
      -- an open string takes all characters, and each piece has one
      | unterminated _ =>
        cases hrest with
        | nil => rfl
        | cons h _ =>
          obtain ⟨c, tail, hnil, -⟩ := h.first_eq
          cases hnil
    | cons piece before =>
      obtain ⟨-, htail⟩ := List.cons.inj heq
      exact ih before quoted after htail

end Tokenization

/-- The kind and the lexeme of a token. -/
def token? : Piece → Option (Token.Kind × String)
  | .token kind lexeme => some (kind, String.ofList lexeme)
  | _ => none

/-- What is wrong with a piece. -/
def problem? : Piece → Option LexicalError.Problem
  | .unexpected _ => some .unexpectedCharacter
  | .unterminated _ => some .unterminatedString
  | _ => none

end Piece

namespace Scan

theorem tokens_ofPieces (line : Nat) (pieces : List Piece) :
    (ofPieces line pieces).tokens.map (fun t => (t.kind, t.lexeme)) =
      pieces.filterMap Piece.token? ++ [(.endOfInput, "")] := by
  induction pieces generalizing line with
  | nil => rfl
  | cons piece pieces ih =>
    unfold ofPieces
    cases piece <;> simp [prepend, Piece.token?, List.filterMap_cons, ih]

theorem errors_ofPieces (line : Nat) (pieces : List Piece) :
    (ofPieces line pieces).errors.map (·.problem) = pieces.filterMap Piece.problem? := by
  induction pieces generalizing line with
  | nil => rfl
  | cons piece pieces ih =>
    unfold ofPieces
    cases piece <;> simp [prepend, Piece.problem?, List.filterMap_cons, ih]

/-- Scanning a script is its longest-match tokenization, of which there is one, and loses nothing. The
tokens are the pieces that are tokens, with the end of the script behind them, and the errors are the
pieces that are faulty. -/
theorem ofSource_longestMatch (A : Arithmetic) (source : String) :
    ∃ pieces, (∀ others, Piece.Tokenization A source.toList others ↔ others = pieces) ∧
      pieces.flatMap Piece.text = source.toList ∧
      (∀ piece ∈ pieces, piece.text ≠ []) ∧
      (∀ before quoted after, pieces = before ++ .unterminated quoted :: after → after = []) ∧
      (ofSource A source).tokens.map (fun t => (t.kind, t.lexeme)) =
        pieces.filterMap Piece.token? ++ [(.endOfInput, "")] ∧
      (ofSource A source).errors.map (·.problem) = pieces.filterMap Piece.problem? := by
  have hpieces : Piece.Tokenization A source.toList (Piece.split A source.toList) :=
    Piece.tokenization_iff.2 rfl
  exact ⟨_, fun others => Piece.tokenization_iff, hpieces.flatMap_text, hpieces.text_ne_nil,
    hpieces.eq_nil_of_unterminated, tokens_ofPieces 1 _, errors_ofPieces 1 _⟩

end Scan

end LoxScript
