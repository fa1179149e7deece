import LoxScript.Proofs.Number.ReadsBack
import LoxScript.Proofs.Token.LongestMatch
import LoxScript.Syntax.Program

/-!
# Tokens with blanks between them

The lexemes of tokens, with a blank behind each, are the same tokens again: no lexeme goes on over a blank
but that of a string, which ends at its own quote whatever follows. Behind the blank there may be more
blanks, and comments with the line feeds that end them. So a text can be made of any tokens that are found
in some text, and it does not matter how they are set apart.

## Main definitions

* `Piece.Filler`, `Piece.Separator`: blanks and comments, and those that may stand behind any token.
* `Token.Lexed`: a token with a lexeme that is recognized as its kind.
* `Token.Apart`, `Token.Respaced`: the texts that are made of a list of tokens and separators.
* `Token.spaced`: the text with one blank between each two tokens.

## Main statements

* `Piece.Recognized.first_stop`: a recognized token ends before a blank or a closing parenthesis.
* `Scan.lexed_of_mem_content`: the tokens of a script have lexemes of their kinds.
* `Scan.ofSource_apart`: what is scanned of tokens that are set apart is these tokens.
* `Scan.ofSource_respaced`: scanning a script again after the space in it was changed.
-/

namespace LoxScript

namespace Piece

variable {A : Arithmetic} {rest text : List Char}

/-! ## One token before a blank or a parenthesis -/

/-- Characters before which every token ends. -/
def stops : List Char := [' ', '\t', '\r', '\n', ')']

theorem first_symbol_stop (A : Arithmetic) {b : Char} (hb : b ∈ stops) (rest : List Char) :
    ∀ s ∈ symbols, ∃ c tail, s.1 = c :: tail ∧
      first A c (tail ++ b :: rest) = (.token s.2 s.1, b :: rest) := by
  simp only [symbols, List.forall_mem_cons, List.not_mem_nil, false_implies, implies_true, and_true]
  simp only [stops, List.mem_cons, List.not_mem_nil, or_false] at hb
  rcases hb with rfl | rfl | rfl | rfl | rfl <;> and_intros <;> exact ⟨_, _, rfl, rfl⟩

/-- A name and a number end before such a character. -/
theorem ends_stop {b : Char} (hb : b ∈ stops) (rest : List Char) :
    Ends isNamePart (b :: rest) ∧ Ends Char.isDigit (b :: rest) ∧ ¬PointDigit (b :: rest) := by
  simp only [stops, List.mem_cons, List.not_mem_nil, or_false] at hb
  rcases hb with rfl | rfl | rfl | rfl | rfl <;> simp [Ends, PointDigit] <;> decide

/-- A name before such a character is found as a whole. -/
theorem first_name_stop {c b : Char} {tail : List Char} (hc : isNameStart c)
    (htail : ∀ d ∈ tail, isNamePart d) (hb : b ∈ stops) (rest : List Char) :
    first A c (tail ++ b :: rest) = (.token (nameKind (c :: tail)) (c :: tail), b :: rest) := by
  have hparts : ∀ d ∈ c :: tail, isNamePart d :=
    List.forall_mem_cons.2 ⟨isNamePart_of_isNameStart hc, htail⟩
  rw [first_of_isNameStart hc, ← List.cons_append]
  exact name_run hparts (ends_stop hb rest).1

/-- A recognized token ends before such a character. -/
theorem Recognized.first_stop {kind : Token.Kind} {lexeme : List Char}
    (h : Recognized A (.token kind lexeme)) {b : Char} (hb : b ∈ stops) (rest : List Char) :
    ∃ c tail, lexeme = c :: tail ∧
      first A c (tail ++ b :: rest) = (.token kind lexeme, b :: rest) := by
  obtain ⟨-, hend, hpoint⟩ := ends_stop hb rest
  -- a stop is part of no symbol, number or name, and a string ends at its own quote
  cases h with
  | symbol h => exact first_symbol_stop A hb rest _ h
  | @string text h =>
    refine ⟨'"', text ++ ['"'], rfl, ?_⟩
    rw [List.append_assoc]
    exact first_quote.trans (quoted_of_closed h)
  | @integer _ hwhole h =>
    obtain ⟨c, tail, rfl⟩ := List.exists_cons_of_ne_nil hwhole
    refine ⟨c, tail, rfl, ?_⟩
    rw [first_of_isDigit (h c (List.mem_cons_self ..))]
    exact numeral_whole h hend hpoint
  | @decimal whole fraction hwhole hfraction h h' =>
    obtain ⟨c, tail, rfl⟩ := List.exists_cons_of_ne_nil hwhole
    obtain ⟨digit, digits, rfl⟩ := List.exists_cons_of_ne_nil hfraction
    obtain ⟨hdigit, hdigits⟩ := List.forall_mem_cons.1 h'
    have hnumeral := numeral_fraction (A := A) h hdigit (digits ++ b :: rest)
    rw [takeWhile_run hdigits hend, dropWhile_run hdigits hend] at hnumeral
    refine ⟨c, tail ++ '.' :: digit :: digits, rfl, ?_⟩
    rw [first_of_isDigit (h c (List.mem_cons_self ..)), List.append_assoc]
    exact hnumeral
  | keyword word =>
    obtain ⟨c, tail, htext, hc⟩ := spelling_starts word
    have hparts := List.all_eq_true.1 (spelling_parts word)
    rw [htext] at hparts
    refine ⟨c, tail, htext, ?_⟩
    rw [first_name_stop hc (fun d hd => hparts d (List.mem_cons_of_mem c hd)) hb, ← htext,
      nameKind_spelling]
  | @identifier c tail hc hrest h =>
    refine ⟨c, tail, rfl, ?_⟩
    rw [first_name_stop hc hrest hb, nameKind_of_ne h]

/-- A decimal is recognized as a token for its value. -/
theorem recognized_decimal (A : Arithmetic) (d : Decimal) :
    Recognized A (.token (.number (A.ofDecimal d)) d.text) := by
  obtain ⟨whole, fraction, hwhole, hdigits, hdigits', hd, htext⟩ := d.exists_digits
  rw [htext]
  by_cases hfraction : fraction = []
  · subst hfraction
    rw [hd, if_pos rfl]
    exact .integer hwhole hdigits
  · rw [hd, if_neg hfraction]
    exact .decimal hwhole hfraction hdigits hdigits'

/-- No recognized token stands for the end of the script. -/
theorem Recognized.kind_ne {kind : Token.Kind} {lexeme : List Char}
    (h : Recognized A (.token kind lexeme)) : kind ≠ .endOfInput := by
  rintro rfl
  cases h with
  | symbol h => simp [symbols] at h

/-- Whatever token is found in a text is recognized. -/
theorem Tokenization.recognized {pieces : List Piece} (h : Tokenization A text pieces)
    {kind : Token.Kind} {lexeme : List Char} (hmem : .token kind lexeme ∈ pieces) :
    Recognized A (.token kind lexeme) := by
  induction h with
  | nil => cases hmem
  | cons hfirst _ ih =>
    rcases List.mem_cons.1 hmem with rfl | hmem
    · cases hfirst with
      | recognized h _ => exact h
    · exact ih hmem

/-! ## Between tokens -/

/-- Blanks and comments, each comment with the line feed that ends it. -/
inductive Filler : List Char → Prop where
  | nil : Filler []
  | blank {c : Char} {text : List Char} (hc : c ∈ [' ', '\t', '\r', '\n']) (h : Filler text) :
      Filler (c :: text)
  | comment {remark text : List Char} (hremark : '\n' ∉ remark) (h : Filler text) :
      Filler ('/' :: '/' :: (remark ++ '\n' :: text))

/-- Blanks and comments that begin with a blank. A comment behind a slash would begin with the slash. -/
inductive Separator : List Char → Prop where
  | mk {c : Char} {text : List Char} (hc : c ∈ [' ', '\t', '\r', '\n']) (h : Filler text) :
      Separator (c :: text)

theorem Separator.filler {separator : List Char} (h : Separator separator) : Filler separator := by
  obtain ⟨hc, h⟩ := h
  exact .blank hc h

theorem first_comment {remark : List Char} (h : '\n' ∉ remark) (rest : List Char) :
    first A '/' ('/' :: (remark ++ '\n' :: rest)) = (.comment ('/' :: '/' :: remark), '\n' :: rest) := by
  have hline : '\n' ∉ '/' :: '/' :: remark := by simpa using h
  have hend : Ends (· != '\n') ('\n' :: rest) := by simp [Ends]
  have htake := takeWhile_run (bne_of_notMem hline) hend
  have hdrop := dropWhile_run (bne_of_notMem hline) hend
  rw [first_slash, Piece.remark]
  exact congrArg₂ (fun text rest => (Piece.comment text, rest)) htake hdrop

/-- A filler is cut into pieces that are neither tokens nor faulty, whatever stands behind it. -/
theorem Filler.split_append {filler : List Char} (h : Filler filler) (A : Arithmetic)
    (rest : List Char) :
    ∃ gaps, split A (filler ++ rest) = gaps ++ split A rest ∧ gaps.filterMap token? = [] ∧
      gaps.filterMap problem? = [] := by
  induction h with
  | nil => exact ⟨[], rfl, rfl, rfl⟩
  | @blank c text hc _ ih =>
    obtain ⟨gaps, hsplit, htokens, hproblems⟩ := ih
    refine ⟨.blank c :: gaps, ?_, htokens, hproblems⟩
    rw [List.cons_append, split_cons, first_of_isBlank (isBlank_iff.2 hc), hsplit, List.cons_append]
  | @comment remark text hremark _ ih =>
    obtain ⟨gaps, hsplit, htokens, hproblems⟩ := ih
    refine ⟨.comment ('/' :: '/' :: remark) :: .blank '\n' :: gaps, ?_, htokens, hproblems⟩
    -- the line feed that ends the comment is a piece of its own
    rw [List.cons_append, List.cons_append, List.append_assoc, List.cons_append, split_cons,
      first_comment hremark, split_cons, first_of_isBlank (by decide), hsplit]
    rfl

end Piece

/-! ## Lists of tokens -/

namespace Token

variable {A : Arithmetic} {ts : List Token} {text : List Char}

/-- The piece of a script that the token is read off. -/
def piece (t : Token) : Piece := .token t.kind t.lexeme.toList

theorem token?_piece (t : Token) : t.piece.token? = some (t.kind, t.lexeme) := by
  simp [piece, Piece.token?]

theorem problem?_piece (t : Token) : t.piece.problem? = none := rfl

/-- The lexeme is recognized as a token of its kind. -/
def Lexed (A : Arithmetic) (t : Token) : Prop := Piece.Recognized A t.piece

/-- `Apart ts text`: the text consists of the lexemes of the tokens, in order, with a separator between each
two of them and maybe one behind the last. -/
inductive Apart : List Token → List Char → Prop where
  | nil : Apart [] []
  | last (t : Token) : Apart [t] t.lexeme.toList
  | cons (t : Token) {ts : List Token} {separator text : List Char}
      (hseparator : Piece.Separator separator) (h : Apart ts text) :
      Apart (t :: ts) (t.lexeme.toList ++ (separator ++ text))

/-- `Respaced ts text`: the text consists of the lexemes of the tokens, in order, with separators between
them, and maybe with blanks and comments in front of the first and with a separator behind the last. -/
def Respaced (ts : List Token) (text : List Char) : Prop :=
  ∃ leading body, text = leading ++ body ∧ Piece.Filler leading ∧ Apart ts body

/-- In a text of tokens that are set apart the tokens are found again, and no errors. -/
theorem Apart.split (h : Apart ts text) (hlexed : ∀ t ∈ ts, t.Lexed A) :
    (Piece.split A text).filterMap Piece.token? = ts.map (fun t => (t.kind, t.lexeme)) ∧
      (Piece.split A text).filterMap Piece.problem? = [] := by
  induction h with
  | nil => exact ⟨rfl, rfl⟩
  | last t =>
    have ht : t.Lexed A := hlexed t (List.mem_singleton_self t)
    obtain ⟨c, tail, hlexeme, hfirst⟩ := Piece.Recognized.first_eq ht
    replace hlexeme : t.lexeme.toList = c :: tail := hlexeme
    rw [hlexeme, Piece.split_cons, hfirst, Piece.split_nil, List.filterMap_cons_some t.token?_piece,
      List.filterMap_cons_none t.problem?_piece]
    exact ⟨rfl, rfl⟩
  | @cons t ts separator text hseparator _ ih =>
    obtain ⟨ht, hts⟩ := List.forall_mem_cons.1 hlexed
    obtain ⟨htokens, hproblems⟩ := ih hts
    obtain ⟨gaps, hsplit, hgaps, hsound⟩ := hseparator.filler.split_append A text
    -- the token ends at the blank that the separator begins with
    obtain @⟨b, filler, hb, -⟩ := hseparator
    have hstop : b ∈ Piece.stops := List.mem_append_left [')'] hb
    obtain ⟨c, tail, hlexeme, hfirst⟩ := Piece.Recognized.first_stop ht hstop (filler ++ text)
    replace hfirst : Piece.first A c (tail ++ (b :: filler ++ text)) = (t.piece, b :: filler ++ text) :=
      hfirst
    rw [hlexeme, List.cons_append, Piece.split_cons, hfirst, hsplit,
      List.filterMap_cons_some t.token?_piece, List.filterMap_cons_none t.problem?_piece,
      List.filterMap_append, List.filterMap_append, hgaps, hsound, htokens, hproblems]
    exact ⟨rfl, rfl⟩

/-- The lexemes of the tokens, with a blank between each two. -/
def spaced (ts : List Token) : String := " ".intercalate (ts.map (·.lexeme))

theorem apart_spaced (ts : List Token) : Apart ts (spaced ts).toList := by
  rw [spaced, String.toList_intercalate, List.map_map]
  induction ts with
  | nil => exact .nil
  | cons t ts ih =>
    cases ts with
    | nil =>
      rw [List.map_singleton, List.intercalate_singleton]
      exact .last t
    | cons u ts =>
      rw [List.map_cons, List.map_cons, List.intercalate_cons_cons, List.append_assoc]
      exact .cons t (.mk (by decide) .nil) ih

/-- Tokens that are the same but for their lines. -/
def SameText (t u : Token) : Prop := u.kind = t.kind ∧ u.lexeme = t.lexeme

/-- The kinds and lexemes of the tokens of a script are those before the end of the script. -/
theorem content_sameText {us : List Token} (hts : ∀ t ∈ ts, t.kind ≠ .endOfInput)
    (h : us.map (fun u => (u.kind, u.lexeme)) =
      ts.map (fun t => (t.kind, t.lexeme)) ++ [(.endOfInput, "")]) :
    List.Forall₂ SameText ts (content us) := by
  induction ts generalizing us with
  | nil =>
    obtain ⟨u, rfl, hu⟩ := List.map_eq_singleton_iff.1 h
    have hending : u.kind = .endOfInput := (Prod.mk.inj hu).1
    simp [content, hending]
  | cons t ts ih =>
    obtain ⟨ht, hts⟩ := List.forall_mem_cons.1 hts
    obtain ⟨u, us, rfl, hu, hus⟩ := List.map_eq_cons_iff.1 h
    obtain ⟨hkind, hlexeme⟩ := Prod.mk.inj hu
    have hcontent : content (u :: us) = u :: content us :=
      List.takeWhile_cons_of_pos (by simpa [hkind] using ht)
    rw [hcontent]
    exact .cons ⟨hkind, hlexeme⟩ (ih hts hus)

end Token

namespace Scan

variable {A : Arithmetic} {ts : List Token}

/-- The tokens of a script have lexemes of their kinds. -/
theorem lexed_of_mem_content {source : String} {t : Token}
    (ht : t ∈ Token.content (ofSource A source).tokens) : t.Lexed A := by
  have hkind : t.kind ≠ .endOfInput := by simpa using List.mem_takeWhile_imp ht
  have hmem := List.mem_map_of_mem (f := fun t : Token => (t.kind, t.lexeme))
    ((List.takeWhile_prefix _).subset ht)
  rw [ofSource, tokens_ofPieces, List.mem_append] at hmem
  rcases hmem with hpiece | hending
  · obtain ⟨piece, hpiece, htoken⟩ := List.mem_filterMap.1 hpiece
    cases piece with
    | token kind lexeme =>
      obtain ⟨rfl, hlexeme⟩ := Prod.mk.inj (Option.some.inj htoken)
      have hrecognized := (Piece.tokenization_iff.2 rfl).recognized hpiece
      rwa [Token.Lexed, Token.piece, ← hlexeme, String.toList_ofList]
    | _ => cases htoken
  · exact absurd (Prod.mk.inj (List.mem_singleton.1 hending)).1 hkind

/-- Tokens that are set apart are scanned as these tokens, on other lines, and without errors. -/
theorem ofSource_apart {text : String} (h : Token.Respaced ts text.toList)
    (hlexed : ∀ t ∈ ts, t.Lexed A) :
    (ofSource A text).errors = [] ∧
      (ofSource A text).tokens.map (fun t => (t.kind, t.lexeme)) =
        ts.map (fun t => (t.kind, t.lexeme)) ++ [(.endOfInput, "")] := by
  obtain ⟨leading, body, htext, hleading, hbody⟩ := h
  obtain ⟨gaps, hsplit, hgaps, hsound⟩ := hleading.split_append A body
  obtain ⟨htokens, hproblems⟩ := hbody.split hlexed
  unfold ofSource
  rw [htext, hsplit]
  constructor
  · rw [← List.map_eq_nil_iff (f := (·.problem)), errors_ofPieces, List.filterMap_append, hsound,
      hproblems, List.append_nil]
  · rw [tokens_ofPieces, List.filterMap_append, hgaps, htokens, List.nil_append]

/-- A text made of tokens has no errors in it, and its tokens are these, on other lines. -/
theorem content_spaced (h : ∀ t ∈ ts, t.Lexed A) :
    (ofSource A (Token.spaced ts)).errors = [] ∧
      List.Forall₂ Token.SameText ts (Token.content (ofSource A (Token.spaced ts)).tokens) := by
  obtain ⟨herrors, htokens⟩ :=
    ofSource_apart ⟨[], _, rfl, .nil, Token.apart_spaced ts⟩ h
  exact ⟨herrors, Token.content_sameText (fun t ht => (h t ht).kind_ne) htokens⟩

/-- The space between the tokens of a script does not matter, as long as there is some, and neither do
errors in the script: what is scanned of the lexemes of its tokens, set apart in any way, has no errors and
the same kinds and lexemes. -/
theorem ofSource_respaced {source respaced : String}
    (h : Token.Respaced (Token.content (ofSource A source).tokens) respaced.toList) :
    (ofSource A respaced).errors = [] ∧
      (ofSource A respaced).tokens.map (fun t => (t.kind, t.lexeme)) =
        (ofSource A source).tokens.map (fun t => (t.kind, t.lexeme)) := by
  obtain ⟨herrors, htokens⟩ := ofSource_apart h fun t ht => lexed_of_mem_content ht
  have hsource := congrArg (List.map fun t => (t.kind, t.lexeme)) (tokens_eq_content_append A source)
  rw [List.map_append] at hsource
  exact ⟨herrors, htokens.trans hsource.symm⟩

/-- An operator and an equals sign stay two tokens, and the character between them is no token. -/
theorem ofSource_respaced_bang_equal :
    let source := "!@=// c"
    let respaced := "// a\n\t!\n// b\n\r= "
    Token.Respaced (Token.content (ofSource .binary64 source).tokens) respaced.toList ∧
      (ofSource .binary64 respaced).errors = [] ∧
      (ofSource .binary64 respaced).tokens.map (·.kind) = [.bang, .equal, .endOfInput] := by
  intro source respaced
  have hcontent : Token.content (ofSource .binary64 source).tokens =
      [⟨.bang, "!", 1⟩, ⟨.equal, "=", 1⟩] := by decide +kernel
  have hleading : Piece.Filler "// a\n\t".toList :=
    @Piece.Filler.comment [' ', 'a'] _ (by decide) (.blank (by decide) .nil)
  have hseparator : Piece.Separator "\n// b\n\r".toList :=
    .mk (by decide) (@Piece.Filler.comment [' ', 'b'] _ (by decide) (.blank (by decide) .nil))
  have hend : Piece.Separator [' '] := .mk (by decide) .nil
  have hrespaced : Token.Respaced (Token.content (ofSource .binary64 source).tokens)
      respaced.toList := by
    rw [hcontent]
    exact ⟨_, _, by decide, hleading, .cons _ hseparator (.cons _ hend .nil)⟩
  obtain ⟨herrors, htokens⟩ := ofSource_respaced hrespaced
  refine ⟨hrespaced, herrors, ?_⟩
  have hkinds := congrArg (List.map (·.1)) htokens
  rw [List.map_map, List.map_map] at hkinds
  exact hkinds.trans (by decide +kernel)

end Scan

end LoxScript
