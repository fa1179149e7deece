import LoxScript.Proofs.Syntax.Progress
import Mathlib.Order.Bounds.Basic

/-!
# Where reading resumes

After an error, reading goes on at the nearest later place where a statement may begin: behind a semicolon, at
a word that a statement begins with, or at the end of the script. The token that something was wrong with is
passed without asking whether it is such a word, but it counts if it is a semicolon. Nothing else changes on
the way.

Every token is looked at twice: as one to stop at, and, once it was passed, as a semicolon. What carries the
walk is that the token before the place is no semicolon. Then the place is a boundary exactly if the token at it
says so.

## Main definitions

* `Walk.AtEnd`, `Walk.Boundary`: the ends of a script, and the places where a statement may begin.
* `Walk.Resumes`: the place where reading resumes after an error at another place.
* `Walk.Comes`: a walk that leads from a state to a place, and changes nothing but the place.

## Main statements

* `Walk.seek_comes`: the nearest boundary not before a place.
* `Walk.synchronize_resumes`: recovery leads from every place in a list of tokens to where it should, and
  changes nothing else.
-/

namespace LoxScript

namespace Walk

open Tokens

/-! ## Boundaries -/

/-- The words that a statement begins with. -/
def statementWords : List Keyword := [.class, .fun, .var, .for, .if, .while, .print, .return]

/-- The token at a place is for the end of the script. -/
def AtEnd (tokens : List Token) (place : Nat) : Prop :=
  ∃ t, tokens[place]? = some t ∧ t.kind = .endOfInput

/-- The token at a place is a word that a statement begins with. -/
def AtWord (tokens : List Token) (place : Nat) : Prop :=
  ∃ t, tokens[place]? = some t ∧ ∃ word ∈ statementWords, t.kind = .keyword word

/-- The token before a place is a semicolon. -/
def BehindSemicolon (tokens : List Token) (place : Nat) : Prop :=
  0 < place ∧ ∃ t, tokens[place - 1]? = some t ∧ t.kind = .semicolon

/-- A place where a statement may begin, or where there is nothing more to read. -/
def Boundary (tokens : List Token) (place : Nat) : Prop :=
  BehindSemicolon tokens place ∨ AtWord tokens place ∨ AtEnd tokens place

/-- The place where reading resumes after an error at the place `start`. -/
structure Resumes (tokens : List Token) (start place : Nat) : Prop where
  /-- At the end of the script nothing is passed. -/
  stays : AtEnd tokens start → place = start
  /-- Anywhere else it is the nearest later place where a statement may begin. -/
  nearest : ¬ AtEnd tokens start → IsLeast {p | start < p ∧ Boundary tokens p} place
  /-- No end of the script is passed. -/
  notBehind : ∀ i, start ≤ i → AtEnd tokens i → place ≤ i

variable {α : Type} {tokens : List Token} {s : State} {t : Token} {place : Nat}

instance : Decidable (AtEnd tokens place) :=
  inferInstanceAs (Decidable (∃ t, tokens[place]? = some t ∧ _))

instance : Decidable (AtWord tokens place) :=
  inferInstanceAs (Decidable (∃ t, tokens[place]? = some t ∧ _))

instance : Decidable (BehindSemicolon tokens place) :=
  inferInstanceAs (Decidable (_ ∧ ∃ t, tokens[place - 1]? = some t ∧ _))

instance : Decidable (Boundary tokens place) := inferInstanceAs (Decidable (_ ∨ _ ∨ _))

theorem atEnd_iff (ht : tokens[place]? = some t) : AtEnd tokens place ↔ t.kind = .endOfInput := by
  simp [AtEnd, ht]

theorem atWord_iff (ht : tokens[place]? = some t) :
    AtWord tokens place ↔ Parser.startsStatement t.kind = true := by
  simp [AtWord, ht, Parser.startsStatement, statementWords, or_assoc]

theorem behindSemicolon_succ_iff (ht : tokens[place]? = some t) :
    BehindSemicolon tokens (place + 1) ↔ t.kind = .semicolon := by
  simp [BehindSemicolon, ht]

theorem getElem?_of_lt_atEnd {last : Nat} (hlast : AtEnd tokens last) (h : place < last) :
    ∃ t, tokens[place]? = some t := by
  obtain ⟨u, hu, -⟩ := hlast
  have hlength : last < tokens.length := (List.getElem?_eq_some_iff.1 hu).1
  exact ⟨_, List.getElem?_eq_getElem (Nat.lt_trans h hlength)⟩

/-- From a boundary on, it is the nearest one itself. -/
theorem isLeast_of_boundary (h : Boundary tokens place) :
    IsLeast {p | place ≤ p ∧ Boundary tokens p} place :=
  ⟨⟨Nat.le_refl _, h⟩, fun _ hp => hp.1⟩

/-- From a place that is no boundary, the nearest one is the nearest behind it. -/
theorem isLeast_of_not_boundary {start : Nat} (hstart : ¬ Boundary tokens start)
    (h : IsLeast {p | start < p ∧ Boundary tokens p} place) :
    IsLeast {p | start ≤ p ∧ Boundary tokens p} place := by
  obtain ⟨⟨hlater, hplace⟩, hleast⟩ := h
  refine ⟨⟨Nat.le_of_lt hlater, hplace⟩, fun p ⟨hp, hboundary⟩ => ?_⟩
  have hne : start ≠ p := fun heq => hstart (heq ▸ hboundary)
  exact hleast ⟨Nat.lt_of_le_of_ne hp hne, hboundary⟩

/-! ## Walks that only move -/

/-- From the state `s` the walk `p` leads to a place, looking at places on the way there. It ends without an
error, and none is written down. -/
def Comes (p : Walk Unit) (s : State) (place : Nat) : Prop :=
  ∃ path, Path s.current path place ∧ p.answer s = some (.ok (), ⟨place, s.errors, s.visited ++ path⟩)

/-- A walk that stops where it is. -/
theorem comes_pure (s : State) : Comes (pure ()) s s.current :=
  ⟨[], .nil _, by rw [answer_pure, List.append_nil]⟩

/-- One walk after another. -/
theorem Comes.after {p : Walk α} {f : α → Walk Unit} {a : α} {middle : Nat} {path : List Nat}
    (hp : p.answer s = some (.ok a, ⟨middle, s.errors, s.visited ++ path⟩))
    (hpath : Path s.current path middle) (h : Comes (f a) ⟨middle, s.errors, s.visited ++ path⟩ place) :
    Comes (p >>= f) s place := by
  obtain ⟨path', hpath', hanswer⟩ := h
  refine ⟨path ++ path', hpath.append hpath', ?_⟩
  rw [answer_bind, hp, ← List.append_assoc]
  exact hanswer

/-- Looking at the token at a place of any list. -/
theorem answer_peek_of_getElem? (ht : tokens[s.current]? = some t) :
    (peek tokens).answer s = some (.ok t, ⟨s.current, s.errors, s.visited ++ [s.current]⟩) := by
  show peek tokens s = _
  unfold peek
  rw [ht]

/-- Any token is passed but one for the end of the script. -/
theorem answer_advance_of_getElem? (ht : tokens[s.current]? = some t) :
    (advance tokens).answer s =
      some (.ok t, ⟨if t.kind = .endOfInput then s.current else s.current + 1, s.errors,
        s.visited ++ [s.current]⟩) := by
  unfold advance
  rw [answer_bind, answer_peek_of_getElem? ht]
  dsimp only
  by_cases hkind : t.kind = .endOfInput
  · rw [if_neg (not_not_intro hkind), if_pos hkind]
    rfl
  · rw [if_pos hkind, if_neg hkind]
    rfl

/-- First the token at the place is passed. -/
theorem Comes.step {f : Token → Walk Unit} (ht : tokens[s.current]? = some t)
    (hkind : t.kind ≠ .endOfInput)
    (h : Comes (f t) ⟨s.current + 1, s.errors, s.visited ++ [s.current]⟩ place) :
    Comes (advance tokens >>= f) s place := by
  have hadvance := answer_advance_of_getElem? ht
  rw [if_neg hkind] at hadvance
  exact Comes.after hadvance (Path.single _).next h

/-! ## Seeking -/

/-- At a word that a statement begins with, and at the end, seeking stops. -/
theorem seek_stops (ht : tokens[s.current]? = some t)
    (h : AtWord tokens s.current ∨ AtEnd tokens s.current) : Comes (seek tokens) s s.current := by
  rw [atWord_iff ht, atEnd_iff ht, or_comm] at h
  unfold seek
  refine Comes.after (answer_peek_of_getElem? ht) (.single _) ?_
  rw [if_pos (by simpa using h)]
  exact comes_pure _

/-- Any other token is passed. Behind a semicolon seeking stops, and else it goes on. -/
theorem seek_passes (ht : tokens[s.current]? = some t)
    (h : ¬ (AtWord tokens s.current ∨ AtEnd tokens s.current))
    (hrest : Comes (if t.kind = .semicolon then pure () else seek tokens)
      ⟨s.current + 1, s.errors, s.visited ++ [s.current] ++ [s.current]⟩ place) :
    Comes (seek tokens) s place := by
  rw [atWord_iff ht, atEnd_iff ht, or_comm] at h
  unfold seek
  refine Comes.after (answer_peek_of_getElem? ht) (.single _) ?_
  rw [if_neg (by simpa using h)]
  exact Comes.step ht (not_or.1 h).1 hrest

/-- What is done once a token was passed leads to the nearest boundary behind that token, if seeking does so
wherever no semicolon stands before the place. -/
theorem passed_comes (ht : tokens[place]? = some t) (hs : s.current = place + 1)
    (hseek : ¬ BehindSemicolon tokens s.current → ∃ p, Comes (seek tokens) s p ∧
      IsLeast {p | s.current ≤ p ∧ Boundary tokens p} p) :
    ∃ p, Comes (if t.kind = .semicolon then pure () else seek tokens) s p ∧
      IsLeast {p | place < p ∧ Boundary tokens p} p := by
  have hbehind : BehindSemicolon tokens s.current ↔ t.kind = .semicolon := by
    rw [hs, behindSemicolon_succ_iff ht]
  show ∃ p, _ ∧ IsLeast {p | place + 1 ≤ p ∧ Boundary tokens p} p
  rw [← hs]
  by_cases hsemicolon : t.kind = .semicolon
  · rw [if_pos hsemicolon]
    exact ⟨s.current, comes_pure s, isLeast_of_boundary (.inl (hbehind.2 hsemicolon))⟩
  · rw [if_neg hsemicolon]
    exact hseek (mt hbehind.1 hsemicolon)

/-- Seeking from a place that is not behind a semicolon comes to the nearest boundary from there on. -/
theorem seek_comes {last : Nat} (hlast : AtEnd tokens last) (hs : s.current ≤ last)
    (hbefore : ¬ BehindSemicolon tokens s.current) :
    ∃ p, Comes (seek tokens) s p ∧ IsLeast {p | s.current ≤ p ∧ Boundary tokens p} p := by
  obtain ⟨n, hn⟩ := Nat.exists_eq_add_of_le hs
  -- the induction is on the number of tokens up to the end
  induction n generalizing s with
  | zero =>
    rw [Nat.add_zero] at hn
    have hend : AtEnd tokens s.current := hn ▸ hlast
    have ⟨t, ht, _⟩ := hend
    exact ⟨s.current, seek_stops ht (.inr hend), isLeast_of_boundary (.inr (.inr hend))⟩
  | succ n ih =>
    obtain ⟨t, ht⟩ : ∃ t, tokens[s.current]? = some t := getElem?_of_lt_atEnd hlast (by omega)
    by_cases hstops : AtWord tokens s.current ∨ AtEnd tokens s.current
    · exact ⟨s.current, seek_stops ht hstops, isLeast_of_boundary (.inr hstops)⟩
    · have hhere : ¬ Boundary tokens s.current := not_or.2 ⟨hbefore, hstops⟩
      -- the token is looked at a second time when it is passed, so its place is written down twice
      obtain ⟨p, hcomes, hleast⟩ := passed_comes
        (s := ⟨s.current + 1, s.errors, s.visited ++ [s.current] ++ [s.current]⟩) ht rfl
        fun hbefore' => ih (by dsimp only; omega) hbefore' (by dsimp only; omega)
      exact ⟨p, seek_passes ht hstops hcomes, isLeast_of_not_boundary hhere hleast⟩

/-! ## Recovery -/

/-- At the end of the script recovery passes nothing. -/
theorem synchronize_stays (hend : AtEnd tokens s.current) : Comes (synchronize tokens) s s.current := by
  have ⟨t, ht, hkind⟩ := hend
  have hadvance := answer_advance_of_getElem? ht
  rw [if_pos hkind] at hadvance
  unfold synchronize
  refine Comes.after hadvance (.single _) ?_
  rw [hkind, if_neg (by decide)]
  exact seek_stops (s := ⟨s.current, s.errors, s.visited ++ [s.current]⟩) ht (.inr hend)

/-- Recovery comes to where it should. -/
theorem synchronize_comes {last : Nat} (hlast : AtEnd tokens last) (hs : s.current ≤ last) :
    ∃ p, Comes (synchronize tokens) s p ∧ Resumes tokens s.current p := by
  by_cases hend : AtEnd tokens s.current
  · exact ⟨s.current, synchronize_stays hend, fun _ => rfl, absurd hend, fun i hi _ => hi⟩
  · have hne {i : Nat} (hi : AtEnd tokens i) : s.current ≠ i := fun heq => hend (heq ▸ hi)
    have hlt : s.current < last := Nat.lt_of_le_of_ne hs (hne hlast)
    obtain ⟨t, ht⟩ := getElem?_of_lt_atEnd hlast hlt
    -- whether the token itself is a word to stop at is not asked: seeking begins behind it
    obtain ⟨p, hcomes, hleast⟩ := passed_comes
      (s := ⟨s.current + 1, s.errors, s.visited ++ [s.current]⟩) ht rfl (seek_comes hlast hlt)
    refine ⟨p, ?_, fun h => absurd h hend, fun _ => hleast, fun i hi hatEnd => ?_⟩
    · unfold synchronize
      exact Comes.step ht (mt (atEnd_iff ht).2 hend) hcomes
    · -- the end is a boundary, too
      exact hleast.2 ⟨Nat.lt_of_le_of_ne hi (hne hatEnd), .inr (.inr hatEnd)⟩

/-- The last token is for the end of the script. -/
theorem atEnd_closed (ts : List Token) : AtEnd (Token.closed ts) ((Token.closed ts).length - 1) := by
  unfold AtEnd Token.closed
  rw [← List.getLast?_eq_getElem?]
  by_cases hlast : ts.getLast?.any (·.kind = .endOfInput)
  · rw [if_pos hlast]
    simpa [Option.any_eq_true] using hlast
  · rw [if_neg hlast, List.getLast?_concat]
    exact ⟨_, rfl, rfl⟩

/-- What is left of the script at the place where recovery comes to is what the parser of programs goes on
with. -/
theorem Comes.drop_content {ts : List Token} (h : Comes (synchronize (Token.closed ts)) s place) :
    (Token.content ts).drop place = Parser.resume ((Token.content ts).drop s.current) := by
  obtain ⟨path, hpath, hanswer⟩ := h
  obtain ⟨S, htokens, hcontent, -⟩ := Script.exists_of_tokens ts
  rw [← htokens] at hanswer
  rw [← hcontent]
  by_cases hs : s.current ≤ S.content.length
  · obtain ⟨rest, hrest, hplace⟩ := Script.exists_place hs
    obtain ⟨hsuffix, path', -, hanswer'⟩ := agreesAt_synchronize S false rest hrest s hplace.symm
    have hsuffix : Parser.resume rest <:+ rest := hsuffix
    -- both answers are for the same state, so they are at the same place
    have hcurrent : place = S.place (Parser.resume rest) :=
      congrArg (fun answer => (answer.elim s Prod.snd).current) (hanswer.symm.trans hanswer')
    have hleft {rest : List Token} (h : rest <:+ S.content) : S.content.drop (S.place rest) = rest :=
      (List.suffix_iff_eq_drop.1 h).symm
    rw [hcurrent, ← hplace, hleft (hsuffix.trans hrest), hleft hrest]
  · -- behind the end nothing is left of the script
    have hlate : S.content.length ≤ s.current := Nat.le_of_not_le hs
    rw [List.drop_of_length_le hlate, List.drop_of_length_le (Nat.le_trans hlate hpath.forwards)]
    rfl

/-- From every place in a list of tokens, also behind one for the end of the script, recovery has an answer: it
leads where it should. Nothing but the place changes: no error is written down or lost, only places on the way
are looked at, and what is read next, in the body of a function or not, is read as from that place. In a script,
what is left there is what the parser of programs goes on with after an error at the place `s.current`, outside
of all functions and with the errors found so far. -/
theorem synchronize_resumes (ts : List Token) (s : State) (hs : s.current < (Token.closed ts).length) :
    ∃ s', (synchronize (Token.closed ts)).answer s = some (.ok (), s') ∧
      Resumes (Token.closed ts) s.current s'.current ∧ s'.errors = s.errors ∧
      (∃ path, Path s.current path s'.current ∧ s'.visited = s.visited ++ path) ∧
      (∀ inFunction, (do synchronize (Token.closed ts); declaration (Token.closed ts) inFunction).answer s =
        (declaration (Token.closed ts) inFunction).answer s') ∧
      ∀ ending bound begun reports e, begun ≠ [] →
        Parser.declaration begun.length ⟨ending, false⟩ begun =
          ⟨reports, (Token.content ts).drop s.current, .error e⟩ →
        let others := Parser.readWithin ending bound ((Token.content ts).drop s'.current)
        Parser.readWithin ending (bound + 1) begun = ⟨others.program, reports ++ e :: others.errors⟩ := by
  obtain ⟨place, hcomes, hresumes⟩ :=
    synchronize_comes (atEnd_closed ts) (Nat.le_pred_of_lt hs : s.current ≤ _)
  have hcontent := hcomes.drop_content
  obtain ⟨path, hpath, hanswer⟩ := hcomes
  refine ⟨⟨place, s.errors, s.visited ++ path⟩, hanswer, hresumes, rfl, ⟨path, hpath, rfl⟩,
    fun inFunction => ?_, fun ending bound begun reports e hbegun hdeclaration => ?_⟩
  · rw [answer_bind, hanswer]
  · dsimp only
    rw [hcontent]
    exact Parser.readWithin_of_error hbegun hdeclaration

/-- The token that something was wrong with is passed although a statement may begin with it, up to the place
behind the semicolon. From there on the nearest boundary is the end in the middle of the list, which is not
passed although another semicolon follows. -/
theorem synchronize_resumes_middle :
    let ts : List Token := [⟨.keyword .class, "class", 1⟩, ⟨.plus, "+", 1⟩, ⟨.semicolon, ";", 1⟩,
      ⟨.identifier, "a", 2⟩, ⟨.minus, "-", 2⟩, Token.ending 2, ⟨.semicolon, ";", 3⟩]
    (∃ s', (synchronize (Token.closed ts)).answer ⟨0, [], []⟩ = some (.ok (), s') ∧ s'.current = 3) ∧
      ∃ s', (synchronize (Token.closed ts)).answer ⟨3, [], []⟩ = some (.ok (), s') ∧ s'.current = 5 := by
  intro ts
  have hleast {start place : Nat} (hplace : start < place ∧ Boundary (Token.closed ts) place)
      (h : ∀ p < place, ¬ (start < p ∧ Boundary (Token.closed ts) p)) :
      IsLeast {p | start < p ∧ Boundary (Token.closed ts) p} place :=
    ⟨hplace, fun p hp => Nat.le_of_not_lt fun hlt => h p hlt hp⟩
  constructor
  · obtain ⟨s', hanswer, hresumes, -⟩ := synchronize_resumes ts ⟨0, [], []⟩ (by decide)
    exact ⟨s', hanswer, (hresumes.nearest (by decide)).unique (hleast (by decide) (by decide))⟩
  · obtain ⟨s', hanswer, hresumes, -⟩ := synchronize_resumes ts ⟨3, [], []⟩ (by decide)
    exact ⟨s', hanswer, (hresumes.nearest (by decide)).unique (hleast (by decide) (by decide))⟩

end Walk

end LoxScript
