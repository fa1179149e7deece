import LoxScript.Proofs.Syntax.Agreement
import Mathlib.Data.List.TakeWhile

/-!
# Reading comes to an end

Reading without a bound ends on every list of tokens, and it never looks behind the first token for the end of
the script. It gives the program that is read within a bound, or the same errors. The place in the list never
moves back, and whenever an expression or a declaration was read it has moved on. So it has after every turn of
reading a program, also after one that failed.

That reading ends is read off the parsers it agrees with. What they leave is shorter where it should be.

## Main definitions

* `Walk.turn`, `Walk.turns`: the parsers of one turn and of a program.
* `Walk.Moves`: reading from a state to a state not behind the end of the script.

## Main statements

* `Walk.agreesAt_round`, `Walk.turn_rest_length_lt`: one turn.
* `Walk.agreesAt_rounds`: reading a program agrees with the parser of all turns.
* `Walk.parse_ends`: reading ends, and how the place moves.
-/

namespace LoxScript

namespace Walk

open Tokens

variable {α β : Type} {tokens : List Token} {S : Script} {inFunction : Bool} {rest : List Token}

/-! ## Programs -/

section Programs

/-- The parser that leaves some of the tokens and does nothing else. -/
def leaving (leave : List Token → List Token) : Parser Unit := fun _ ts => ⟨[], leave ts, .ok ()⟩

/-- The parser of one turn: a declaration, or an error and what is skipped after it. -/
def turn : Parser (Option Stmt) := fun ctx ts =>
  match Parser.declaration ts.length ctx ts with
  | ⟨reports, rest, .ok statement⟩ => ⟨reports, rest, .ok (some statement)⟩
  | ⟨reports, rest, .error e⟩ => ⟨reports ++ [e], Parser.resume rest, .ok none⟩

/-- The parser of all turns that a bound allows. -/
def turns (bound : Nat) : Parser Program := fun ctx ts =>
  let reading := Parser.readWithin ctx.ending bound ts
  ⟨reading.errors, [], .ok reading.program⟩

/-- Where the same tokens are left, the same has been done. -/
theorem leaving_congr {leave : List Token → List Token} (leave' : List Token → List Token)
    {ctx : Parser.Context} {ts ts' : List Token} (h : leave ts = leave' ts') :
    leaving leave ctx ts = leaving leave' ctx ts' :=
  congrArg (fun rest => (⟨[], rest, .ok ()⟩ : Parser.Reply Unit)) h

theorem agreesAt_stop (rest : List Token) :
    AgreesAt S inFunction rest (pure ()) (leaving id) :=
  agrees_pure () rest (Nat.le_refl _)

/-- Tokens are passed up to one that begins a statement, or up to the first semicolon. -/
theorem agreesAt_seek (S : Script) (inFunction : Bool) (rest : List Token) :
    AgreesAt S inFunction rest (seek S.tokens) (leaving Parser.nextStatement) := by
  induction rest with
  | nil =>
    -- at the end nothing is passed any more
    unfold seek
    refine .look ?_
    rw [List.head?_nil, Option.getD_none, S.ending_kind, if_pos (by decide)]
    exact .of_eq (leaving_congr id rfl) (agreesAt_stop [])
  | cons t rest ih =>
    intro hrest
    have hkind : t.kind ≠ .endOfInput := Script.kind_of_suffix hrest
    revert hrest
    unfold seek
    refine AgreesAt.look ?_
    rw [List.head?_cons, Option.getD_some]
    by_cases hstarts : Parser.startsStatement t.kind
    · rw [if_pos (by simp [hstarts])]
      exact .of_eq (leaving_congr id (if_pos hstarts)) (agreesAt_stop _)
    · rw [if_neg (by simp [hstarts, hkind])]
      have hnext : Parser.nextStatement (t :: rest) =
          if t.kind = .semicolon then rest else Parser.nextStatement rest := if_neg hstarts
      by_cases hsemicolon : t.kind = .semicolon
      · rw [if_pos hsemicolon] at hnext
        refine AgreesAt.step (leaving_congr id hnext) ?_
        rw [if_pos hsemicolon]
        exact agreesAt_stop rest
      · rw [if_neg hsemicolon] at hnext
        refine AgreesAt.step (leaving_congr Parser.nextStatement hnext) ?_
        rw [if_neg hsemicolon]
        exact ih

/-- At the end of the script no token is passed. -/
theorem answer_advance_nil {s : State} (hs : s.current = S.place []) :
    (advance S.tokens).answer s = some (.ok S.ending, { s with visited := s.visited ++ [S.place []] }) := by
  unfold advance
  rw [answer_bind, answer_peek (List.nil_suffix) hs]
  dsimp only [List.head?_nil, Option.getD_none]
  rw [if_neg (by simp [S.ending_kind])]
  rfl

theorem agreesAt_synchronize (S : Script) (inFunction : Bool) (rest : List Token) :
    AgreesAt S inFunction rest (synchronize S.tokens) (leaving Parser.resume) := by
  unfold synchronize
  cases rest with
  | nil =>
    refine AgreesAt.pass (a := S.ending) (List.suffix_refl _) (.single _) (fun _ s hs => ?_) rfl ?_
    · rw [answer_advance_nil hs, ← hs]
    · rw [if_neg (by simp [S.ending_kind])]
      exact .of_eq (leaving_congr Parser.nextStatement rfl) (agreesAt_seek S inFunction [])
  | cons t rest =>
    have hnext : Parser.resume (t :: rest) =
        if t.kind = .semicolon then rest else Parser.nextStatement rest := rfl
    by_cases hsemicolon : t.kind = .semicolon
    · rw [if_pos hsemicolon] at hnext
      refine AgreesAt.step (leaving_congr id hnext) ?_
      rw [if_pos hsemicolon]
      exact agreesAt_stop rest
    · rw [if_neg hsemicolon] at hnext
      refine AgreesAt.step (leaving_congr Parser.nextStatement hnext) ?_
      rw [if_neg hsemicolon]
      exact agreesAt_seek S inFunction rest

/-- A turn ends with the declaration if there is one. -/
theorem answer_round_ok {statement : Stmt} {s t : State}
    (h : (declaration tokens false).answer s = some (.ok statement, t)) :
    (Tokens.round tokens).answer s = some (.ok (some statement), t) := by
  show Tokens.round tokens s = _
  rw [Tokens.round, h]

/-- A turn goes on after the error of a declaration. -/
theorem answer_round_error {e : SyntaxError} {s t : State}
    (h : (declaration tokens false).answer s = some (.error e, t)) :
    (Tokens.round tokens).answer s =
      ((do note e; synchronize tokens; pure none) : Walk (Option Stmt)).answer t := by
  show Tokens.round tokens s = _
  rw [Tokens.round, h]

/-- One turn of reading a program agrees with one turn of the parser. -/
theorem agreesAt_round (S : Script) (rest : List Token) :
    AgreesAt S false rest (Tokens.round S.tokens) turn := by
  intro hrest s hs
  have hdeclaration := (agrees_item S false (Nat.le_refl rest.length)).2 rest (Nat.le_refl _)
  obtain ⟨hmid, path, hpath, hanswer⟩ := hdeclaration hrest s hs
  unfold turn
  rcases hreply : Parser.declaration rest.length ⟨S.ending, false⟩ rest with ⟨reports, mid, e | statement⟩ <;>
    rw [hreply] at hmid hpath hanswer
  · -- the error is written down, and reading goes on further behind
    obtain ⟨hlast, path', hpath', hsynchronized⟩ := agreesAt_synchronize S false mid (hmid.trans hrest)
      ⟨S.place mid, s.errors ++ reports ++ [e], s.visited ++ path⟩ rfl
    refine ⟨hlast.trans hmid, path ++ path', hpath.append hpath', ?_⟩
    rw [answer_round_error hanswer, answer_bind, answer_note]
    dsimp only
    rw [answer_bind, hsynchronized]
    dsimp only [leaving]
    rw [answer_pure, List.append_nil, List.append_assoc, List.append_assoc]
  · exact ⟨hmid, path, hpath, answer_round_ok hanswer⟩

/-- A turn always has an answer: that nothing was found is one, too. -/
theorem turn_outcome (ctx : Parser.Context) (ts : List Token) : ∃ found, (turn ctx ts).outcome = .ok found := by
  unfold turn
  rcases Parser.declaration ts.length ctx ts with ⟨reports, rest, e | statement⟩
  · exact ⟨none, rfl⟩
  · exact ⟨some statement, rfl⟩

/-- Every turn passes a token. -/
theorem turn_rest_length_lt (ending : Token) (hending : ending.kind = .endOfInput) (t : Token)
    (ts : List Token) : (turn ⟨ending, false⟩ (t :: ts)).rest.length < (t :: ts).length := by
  have hstrict : Parser.Strict (Parser.declaration (t :: ts).length) :=
    (Parser.item_reads _).2.strict_declaration
  have hfollows : Parser.FollowsAt ⟨ending, false⟩ (t :: ts) (Parser.declaration (t :: ts).length)
      (Parser.declaration (t :: ts).length) :=
    Parser.follows_item (Nat.le_refl _) (Nat.le_refl _) true hending (Nat.le_refl _)
  obtain ⟨begun, hbegun, -⟩ := hfollows
  unfold turn
  rcases hreply : Parser.declaration (t :: ts).length ⟨ending, false⟩ (t :: ts) with
    ⟨reports, rest, e | statement⟩
  · rw [hreply] at hbegun
    have hsuffix : rest <:+ t :: ts := ⟨begun, hbegun.symm⟩
    show (Parser.resume rest).length < (t :: ts).length
    cases rest with
    | nil => exact Nat.zero_lt_succ _
    | cons u rest =>
      -- the token that something was wrong with is skipped in any case
      refine Nat.lt_of_lt_of_le (Nat.lt_succ_of_le ?_) hsuffix.length_le
      unfold Parser.resume
      dsimp only
      by_cases hsemicolon : u.kind = .semicolon
      · rw [if_pos hsemicolon]
      · rw [if_neg hsemicolon]
        exact (Parser.nextStatement_suffix rest).length_le
  · exact hstrict hending hreply

/-- A program is read turn by turn. -/
theorem turns_succ (ending : Token) (bound : Nat) (t : Token) (ts : List Token) :
    turns (bound + 1) ⟨ending, false⟩ (t :: ts) =
      (turn >>= fun found => turns bound >>= fun others => pure (found.toList ++ others))
        ⟨ending, false⟩ (t :: ts) := by
  -- both ways the remaining turns go on from what the first one leaves
  have hothers (found : Option Stmt) (rest : List Token) :
      (turns bound >>= fun others => pure (found.toList ++ others)) ⟨ending, false⟩ rest =
        ⟨(Parser.readWithin ending bound rest).errors, [],
          .ok (found.toList ++ (Parser.readWithin ending bound rest).program)⟩ :=
    Parser.bind_pure_eq_ok_iff.2 ⟨_, rfl, rfl⟩
  rcases hreply : Parser.declaration (t :: ts).length ⟨ending, false⟩ (t :: ts) with
    ⟨reports, rest, e | statement⟩
  · have hturn : turn ⟨ending, false⟩ (t :: ts) = ⟨reports ++ [e], Parser.resume rest, .ok none⟩ := by
      rw [turn, hreply]
    have hall : turns (bound + 1) ⟨ending, false⟩ (t :: ts) =
        ⟨reports ++ e :: (Parser.readWithin ending bound (Parser.resume rest)).errors, [],
          .ok (Parser.readWithin ending bound (Parser.resume rest)).program⟩ := by
      rw [turns, Parser.readWithin, hreply]
      exact List.cons_ne_nil t ts
    rw [hall]
    refine (Parser.bind_eq_ok_iff.2 ⟨_, _, _, _, hturn, hothers none _, ?_⟩).symm
    rw [List.append_assoc]
    rfl
  · have hturn : turn ⟨ending, false⟩ (t :: ts) = ⟨reports, rest, .ok (some statement)⟩ := by
      rw [turn, hreply]
    have hall : turns (bound + 1) ⟨ending, false⟩ (t :: ts) =
        ⟨reports ++ (Parser.readWithin ending bound rest).errors, [],
          .ok (statement :: (Parser.readWithin ending bound rest).program)⟩ := by
      rw [turns, Parser.readWithin, hreply]
      exact List.cons_ne_nil t ts
    rw [hall]
    exact (Parser.bind_eq_ok_iff.2 ⟨_, _, _, _, hturn, hothers (some statement) _, rfl⟩).symm

/-- Reading a program agrees with the parser of programs. -/
theorem agreesAt_rounds (S : Script) {bound : Nat} (hbound : rest.length ≤ bound) :
    AgreesAt S false rest (rounds S.tokens) (turns bound) := by
  have hnil (bound : Nat) : AgreesAt S false [] (rounds S.tokens) (turns bound) := by
    have hturns : turns bound ⟨S.ending, false⟩ [] = (pure [] : Parser Program) ⟨S.ending, false⟩ [] := by
      cases bound <;> rfl
    unfold rounds
    refine AgreesAt.look (.of_eq hturns ?_)
    rw [List.head?_nil, Option.getD_none, if_pos S.ending_kind]
    exact agrees_pure [] [] (Nat.le_refl _)
  induction bound generalizing rest with
  | zero =>
    obtain rfl := List.eq_nil_of_length_eq_zero (Nat.le_zero.1 hbound)
    exact hnil 0
  | succ bound ih =>
    cases rest with
    | nil => exact hnil (bound + 1)
    | cons t rest =>
      intro hrest
      have hkind : t.kind ≠ .endOfInput := Script.kind_of_suffix hrest
      revert hrest
      unfold rounds
      refine AgreesAt.look ?_
      rw [List.head?_cons, Option.getD_some, if_neg hkind]
      refine AgreesAt.of_eq (turns_succ S.ending bound t rest) ?_
      refine (agreesAt_round S (t :: rest)).bind fun reports mid found hturn => ?_
      -- the turn has passed a token, failed or not, so the bound is enough for the others
      have hshorter := turn_rest_length_lt S.ending S.ending_kind t rest
      rw [hturn] at hshorter
      have hmid : mid.length ≤ bound := Nat.le_of_lt_succ (Nat.lt_of_lt_of_le hshorter hbound)
      exact (ih hmid).bind fun _ last others _ => agrees_pure _ last (Nat.le_refl _)

end Programs

end Walk

/-! ## Every list of tokens -/

/-- With a token for the end behind them, tokens are those before the first one for the end, this one, and
what stands behind it. -/
theorem Token.closed_eq (ts : List Token) :
    ∃ after, Token.closed ts = Token.content ts ++ Token.endingOf ts :: after := by
  unfold Token.closed Token.content Token.endingOf
  cases hfind : ts.find? (·.kind = .endOfInput) with
  | none =>
    have hnone : ∀ t ∈ ts, t.kind ≠ .endOfInput := by simpa using hfind
    have hlast : ts.getLast?.any (·.kind = .endOfInput) = false := by
      rw [Option.any_eq_false]
      intro t ht
      simpa using hnone t (List.mem_of_getLast? ht)
    have hcontent : ts.takeWhile (·.kind ≠ .endOfInput) = ts :=
      List.takeWhile_eq_self_iff.2 (by simpa using hnone)
    rw [hlast, hcontent]
    exact ⟨[], rfl⟩
  | some t =>
    obtain ⟨ht, before, after, rfl, hbefore⟩ := List.find?_eq_some_iff_append.1 hfind
    have hcontent : (before ++ t :: after).takeWhile (·.kind ≠ .endOfInput) = before := by
      rw [List.takeWhile_append_of_pos (by simpa using hbefore),
        List.takeWhile_cons_of_neg (by simpa using ht), List.append_nil]
    rw [hcontent, Option.getD_some]
    -- one more token for the end may be added behind, where it is never looked at
    by_cases hlast : (before ++ t :: after).getLast?.any (·.kind = .endOfInput)
    · exact ⟨after, if_pos hlast⟩
    · exact ⟨_, (if_neg hlast).trans (List.append_assoc before (t :: after) _)⟩

/-- The script that a list of tokens stands for. -/
theorem Script.exists_of_tokens (ts : List Token) :
    ∃ S : Script, S.tokens = Token.closed ts ∧ S.content = Token.content ts ∧
      S.ending = Token.endingOf ts := by
  obtain ⟨after, hclosed⟩ := Token.closed_eq ts
  have hcontent : ∀ t ∈ Token.content ts, t.kind ≠ .endOfInput := fun t ht => by
    simpa using List.mem_takeWhile_imp ht
  exact ⟨⟨_, _, after, Token.endingOf_kind ts, hcontent⟩, hclosed.symm, rfl, rfl⟩

namespace Walk

open Tokens

/-- The place `last` is that of the first token for the end of the script. -/
structure IsEnd (tokens : List Token) (last : Nat) : Prop where
  ends : ∃ t, tokens[last]? = some t ∧ t.kind = .endOfInput
  first : ∀ i < last, ∀ t, tokens[i]? = some t → t.kind ≠ .endOfInput

/-- From the state `s` reading comes to the state `t`. The places looked at on the way come in order, and they
are not behind the place `last`. -/
structure Moves (last : Nat) (s t : State) : Prop where
  path : ∃ path, Path s.current path t.current ∧ t.visited = s.visited ++ path
  notBehind : t.current ≤ last

/-- Reading from the state `s` has an answer. If that is no error, at least one token was passed. -/
def Advances (last : Nat) (p : Walk α) (s : State) : Prop :=
  ∃ outcome t, p.answer s = some (outcome, t) ∧ Moves last s t ∧
    ∀ a, outcome = .ok a → s.current < t.current

theorem isEnd_tokens (S : Script) : IsEnd S.tokens S.content.length where
  ends := ⟨S.ending, Script.getElem?_place List.nil_suffix, S.ending_kind⟩
  first i hi t ht := by
    unfold Script.tokens at ht
    rw [List.getElem?_append_left hi] at ht
    exact S.content_kind t (List.mem_of_getElem? ht)

/-- What agrees with a parser moves to a place not behind the end. -/
theorem AgreesAt.moves {p : Walk α} {q : Parser α} (h : AgreesAt S inFunction rest p q)
    (hrest : rest <:+ S.content) {s : State} (hs : s.current = S.place rest) :
    let reply := q ⟨S.ending, inFunction⟩ rest
    ∃ t, p.answer s = some (reply.outcome, t) ∧ t.current = S.place reply.rest ∧
      Moves S.content.length s t := by
  obtain ⟨-, path, hpath, hanswer⟩ := h hrest s hs
  refine ⟨_, hanswer, rfl, ⟨path, ?_, rfl⟩, S.place_le _⟩
  rw [hs]
  exact hpath

theorem AgreesAt.advances {p : Walk α} {q : Parser α} (h : AgreesAt S inFunction rest p q)
    (hstrict : Parser.Strict q) (hrest : rest <:+ S.content) {s : State} (hs : s.current = S.place rest) :
    Advances S.content.length p s := by
  obtain ⟨t, hanswer, hplace, hmoves⟩ := h.moves hrest hs
  rcases hreply : q ⟨S.ending, inFunction⟩ rest with ⟨reports, mid, outcome⟩
  rw [hreply] at hanswer hplace
  refine ⟨outcome, t, hanswer, hmoves, fun a ha => ?_⟩
  subst ha
  rw [hs, hplace]
  exact Script.place_lt hrest (hstrict S.ending_kind hreply)

/-- Reading a program from its first token on ends, with the program or the errors that are read within a
bound. -/
theorem parse_eq (S : Script) {ts : List Token} (htokens : S.tokens = Token.closed ts)
    (hcontent : S.content = Token.content ts) (hending : S.ending = Token.endingOf ts) :
    ∃ s, parse ts = some (Program.ofTokens ts, s) ∧ s.current = S.content.length ∧
      Moves S.content.length ⟨0, [], []⟩ s := by
  let reading := Parser.readWithin S.ending S.content.length S.content
  have hreading : reading = Parser.read (Token.endingOf ts) (Token.content ts) := by
    rw [← hending, ← hcontent]
    rfl
  have hstart : S.place S.content = 0 := Nat.sub_self _
  obtain ⟨-, path, hpath, hanswer⟩ :=
    agreesAt_rounds S (Nat.le_refl _) (List.suffix_refl _) ⟨0, [], []⟩ hstart.symm
  rw [hstart] at hpath
  have hanswer : (rounds S.tokens).answer ⟨0, [], []⟩ =
      some (.ok reading.program, ⟨S.content.length, reading.errors, path⟩) := hanswer
  refine ⟨⟨S.content.length, reading.errors, path⟩, ?_, rfl, ⟨path, hpath, rfl⟩, Nat.le_refl _⟩
  unfold parse Program.ofTokens
  rw [← htokens, hanswer, ← hreading]

/-- Reading ends on every list of tokens, and every place looked at is in the list: else there would be no
answer. The answer is that of the parser of programs. The place never moves back and never behind the first
token for the end of the script. Wherever reading of a declaration or of an expression begins, it ends, and has
passed a token if it succeeds. A turn passes one in any case. -/
theorem parse_ends (ts : List Token) :
    ∃ last, IsEnd (Token.closed ts) last ∧
      (∃ s, parse ts = some (Program.ofTokens ts, s) ∧ s.current = last ∧ Moves last ⟨0, [], []⟩ s) ∧
      (∀ s : State, s.current ≤ last →
        (∀ inFunction, Advances last (declaration (Token.closed ts) inFunction) s) ∧
        Advances last (assignment (Token.closed ts)) s) ∧
      ∀ s : State, s.current < last → ∃ found t,
        (Tokens.round (Token.closed ts)).answer s = some (.ok found, t) ∧ Moves last s t ∧
          s.current < t.current := by
  obtain ⟨S, htokens, hcontent, hending⟩ := Script.exists_of_tokens ts
  refine ⟨S.content.length, htokens ▸ isEnd_tokens S, parse_eq S htokens hcontent hending,
    fun s hs => ?_, fun s hs => ?_⟩ <;> rw [← htokens]
  · -- some tokens are left at the place, and the parsers are strict on them
    obtain ⟨rest, hrest, hplace⟩ := Script.exists_place hs
    have hitem (inFunction : Bool) := (agrees_item S inFunction (Nat.le_refl rest.length)).2
    have hexpression := agrees_assignment S false (Nat.le_refl rest.length)
    refine ⟨fun inFunction => ?_, ?_⟩
    · exact (hitem inFunction rest (Nat.le_refl _)).advances (Parser.item_reads _).2.strict_declaration
        hrest hplace.symm
    · exact (hexpression rest (Nat.le_refl _)).advances (Parser.expression_reads _).strict hrest hplace.symm
  · obtain ⟨rest, hrest, hplace⟩ := Script.exists_place (Nat.le_of_lt hs)
    obtain ⟨t, hanswer, hcurrent, hmoves⟩ := (agreesAt_round S rest).moves hrest hplace.symm
    cases rest with
    | nil =>
      -- the place would be that of the end
      rw [← hplace] at hs
      exact absurd hs (Nat.lt_irrefl _)
    | cons u rest =>
      have hshorter := turn_rest_length_lt S.ending S.ending_kind u rest
      obtain ⟨found, hfound⟩ := turn_outcome ⟨S.ending, false⟩ (u :: rest)
      rw [hfound] at hanswer
      refine ⟨found, t, hanswer, hmoves, ?_⟩
      rw [hcurrent, ← hplace]
      exact Script.place_lt hrest hshorter

end Walk

end LoxScript
