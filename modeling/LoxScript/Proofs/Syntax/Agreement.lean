import LoxScript.Proofs.Syntax.Lookahead
import LoxScript.Proofs.Syntax.Walk

/-!
# Reading without a bound agrees with the parsers

Reading without a bound gives the same trees and errors as the parsers do that are kept finite by one. What is
read from a place on is what the parser reads from the tokens that are left there, and the place in the end is
that of the tokens that the parser leaves. On the way there the place never moves back.

For recursion that comes after a token was passed this may be assumed, since fewer tokens are left then. That
other bounds serve the parser alike is known already.

## Main definitions

* `Script`: a list of tokens, with the first one for the end of the script.
* `Walk.Path`: places looked at on the way from one place to another.
* `Walk.Agrees`: reading that agrees with a parser.

## Main statements

* `Walk.agrees_assignment`, `Walk.agrees_item`: expressions and declarations.
-/

namespace LoxScript

/-- A list of tokens with one for the end of the script. -/
structure Script where
  /-- The tokens before the first one for the end. -/
  content : List Token
  /-- The first token for the end. -/
  ending : Token
  /-- What stands behind it. -/
  after : List Token
  ending_kind : ending.kind = .endOfInput
  content_kind : ∀ t ∈ content, t.kind ≠ .endOfInput

namespace Script

variable (S : Script)

/-- All tokens. -/
def tokens : List Token := S.content ++ S.ending :: S.after

/-- The place from which the tokens `rest` are left before the end of the script. -/
def place (rest : List Token) : Nat := S.content.length - rest.length

variable {S : Script} {rest : List Token} {t : Token}

theorem place_le (S : Script) (rest : List Token) : S.place rest ≤ S.content.length := Nat.sub_le _ _

/-- Fewer tokens are left at a later place. -/
theorem place_lt {mid : List Token} (hrest : rest <:+ S.content) (h : mid.length < rest.length) :
    S.place rest < S.place mid := by
  have hlength := hrest.length_le
  unfold place
  omega

/-- At every place up to that of the end some tokens are left. -/
theorem exists_place {i : Nat} (h : i ≤ S.content.length) : ∃ rest, rest <:+ S.content ∧ S.place rest = i := by
  refine ⟨S.content.drop i, List.drop_suffix i _, ?_⟩
  unfold place
  rw [List.length_drop]
  omega

theorem place_cons (h : t :: rest <:+ S.content) : S.place rest = S.place (t :: rest) + 1 := by
  have hlength : rest.length + 1 ≤ S.content.length := h.length_le
  unfold place
  rw [List.length_cons]
  omega

/-- The token at a place is the first one that is left there, or the one for the end. -/
theorem getElem?_place (h : rest <:+ S.content) :
    S.tokens[S.place rest]? = some (rest.head?.getD S.ending) := by
  obtain ⟨before, hcontent⟩ := h
  have hplace : S.place rest = before.length := by
    unfold place
    rw [← hcontent, List.length_append, Nat.add_sub_cancel]
  unfold tokens
  rw [hplace, ← hcontent, List.append_assoc, List.getElem?_append_right (Nat.le_refl _), Nat.sub_self]
  cases rest <;> rfl

theorem kind_of_suffix (h : t :: rest <:+ S.content) : t.kind ≠ .endOfInput :=
  S.content_kind t (h.subset (List.mem_cons_self ..))

end Script

namespace Walk

open Tokens

/-- The places `path` are looked at on the way from `a` to `b`, one after the other. -/
structure Path (a : Nat) (path : List Nat) (b : Nat) : Prop where
  forwards : a ≤ b
  inOrder : path.Pairwise (· ≤ ·)
  between : ∀ i ∈ path, a ≤ i ∧ i ≤ b

/-- What is read from the place of `rest` on is what the parser `q` reads from `rest`, in the body of a
function or not. The place in the end is that of what `q` leaves, and on the way to it the places come in
order. -/
def AgreesAt {α : Type} (S : Script) (inFunction : Bool) (rest : List Token) (p : Walk α)
    (q : Parser α) : Prop :=
  rest <:+ S.content → ∀ s : State, s.current = S.place rest →
    let reply := q ⟨S.ending, inFunction⟩ rest
    reply.rest <:+ rest ∧ ∃ path, Path (S.place rest) path (S.place reply.rest) ∧
      p.answer s =
        some (reply.outcome, ⟨S.place reply.rest, s.errors ++ reply.reports, s.visited ++ path⟩)

/-- The same wherever at most `n` tokens are left. -/
def Agrees {α : Type} (S : Script) (inFunction : Bool) (n : Nat) (p : Walk α) (q : Parser α) : Prop :=
  ∀ rest : List Token, rest.length ≤ n → AgreesAt S inFunction rest p q

variable {α β γ : Type} {S : Script} {inFunction : Bool} {n m : Nat} {rest mid : List Token}
  {tokens : List Token}

/-! ## Paths -/

theorem Path.nil (a : Nat) : Path a [] a :=
  ⟨Nat.le_refl a, List.Pairwise.nil, List.forall_mem_nil _⟩

theorem Path.single (a : Nat) : Path a [a] a :=
  ⟨Nat.le_refl a, List.pairwise_singleton .., List.forall_mem_singleton.2 ⟨Nat.le_refl a, Nat.le_refl a⟩⟩

theorem Path.append {a b c : Nat} {path path' : List Nat} (h : Path a path b) (h' : Path b path' c) :
    Path a (path ++ path') c where
  forwards := Nat.le_trans h.forwards h'.forwards
  inOrder := List.pairwise_append.2 ⟨h.inOrder, h'.inOrder, fun i hi j hj =>
    Nat.le_trans (h.between i hi).2 (h'.between j hj).1⟩
  between i hi := by
    rcases List.mem_append.1 hi with hi | hi
    · exact ⟨(h.between i hi).1, Nat.le_trans (h.between i hi).2 h'.forwards⟩
    · exact ⟨Nat.le_trans h.forwards (h'.between i hi).1, (h'.between i hi).2⟩

/-- The place moves on by one. -/
theorem Path.next {a : Nat} {path : List Nat} (h : Path a path a) : Path a path (a + 1) :=
  ⟨Nat.le_succ a, h.inOrder, fun i hi => ⟨(h.between i hi).1, Nat.le_succ_of_le (h.between i hi).2⟩⟩

/-! ## Answers -/

theorem answer_pure (a : α) (s : State) : (pure a : Walk α).answer s = some (.ok a, s) := rfl

theorem answer_note (e : SyntaxError) (s : State) :
    (note e).answer s = some (.ok (), { s with errors := s.errors ++ [e] }) := rfl

theorem answer_bind (p : Walk α) (next : α → Walk β) (s : State) :
    (p >>= next).answer s =
      match p.answer s with
      | some (.ok a, t) => (next a).answer t
      | some (.error e, t) => some (.error e, t)
      | none => none := by
  have hbind : (p >>= next).answer s = (p.answer s).bind fun r => match r with
      | (.ok a, t) => (next a).answer t
      | (.error e, t) => some (.error e, t) := by
    show Option.bind _ _ = _
    congr 1
    funext r
    rcases r with ⟨e | a, t⟩ <;> rfl
  rw [hbind]
  rcases p.answer s with - | ⟨e | a, t⟩ <;> rfl

/-- Looking at the token at a place. -/
theorem answer_peek (hrest : rest <:+ S.content) {s : State} (hs : s.current = S.place rest) :
    (peek S.tokens).answer s =
      some (.ok (rest.head?.getD S.ending), { s with visited := s.visited ++ [S.place rest] }) := by
  show peek S.tokens s = _
  unfold peek
  rw [hs, Script.getElem?_place hrest]

theorem answer_advance {t : Token} (hrest : t :: rest <:+ S.content) {s : State}
    (hs : s.current = S.place (t :: rest)) :
    (advance S.tokens).answer s =
      some (.ok t, ⟨S.place rest, s.errors, s.visited ++ [S.place (t :: rest)]⟩) := by
  unfold advance
  rw [answer_bind, answer_peek hrest hs]
  dsimp only [List.head?_cons, Option.getD_some]
  rw [if_pos (Script.kind_of_suffix hrest), Script.place_cons hrest, ← hs]
  rfl

/-! ## Reading in a row -/

section Rules

variable {p p' : Walk α} {q q' : Parser α} {f : α → Walk β} {g : α → Parser β}

theorem Agrees.mono (h : Agrees S inFunction n p q) (hm : m ≤ n) : Agrees S inFunction m p q :=
  fun rest hrest => h rest (Nat.le_trans hrest hm)

theorem AgreesAt.of_eq {p : Walk α} {q q' : Parser α}
    (hq : q ⟨S.ending, inFunction⟩ rest = q' ⟨S.ending, inFunction⟩ rest)
    (h : AgreesAt S inFunction rest p q') : AgreesAt S inFunction rest p q := by
  unfold AgreesAt
  rw [hq]
  exact h

/-- A parser may be replaced by one with another bound. -/
theorem Agrees.of_follows (h : Agrees S inFunction n p q) (hq : Parser.Follows n q' q) :
    Agrees S inFunction n p q' := by
  intro rest hlength
  have hsame : q ⟨S.ending, inFunction⟩ rest = q' ⟨S.ending, inFunction⟩ rest := by
    have hat : Parser.FollowsAt ⟨S.ending, inFunction⟩ rest q' q := hq S.ending_kind hlength
    obtain ⟨begun, hbegun, hfollows⟩ := hat
    have hall := hfollows _ rfl
    rwa [← hbegun] at hall
  exact .of_eq hsame.symm (h rest hlength)

/-- Tokens are passed, or looked at, and nothing else is done before reading goes on. -/
theorem AgreesAt.pass {p : Walk γ} {f : γ → Walk β} {q q' : Parser β} {a : γ} {path : List Nat}
    (hmid : mid <:+ rest) (hpath : Path (S.place rest) path (S.place mid))
    (hp : rest <:+ S.content → ∀ s : State, s.current = S.place rest →
      p.answer s = some (.ok a, ⟨S.place mid, s.errors, s.visited ++ path⟩))
    (hq : q ⟨S.ending, inFunction⟩ rest = q' ⟨S.ending, inFunction⟩ mid)
    (h : AgreesAt S inFunction mid (f a) q') : AgreesAt S inFunction rest (p >>= f) q := by
  intro hrest s hs
  rw [answer_bind, hp hrest s hs, hq]
  obtain ⟨hlast, path', hpath', hanswer⟩ := h (hmid.trans hrest) ⟨S.place mid, s.errors, s.visited ++ path⟩ rfl
  refine ⟨hlast.trans hmid, path ++ path', hpath.append hpath', ?_⟩
  dsimp only
  rw [hanswer, List.append_assoc]

theorem AgreesAt.bind (h : AgreesAt S inFunction rest p q)
    (hnext : ∀ reports mid a, q ⟨S.ending, inFunction⟩ rest = ⟨reports, mid, .ok a⟩ →
      AgreesAt S inFunction mid (f a) (g a)) :
    AgreesAt S inFunction rest (p >>= f) (q >>= g) := by
  intro hrest s hs
  obtain ⟨hmid, path, hpath, hanswer⟩ := h hrest s hs
  rw [answer_bind, hanswer]
  have hbind : (q >>= g) ⟨S.ending, inFunction⟩ rest = Parser.bind q g ⟨S.ending, inFunction⟩ rest := rfl
  rw [hbind, Parser.bind]
  rcases hreply : q ⟨S.ending, inFunction⟩ rest with ⟨reports, mid, e | a⟩ <;>
    rw [hreply] at hmid hpath
  · exact ⟨hmid, path, hpath, rfl⟩
  · obtain ⟨hlast, path', hpath', hanswer'⟩ :=
      hnext reports mid a hreply (hmid.trans hrest)
        ⟨S.place mid, s.errors ++ reports, s.visited ++ path⟩ rfl
    refine ⟨hlast.trans hmid, path ++ path', hpath.append hpath', ?_⟩
    dsimp only
    rw [hanswer', List.append_assoc, List.append_assoc]

theorem Agrees.bind (hp : Agrees S inFunction n p q) (hnext : ∀ a, Agrees S inFunction n (f a) (g a)) :
    Agrees S inFunction n (p >>= f) (q >>= g) := by
  intro rest hlength hrest s hs
  -- the parser leaves some of the tokens, which may be as many as before
  obtain ⟨hmid, -⟩ := hp rest hlength hrest s hs
  refine (hp rest hlength).bind (fun reports mid a hreply => hnext a mid ?_) hrest s hs
  rw [hreply] at hmid
  exact Nat.le_trans hmid.length_le hlength

/-- Behind a parser that passes a token there is one token less. -/
theorem Agrees.bind_strict (hp : Agrees S inFunction n p q) (hstrict : Parser.Strict q)
    (hnext : ∀ a m, m < n → Agrees S inFunction m (f a) (g a)) :
    Agrees S inFunction n (p >>= f) (q >>= g) := by
  intro rest hlength
  refine (hp rest hlength).bind fun reports mid a hreply => ?_
  have hshorter : mid.length < rest.length := hstrict S.ending_kind hreply
  exact hnext a mid.length (Nat.lt_of_lt_of_le hshorter hlength) mid (Nat.le_refl _)

theorem agrees_pure (a : α) : Agrees S inFunction n (pure a) (pure a) := by
  intro rest _ _ s hs
  have hstate : s = ⟨S.place rest, s.errors ++ [], s.visited ++ []⟩ := by
    rw [List.append_nil, List.append_nil, ← hs]
  exact ⟨List.suffix_refl _, [], .nil _, congrArg (fun t => some (Except.ok a, t)) hstate⟩

theorem Agrees.map (hp : Agrees S inFunction n p q) (g : α → β) :
    Agrees S inFunction n (g <$> p) (g <$> q) := by
  have hmap : g <$> p = p >>= fun a => pure (g a) := map_eq_pure_bind g p
  rw [hmap]
  exact hp.bind fun a => agrees_pure (g a)

theorem agrees_ite {c : Prop} [Decidable c] (hp : c → Agrees S inFunction n p q)
    (hq : ¬ c → Agrees S inFunction n p' q') :
    Agrees S inFunction n (if c then p else p') (if c then q else q') := by
  by_cases h : c
  · rw [if_pos h, if_pos h]
    exact hp h
  · rw [if_neg h, if_neg h]
    exact hq h

end Rules

/-! ## Single tokens -/

section Tokens

/-- The token at the place is looked at. -/
theorem AgreesAt.look {f : Token → Walk β} {q : Parser β}
    (h : AgreesAt S inFunction rest (f (rest.head?.getD S.ending)) q) :
    AgreesAt S inFunction rest (peek S.tokens >>= f) q := by
  refine AgreesAt.pass (List.suffix_refl _) (.single _) (fun hrest s hs => ?_) rfl h
  rw [answer_peek hrest hs, ← hs]

theorem agreesAt_peek_bind {f : Token → Walk β} {g : Token → Parser β}
    (h : AgreesAt S inFunction rest (f (rest.head?.getD S.ending)) (g (rest.head?.getD S.ending))) :
    AgreesAt S inFunction rest (peek S.tokens >>= f) (Parser.peek >>= g) :=
  .look (.of_eq (Parser.peek_bind_apply g) h)

theorem agrees_peek_bind {f : Token → Walk β} {g : Token → Parser β}
    (h : ∀ t, Agrees S inFunction n (f t) (g t)) :
    Agrees S inFunction n (peek S.tokens >>= f) (Parser.peek >>= g) :=
  fun rest hlength => agreesAt_peek_bind (h _ rest hlength)

/-- A token is passed. -/
theorem AgreesAt.step {t : Token} {f : Token → Walk β} {q q' : Parser β}
    (hq : q ⟨S.ending, inFunction⟩ (t :: rest) = q' ⟨S.ending, inFunction⟩ rest)
    (h : AgreesAt S inFunction rest (f t) q') :
    AgreesAt S inFunction (t :: rest) (advance S.tokens >>= f) q := by
  intro hrest
  have hpath := (Path.single (S.place (t :: rest))).next
  rw [← Script.place_cons hrest] at hpath
  exact AgreesAt.pass (List.suffix_cons t rest) hpath (fun hrest s hs => answer_advance hrest hs) hq h
    hrest

theorem agreesAt_advance_bind {t : Token} {f : Token → Walk β} {g : Unit → Parser β}
    (h : AgreesAt S inFunction rest (f t) (g ())) :
    AgreesAt S inFunction (t :: rest) (advance S.tokens >>= f) (Parser.skip >>= g) :=
  .step (Parser.skip_bind_apply g) h

theorem agrees_fail (what : Expectation) :
    Agrees S inFunction n (fail S.tokens what : Walk α) (Parser.fail what) := by
  intro rest _ hrest s hs
  have hstate : (⟨s.current, s.errors, s.visited ++ [S.place rest]⟩ : State) =
      ⟨S.place rest, s.errors ++ [], s.visited ++ [S.place rest]⟩ := by
    rw [List.append_nil, ← hs]
  refine ⟨List.suffix_refl _, [S.place rest], .single _, ?_⟩
  unfold fail
  rw [answer_bind, answer_peek hrest hs]
  exact congrArg (fun t => some (Except.error _, t)) hstate

theorem agrees_note {problem : SyntaxError.Problem} {t : Token} :
    Agrees S inFunction n (note ⟨problem, t⟩) (Parser.report problem t) := by
  intro rest _ _ s hs
  have hstate : (⟨s.current, s.errors ++ [⟨problem, t⟩], s.visited⟩ : State) =
      ⟨S.place rest, s.errors ++ [⟨problem, t⟩], s.visited ++ []⟩ := by
    rw [List.append_nil, ← hs]
  exact ⟨List.suffix_refl _, [], .nil _, congrArg (fun t => some (Except.ok (), t)) hstate⟩

/-- A token that may be there. The token for the end is none. -/
theorem agrees_consume_bind {accepts : Token.Kind → Bool} (hend : accepts .endOfInput = false)
    {f : Option Token → Walk β} {g : Option Token → Parser β}
    (hnone : Agrees S inFunction n (f none) (g none))
    (hsome : ∀ t m, m < n → Agrees S inFunction m (f (some t)) (g (some t))) :
    Agrees S inFunction n (consume S.tokens accepts >>= f) (Parser.take? accepts >>= g) := by
  intro rest hlength
  by_cases haccepts : accepts (rest.head?.getD S.ending).kind
  · cases rest with
    | nil =>
      rw [List.head?_nil, Option.getD_none, S.ending_kind, hend] at haccepts
      cases haccepts
    | cons t rest =>
      intro hrest
      -- the token is looked at to see that it is accepted, and once more when it is passed
      have hpath := ((Path.single (S.place (t :: rest))).append (.single _)).next
      rw [← Script.place_cons hrest] at hpath
      refine AgreesAt.pass (List.suffix_cons t rest) hpath (fun hrest s hs => ?_)
        (Parser.bind_apply_of_eq_ok (if_pos haccepts)) (hsome t rest.length hlength rest (Nat.le_refl _))
        hrest
      unfold consume
      rw [answer_bind, answer_peek hrest hs]
      dsimp only
      rw [if_pos haccepts, map_eq_pure_bind, answer_bind]
      have hlooked : (advance S.tokens).answer ⟨s.current, s.errors, s.visited ++ [S.place (t :: rest)]⟩ =
          _ := answer_advance hrest hs
      rw [hlooked, ← List.append_assoc]
      rfl
  · have hnext : (Parser.take? accepts >>= g) ⟨S.ending, inFunction⟩ rest =
        g none ⟨S.ending, inFunction⟩ rest := by
      cases rest with
      | nil => exact Parser.bind_apply_of_eq_ok rfl
      | cons t rest => exact Parser.bind_apply_of_eq_ok (if_neg haccepts)
    refine AgreesAt.pass (List.suffix_refl _) (.single _) (fun hrest s hs => ?_) hnext
      (hnone rest hlength)
    unfold consume
    rw [answer_bind, answer_peek hrest hs]
    dsimp only
    rw [if_neg haccepts, answer_pure, ← hs]

theorem agrees_expect (kind : Token.Kind) (hend : kind ≠ .endOfInput) (what : Expectation) :
    Agrees S inFunction n (expect S.tokens kind what) (Parser.expect kind what) :=
  agrees_consume_bind (decide_eq_false hend.symm) (agrees_fail what) fun t _ _ => agrees_pure t

theorem agrees_check {problem : SyntaxError.Problem} {count : Nat} {f : Unit → Walk β}
    {g : Unit → Parser β} (h : Agrees S inFunction n (f ()) (g ())) :
    Agrees S inFunction n (check S.tokens problem count >>= f)
      (if maxArity ≤ count then Parser.peek >>= fun t => Parser.report problem t >>= g else g ()) := by
  by_cases hcount : maxArity ≤ count
  · rw [if_pos hcount]
    have hcheck : check S.tokens problem count >>= f =
        peek S.tokens >>= fun t => note ⟨problem, t⟩ >>= f := by
      unfold check
      rw [if_pos hcount, bind_assoc]
    rw [hcheck]
    exact agrees_peek_bind fun t => agrees_note.bind fun _ => h
  · rw [if_neg hcount]
    have hcheck : check S.tokens problem count >>= f = f () := by
      unfold check
      rw [if_neg hcount, pure_bind]
    rw [hcheck]
    exact h

end Tokens

/-! ## Expressions -/

section Expressions

open Grammar (Level)

theorem interchangeable_expression {a b : Nat} (ha : n ≤ a) (hb : n ≤ b) :
    Parser.Interchangeable n (Parser.expression a) (Parser.expression b) :=
  ⟨Parser.follows_expression ha hb, Parser.expression_reads a, fun _ => Parser.expression_nil a,
    fun _ => Parser.expression_nil b⟩

/-- Operands with operators between them agree if the operands do. -/
theorem agrees_level (L : Level) (hL : L.operators ≠ []) {operand : Parser Expr}
    (h : Agrees S inFunction n (level S.tokens L.tighter) operand) {b : Nat} (hb : n ≤ b) :
    Agrees S inFunction n (level S.tokens L) (Parser.chain (Parser.accepts L) L.join operand b) := by
  have haccepts : Parser.accepts L = fun kind => decide (kind ∈ L.operators) := by
    funext kind
    rw [Bool.eq_iff_iff, Parser.accepts_iff, decide_eq_true_iff]
  have hend : Parser.accepts L .endOfInput = false := by
    cases L <;> rfl
  rw [haccepts] at hend ⊢
  unfold level
  rw [if_neg hL]
  refine h.bind fun left => ?_
  induction n using Nat.strongRecOn generalizing b left with
  | ind n ih =>
    have hsucc (b : Nat) (hb : n ≤ b + 1) : Agrees S inFunction n (operations S.tokens L left)
        (Parser.chainFrom (fun kind => decide (kind ∈ L.operators)) L.join operand (b + 1) left) := by
      unfold operations Parser.chainFrom
      refine agrees_consume_bind hend (agrees_pure left) fun operator k hk => ?_
      have hoperand := h.mono (Nat.le_of_lt hk)
      exact hoperand.bind fun right => ih k hk hoperand (by omega) _
    cases b with
    | zero =>
      -- where no tokens are left there are no operators, under any bound
      obtain rfl := Nat.le_zero.1 hb
      refine (hsucc 0 (Nat.zero_le _)).of_follows (Parser.follows_zero fun ctx _ => ?_)
      exact ⟨[], .ok left, Parser.chainFrom_stop (by simp), Parser.chainFrom_stop (by simp)⟩
    | succ b => exact hsucc b hb

section Nested

variable {a : Nat} (ha : n ≤ a)
  (h : ∀ m < n, Agrees S inFunction m (assignment S.tokens) (Parser.expression a))

include h

/-- Only behind a parenthesis there is more to read. -/
theorem agrees_primary : Agrees S inFunction n (primary S.tokens) (Parser.primary (Parser.expression a)) := by
  intro rest hlength
  unfold primary Parser.primary
  refine agreesAt_peek_bind ?_
  cases rest with
  | nil =>
    rw [List.head?_nil, Option.getD_none, S.ending_kind]
    exact agrees_fail .expression [] hlength
  | cons t rest =>
    have hpassed (e : Expr) : AgreesAt S inFunction (t :: rest) (advance S.tokens >>= fun _ => pure e)
        (Parser.skip >>= fun _ => pure e) :=
      agreesAt_advance_bind (agrees_pure e rest (Nat.le_refl _))
    have hfail : AgreesAt S inFunction (t :: rest) (fail S.tokens .expression : Walk Expr)
        (Parser.fail .expression) := agrees_fail .expression (t :: rest) hlength
    rw [List.head?_cons, Option.getD_some]
    -- every other kind passes its token and nothing else, or none
    generalize t.kind = kind
    cases kind with
    | leftParen =>
      refine agreesAt_advance_bind ?_
      have hinner := (h rest.length hlength).bind fun inner =>
        (agrees_expect .rightParen (by decide) .parenAfterGrouping).bind fun _ =>
          agrees_pure (Expr.grouping inner)
      exact hinner rest (Nat.le_refl _)
    | keyword word => cases word <;> first | exact hpassed _ | exact hfail
    | _ => first | exact hpassed _ | exact hfail

include ha

/-- Behind an argument and a comma there are two tokens less, but the bound is only one less. -/
theorem agrees_arguments (hm : m < n) {b count : Nat} (hb : m ≤ b) (hcount : count = 0 ∨ m < b) :
    Agrees S inFunction m (arguments S.tokens count)
      (Parser.arguments (Parser.expression a) b count) := by
  induction m using Nat.strongRecOn generalizing b count with
  | ind m ih =>
    have hsucc : Agrees S inFunction m (arguments S.tokens count)
        (Parser.arguments (Parser.expression a) (b + 1) count) := by
      unfold arguments Parser.arguments
      refine agrees_check ?_
      -- the argument passes a token, and the comma is another one
      refine (h m hm).bind_strict (Parser.expression_reads a).strict fun argument k hk => ?_
      refine agrees_consume_bind (by decide) (agrees_pure _) fun _ l hl => ?_
      have hothers : Agrees S inFunction l (arguments S.tokens (count + 1))
          (Parser.arguments (Parser.expression a) b (count + 1)) :=
        ih l (by omega) (by omega) (by omega) (.inr (by omega))
      exact hothers.bind fun others => agrees_pure _
    have hnested := interchangeable_expression (n := m) (by omega : m ≤ a) (by omega : m ≤ a)
    exact hsucc.of_follows (Parser.follows_arguments hnested (Nat.le_refl _) hb (by omega)
      (hcount.imp_right fun hlt => ⟨hlt, by omega⟩))

theorem agrees_argumentList (hm : m < n) {b : Nat} (hb : m ≤ b) :
    Agrees S inFunction m (argumentList S.tokens)
      (Parser.argumentList (Parser.expression a) b) := by
  unfold argumentList
  exact agrees_peek_bind fun t => agrees_ite (fun _ => agrees_pure _) fun _ =>
    agrees_arguments ha h hm hb (.inl rfl)

theorem agrees_calls (hm : m ≤ n) {b : Nat} (hb : m ≤ b) (callee : Expr) :
    Agrees S inFunction m (calls S.tokens callee)
      (Parser.calls (Parser.expression a) b callee) := by
  induction m using Nat.strongRecOn generalizing b callee with
  | ind m ih =>
    have hsucc : Agrees S inFunction m (calls S.tokens callee)
        (Parser.calls (Parser.expression a) (b + 1) callee) := by
      unfold calls Parser.calls
      -- the parentheses are passed in any case, whatever stands between them
      refine agrees_consume_bind (by decide) (agrees_pure _) fun _ k hk => ?_
      refine (agrees_argumentList ha h (by omega) (by omega)).bind fun args => ?_
      refine (agrees_expect .rightParen (by decide) _).bind_strict (Parser.strict_expect _ _)
        fun paren l hl => ?_
      exact ih l (by omega) (by omega) (by omega) _
    have hnested := interchangeable_expression ha ha
    exact hsucc.of_follows
      (Parser.follows_calls hnested (Nat.le_succ_of_le hm) hb (Nat.le_succ_of_le hb) callee)

theorem agrees_unary (hm : m ≤ n) {b : Nat} (hb : m ≤ b) :
    Agrees S inFunction m (unary S.tokens) (Parser.unary (Parser.expression a) b) := by
  induction m using Nat.strongRecOn generalizing b with
  | ind m ih =>
    have hsucc : Agrees S inFunction m (unary S.tokens)
        (Parser.unary (Parser.expression a) (b + 1)) := by
      unfold unary Parser.unary
      refine agrees_consume_bind (by decide) ?_ fun operator k hk => ?_
      · -- what is called passes a token, so that there is less left for the calls
        have hprimary := (agrees_primary h).mono hm
        refine hprimary.bind_strict (Parser.primary_reads (Parser.expression_reads a)).strict
          fun callee k hk => ?_
        exact agrees_calls ha h (by omega) (by omega) callee
      · exact (ih k hk (by omega) (by omega)).bind fun operand => agrees_pure _
    have hnested := interchangeable_expression ha ha
    exact hsucc.of_follows
      (Parser.follows_unary hnested (Nat.le_succ_of_le hm) hb (Nat.le_succ_of_le hb))

theorem agrees_disjunction {b : Nat} (hb : n ≤ b) :
    Agrees S inFunction n (level S.tokens .disjunction)
      (Parser.disjunction (Parser.expression a) b) := by
  have hunary : Agrees S inFunction n (level S.tokens .unary) (Parser.unary (Parser.expression a) b) := by
    have hlevel : level S.tokens .unary = unary S.tokens := by
      rw [level]
      exact if_pos rfl
    rw [hlevel]
    exact agrees_unary ha h (Nat.le_refl _) hb
  -- each level takes its operands from the next tighter one
  refine agrees_level .disjunction (by decide) ?_ hb
  refine agrees_level .conjunction (by decide) ?_ hb
  refine agrees_level .equality (by decide) ?_ hb
  refine agrees_level .comparison (by decide) ?_ hb
  refine agrees_level .term (by decide) ?_ hb
  exact agrees_level .factor (by decide) hunary hb

theorem agrees_assignment_succ :
    Agrees S inFunction n (assignment S.tokens)
      (Parser.assignment (Parser.expression a) (a + 1)) := by
  unfold assignment Parser.assignment
  -- the target may pass nothing, but the equals sign is passed before the value is read
  refine (agrees_disjunction ha h (Nat.le_succ_of_le ha)).bind fun target => ?_
  refine agrees_consume_bind (by decide) (agrees_pure target) fun equals k hk => ?_
  refine (h k hk).bind fun value => ?_
  cases target with
  | «variable» name => exact agrees_pure _
  | literal | grouping | unary | binary | logical | assign | call =>
    exact agrees_note.bind fun _ => agrees_pure _

end Nested

/-- Reading an expression agrees with the parser of expressions, under any bound that is large enough. -/
theorem agrees_assignment (S : Script) (inFunction : Bool) {n a : Nat} (ha : n ≤ a) :
    Agrees S inFunction n (assignment S.tokens) (Parser.expression a) := by
  induction n using Nat.strongRecOn with
  | ind n ih =>
    have hnested : ∀ m < n, Agrees S inFunction m (assignment S.tokens) (Parser.expression a) :=
      fun m hm => ih m hm (by omega)
    have hsucc : Agrees S inFunction n (assignment S.tokens) (Parser.expression (a + 1)) :=
      agrees_assignment_succ ha hnested
    exact hsucc.of_follows (Parser.follows_expression ha (Nat.le_succ_of_le ha))

end Expressions

/-! ## Statements -/

section Statements

theorem agrees_semicolon (what : Expectation) :
    Agrees S inFunction n (semicolon S.tokens what) (Parser.semicolon what) :=
  (agrees_expect .semicolon (by decide) what).bind fun _ => agrees_pure ()

/-- A token that may be there, and of which it only matters whether it is. -/
theorem agrees_passes_bind {kind : Token.Kind} (hend : kind ≠ .endOfInput) {f : Option Token → Walk β}
    {g : Bool → Parser β} (hnone : Agrees S inFunction n (f none) (g false))
    (hsome : ∀ t m, m < n → Agrees S inFunction m (f (some t)) (g true)) :
    Agrees S inFunction n (consume S.tokens (· = kind) >>= f) (Parser.passes kind >>= g) := by
  -- the parser forgets the token
  have hpasses : Parser.passes kind >>= g =
      Parser.take? (· = kind) >>= fun found => g found.isSome := by
    funext ctx ts
    cases ts with
    | nil => rfl
    | cons t ts =>
      by_cases ht : t.kind = kind
      · have htake : Parser.take? (· = kind) ctx (t :: ts) = ⟨[], ts, .ok (some t)⟩ :=
          if_pos (decide_eq_true ht)
        have hpassed : Parser.passes kind ctx (t :: ts) = ⟨[], ts, .ok true⟩ :=
          Parser.bind_apply_of_eq_ok htake
        rw [Parser.bind_apply_of_eq_ok hpassed, Parser.bind_apply_of_eq_ok htake]
        rfl
      · have htake : Parser.take? (· = kind) ctx (t :: ts) = ⟨[], t :: ts, .ok none⟩ :=
          if_neg (by simpa using ht)
        have hpassed : Parser.passes kind ctx (t :: ts) = ⟨[], t :: ts, .ok false⟩ :=
          Parser.bind_apply_of_eq_ok htake
        rw [Parser.bind_apply_of_eq_ok hpassed, Parser.bind_apply_of_eq_ok htake]
        rfl
  rw [hpasses]
  exact agrees_consume_bind (decide_eq_false hend.symm) hnone hsome

/-- Whether a function body is being read is known beforehand. -/
theorem agrees_inFunction_bind {p : Walk β} {g : Bool → Parser β}
    (h : Agrees S inFunction n p (g inFunction)) : Agrees S inFunction n p (Parser.inFunction >>= g) := by
  intro rest hlength
  exact .of_eq (Parser.inFunction_bind_apply ..) (h rest hlength)

/-- An expression that may be missing. -/
theorem agrees_clause_bind {a : Nat} (ha : n ≤ a) (kind : Token.Kind) {f : Option Expr → Walk β}
    {g : Option Expr → Parser β} (hnext : ∀ value, Agrees S inFunction n (f value) (g value)) :
    Agrees S inFunction n (clause S.tokens kind >>= f)
      (Parser.peek >>= fun t =>
        if t.kind = kind then pure none >>= g else (some <$> Parser.expression a) >>= g) := by
  unfold clause
  rw [bind_assoc]
  refine agrees_peek_bind fun t => ?_
  by_cases ht : t.kind = kind
  · rw [if_pos ht, if_pos ht]
    exact (agrees_pure none).bind hnext
  · rw [if_neg ht, if_neg ht]
    exact ((agrees_assignment S inFunction ha).map some).bind hnext

theorem agrees_parameters {b count : Nat} (hb : n ≤ b) (hcount : count = 0 ∨ n < b) :
    Agrees S inFunction n (parameters S.tokens count) (Parser.parameters b count) := by
  induction n using Nat.strongRecOn generalizing b count with
  | ind n ih =>
    have hsucc : Agrees S inFunction n (parameters S.tokens count) (Parser.parameters (b + 1) count) := by
      unfold parameters Parser.parameters
      refine agrees_check ?_
      refine (agrees_expect .identifier (by decide) _).bind_strict (Parser.strict_expect _ _)
        fun parameter k hk => ?_
      refine agrees_consume_bind (by decide) (agrees_pure _) fun _ l hl => ?_
      have hothers : Agrees S inFunction l (parameters S.tokens (count + 1))
          (Parser.parameters b (count + 1)) := ih l (by omega) (by omega) (.inr (by omega))
      exact hothers.bind fun others => agrees_pure _
    exact hsucc.of_follows (Parser.follows_parameters hb (Nat.le_succ_of_le hb)
      (hcount.imp_right fun hlt => ⟨hlt, Nat.lt_succ_of_lt hlt⟩))

theorem agrees_parameterList {b : Nat} (hb : n ≤ b) :
    Agrees S inFunction n (parameterList S.tokens) (Parser.parameterList b) := by
  unfold parameterList
  exact agrees_peek_bind fun t => agrees_ite (fun _ => agrees_pure _) fun _ =>
    agrees_parameters hb (.inl rfl)

variable {nested : Parser.Nested} {a : Nat} (hexpression : nested.expression = Parser.expression a)

include hexpression

theorem agrees_variableDeclaration (ha : n ≤ a) :
    Agrees S inFunction n (variableDeclaration S.tokens) (Parser.variableDeclaration nested) := by
  unfold variableDeclaration Parser.variableDeclaration initialValue
  rw [hexpression]
  refine (agrees_expect .identifier (by decide) _).bind fun name => ?_
  rw [bind_assoc]
  -- with a value or without, the rest is the same
  have hend (m : Nat) (initial : Option Expr) :
      Agrees S inFunction m (semicolon S.tokens .semicolonAfterVariable >>= fun _ => pure (.var name initial))
        (Parser.semicolon .semicolonAfterVariable >>= fun _ => pure (Stmt.var name initial)) :=
    (agrees_semicolon _).bind fun _ => agrees_pure _
  refine agrees_passes_bind (by decide) ?_ fun _ k hk => ?_
  · exact (agrees_pure none).bind (hend n)
  · have hvalue : Agrees S inFunction k (assignment S.tokens) (Parser.expression a) :=
      agrees_assignment S inFunction (by omega)
    exact (hvalue.map some).bind (hend k)

theorem agrees_expressionStatement (ha : n ≤ a) :
    Agrees S inFunction n (expressionStatement S.tokens) (Parser.expressionStatement nested) := by
  unfold expressionStatement Parser.expressionStatement
  rw [hexpression]
  exact (agrees_assignment S inFunction ha).bind fun _ => (agrees_semicolon _).bind fun _ => agrees_pure _

theorem agrees_printed (ha : n ≤ a) :
    Agrees S inFunction n (printed S.tokens) (Parser.printed nested) := by
  unfold printed Parser.printed
  rw [hexpression]
  exact (agrees_assignment S inFunction ha).bind fun _ => (agrees_semicolon _).bind fun _ => agrees_pure _

theorem agrees_result (ha : n ≤ a) (keyword : Token) :
    Agrees S inFunction n (result S.tokens inFunction keyword) (Parser.result nested keyword) := by
  unfold result Parser.result
  rw [hexpression]
  have hend : ∀ value, Agrees S inFunction n
      (semicolon S.tokens .semicolonAfterResult >>= fun _ => pure (Stmt.result keyword value))
      (Parser.semicolon .semicolonAfterResult >>= fun _ => pure (Stmt.result keyword value)) :=
    fun value => (agrees_semicolon _).bind fun _ => agrees_pure _
  have hvalue := agrees_clause_bind ha .semicolon hend
  refine agrees_inFunction_bind (agrees_ite (fun _ => ?_) fun _ => hvalue)
  exact agrees_note.bind fun _ => hvalue

theorem agrees_initializer (ha : n ≤ a) :
    Agrees S inFunction n (initializer S.tokens) (Parser.initializer nested) := by
  unfold initializer Parser.initializer
  refine agrees_passes_bind (by decide) ?_ fun _ k hk => agrees_pure none
  refine agrees_passes_bind (by decide) ?_ fun _ k hk => ?_
  · exact (agrees_expressionStatement hexpression ha).map some
  · exact (agrees_variableDeclaration hexpression (by omega)).map some

omit hexpression

theorem Agrees.insideFunction {p : Walk α} {q : Parser α} (h : Agrees S true n p q) :
    Agrees S inFunction n p (Parser.insideFunction q) :=
  fun rest hlength => h rest hlength

section Items

/-- The readers for what is nested in a statement of at most `b + 1` tokens. -/
def readers (b : Nat) : Parser.Nested :=
  ⟨Parser.expression (b + 1), Parser.item b false, Parser.item b true⟩

variable {b c : Nat} (hb : n ≤ b)
  (hstatement : ∀ inFunction, ∀ m < n,
    Agrees S inFunction m (statement S.tokens inFunction) (Parser.item b false))
  (hdeclaration : ∀ inFunction, ∀ m < n,
    Agrees S inFunction m (declaration S.tokens inFunction) (Parser.item b true))

section Declarations

include hb hdeclaration

theorem agrees_block (hm : m < n) (hc : m ≤ c) :
    Agrees S inFunction m (block S.tokens inFunction) (Parser.block (Parser.item b true) c) := by
  induction m using Nat.strongRecOn generalizing c with
  | ind m ih =>
    have hstrict : Parser.Strict (Parser.item b true) := (Parser.item_reads b).2.strict_declaration
    have hsucc : Agrees S inFunction m (block S.tokens inFunction)
        (Parser.block (Parser.item b true) (c + 1)) := by
      unfold block Parser.block
      refine agrees_peek_bind fun t => agrees_ite (fun _ => ?_) fun _ => ?_
      · exact (agrees_expect .rightBrace (by decide) _).bind fun _ => agrees_pure _
      · -- there are as many turns as declarations, and each of these passes a token
        refine (hdeclaration inFunction m hm).bind_strict hstrict fun first k hk => ?_
        exact (ih k hk (by omega) (by omega)).bind fun others => agrees_pure _
    have hitem := Parser.follows_item (n := m) (by omega : m ≤ b) (by omega : m ≤ b) true
    exact hsucc.of_follows (Parser.follows_block hitem hstrict hc (Nat.le_succ_of_le hc))

theorem agrees_functionDeclaration (hm : m < n) (hc : m ≤ c) :
    Agrees S inFunction m (functionDeclaration S.tokens)
      (Parser.functionDeclaration (readers b) c) := by
  unfold functionDeclaration Parser.functionDeclaration
  refine (agrees_expect .identifier (by decide) _).bind fun name => ?_
  refine (agrees_expect .leftParen (by decide) _).bind fun _ => ?_
  refine (agrees_parameterList hc).bind fun names => ?_
  refine (agrees_expect .rightParen (by decide) _).bind fun _ => ?_
  refine (agrees_expect .leftBrace (by decide) _).bind fun _ => ?_
  -- the body is read as one of a function, wherever the function itself stands
  have hbody : Agrees S true m (block S.tokens true) (Parser.block (Parser.item b true) c) :=
    agrees_block hb hdeclaration hm hc
  exact hbody.insideFunction.bind fun body => agrees_pure _

end Declarations

section Parts

include hb hstatement

theorem agrees_conditional (hm : m < n) :
    Agrees S inFunction m (conditional S.tokens inFunction) (Parser.conditional (readers b)) := by
  have hcondition : Agrees S inFunction m (assignment S.tokens) (Parser.expression (b + 1)) :=
    agrees_assignment S inFunction (by omega)
  unfold conditional Parser.conditional
  refine (agrees_expect .leftParen (by decide) _).bind fun _ => ?_
  refine hcondition.bind fun condition => ?_
  refine (agrees_expect .rightParen (by decide) _).bind fun _ => ?_
  refine (hstatement inFunction m hm).bind fun body => ?_
  refine agrees_passes_bind (by decide) (agrees_pure _) fun _ k hk => ?_
  exact (hstatement inFunction k (by omega)).bind fun otherwise => agrees_pure _

theorem agrees_whileLoop (hm : m < n) :
    Agrees S inFunction m (whileLoop S.tokens inFunction) (Parser.whileLoop (readers b)) := by
  have hcondition : Agrees S inFunction m (assignment S.tokens) (Parser.expression (b + 1)) :=
    agrees_assignment S inFunction (by omega)
  unfold whileLoop Parser.whileLoop
  refine (agrees_expect .leftParen (by decide) _).bind fun _ => ?_
  refine hcondition.bind fun condition => ?_
  refine (agrees_expect .rightParen (by decide) _).bind fun _ => ?_
  exact (hstatement inFunction m hm).bind fun body => agrees_pure _

theorem agrees_forLoop (hm : m < n) :
    Agrees S inFunction m (forLoop S.tokens inFunction) (Parser.forLoop (readers b)) := by
  have hclause : m ≤ b + 1 := by omega
  unfold forLoop Parser.forLoop
  refine (agrees_expect .leftParen (by decide) _).bind fun _ => ?_
  refine (agrees_initializer rfl hclause).bind fun initial => ?_
  refine agrees_clause_bind hclause .semicolon fun condition => ?_
  refine (agrees_semicolon _).bind fun _ => ?_
  refine agrees_clause_bind hclause .rightParen fun increment => ?_
  refine (agrees_expect .rightParen (by decide) _).bind fun _ => ?_
  exact (hstatement inFunction m hm).bind fun body => agrees_pure _

end Parts

include hb hstatement hdeclaration

theorem agrees_statementWith (hc : n ≤ c + 1) :
    Agrees S inFunction n (statement S.tokens inFunction)
      (Parser.statementWith (readers b) c) := by
  have hexpression : Agrees S inFunction n (expressionStatement S.tokens)
      (Parser.expressionStatement (readers b)) :=
    agrees_expressionStatement rfl (Nat.le_succ_of_le hb)
  intro rest hlength
  unfold statement Parser.statementWith
  refine agreesAt_peek_bind ?_
  cases rest with
  | nil =>
    -- at the end there is no keyword
    rw [List.head?_nil, Option.getD_none, S.ending_kind]
    exact hexpression [] hlength
  | cons t rest =>
    have hm : rest.length < n := hlength
    have hother := hexpression (t :: rest) hlength
    have hrest : rest.length ≤ rest.length := Nat.le_refl _
    have hblock : Agrees S inFunction rest.length (block S.tokens inFunction)
        (Parser.block (Parser.item b true) c) := agrees_block hb hdeclaration hm (by omega)
    rw [List.head?_cons, Option.getD_some]
    generalize t.kind = kind
    cases kind with
    | leftBrace => exact agreesAt_advance_bind ((hblock.map Stmt.block) rest hrest)
    | keyword word =>
      cases word with
      | print => exact agreesAt_advance_bind (agrees_printed rfl (by omega) rest hrest)
      | «if» => exact agreesAt_advance_bind (agrees_conditional hb hstatement hm rest hrest)
      | «while» => exact agreesAt_advance_bind (agrees_whileLoop hb hstatement hm rest hrest)
      | «for» => exact agreesAt_advance_bind (agrees_forLoop hb hstatement hm rest hrest)
      | «return» => exact agreesAt_advance_bind (agrees_result rfl (by omega) t rest hrest)
      | _ => exact hother
    | _ => exact hother

theorem agrees_declarationWith (hc : n ≤ c + 1) :
    Agrees S inFunction n (declaration S.tokens inFunction)
      (Parser.declarationWith (readers b) c) := by
  have hstatement' : Agrees S inFunction n (statement S.tokens inFunction)
      (Parser.statementWith (readers b) c) := agrees_statementWith hb hstatement hdeclaration hc
  intro rest hlength
  unfold declaration Parser.declarationWith
  refine agreesAt_peek_bind ?_
  cases rest with
  | nil =>
    rw [List.head?_nil, Option.getD_none, S.ending_kind]
    exact hstatement' [] hlength
  | cons t rest =>
    have hm : rest.length < n := hlength
    have hother := hstatement' (t :: rest) hlength
    have hrest : rest.length ≤ rest.length := Nat.le_refl _
    rw [List.head?_cons, Option.getD_some]
    generalize t.kind = kind
    cases kind with
    | keyword word =>
      cases word with
      | var => exact agreesAt_advance_bind (agrees_variableDeclaration rfl (by omega) rest hrest)
      | «fun» =>
        exact agreesAt_advance_bind (agrees_functionDeclaration hb hdeclaration hm (by omega) rest hrest)
      | _ => exact hother
    | _ => exact hother

end Items

/-- Reading a statement, or a statement or declaration, agrees with the parser of these, under any bound that is
large enough. -/
theorem agrees_item (S : Script) (inFunction : Bool) {n b : Nat} (hb : n ≤ b) :
    Agrees S inFunction n (statement S.tokens inFunction) (Parser.statement b) ∧
      Agrees S inFunction n (declaration S.tokens inFunction) (Parser.declaration b) := by
  induction n using Nat.strongRecOn generalizing inFunction with
  | ind n ih =>
    have hstatement : ∀ inFunction, ∀ m < n,
        Agrees S inFunction m (statement S.tokens inFunction) (Parser.item b false) :=
      fun inFunction m hm => (ih m hm inFunction (by omega)).1
    have hdeclaration : ∀ inFunction, ∀ m < n,
        Agrees S inFunction m (declaration S.tokens inFunction) (Parser.item b true) :=
      fun inFunction m hm => (ih m hm inFunction (by omega)).2
    -- the keyword of a statement is passed, so one more token than the bound is enough for all of it
    have hbound (declarations : Bool) :
        Parser.Follows n (Parser.item b declarations) (Parser.item (b + 1) declarations) :=
      Parser.follows_item hb (Nat.le_succ_of_le hb) declarations
    refine ⟨Agrees.of_follows ?_ (hbound false), Agrees.of_follows ?_ (hbound true)⟩
    · exact agrees_statementWith hb hstatement hdeclaration (by omega)
    · exact agrees_declarationWith hb hstatement hdeclaration (by omega)

end Statements

end Walk

end LoxScript
