import LoxScript.Proofs.Evaluation.Bound
import LoxScript.Proofs.Evaluation.Results
import LoxScript.Proofs.Evaluation.Simulation
import LoxScript.Proofs.Syntax.Alike
import LoxScript.Proofs.Syntax.Language
import LoxScript.Proofs.Token.Join

/-!
# Scripts in pieces

A script that consists of two accepted scripts with a line feed between them is accepted, and running it
is running the first and then, if that went well, the second. Only the lines of the tokens of the second
script differ, which are further down in the whole. What was left by scripts that ran before may differ
in nothing.

## Main definitions

* `Likeness.moving`: some tokens stay where they are and others move down.
* `Session.Ran`: the sessions in which scripts were run.
* `Failure.LikeEnd`: scripts that end alike.

## Main statements

* `Program.ofSource_join`: the program of joined scripts.
* `Session.Ran.like_self`: what scripts leave behind holds tokens of these scripts only.
* `Session.runSource_join`: running joined scripts.
-/

namespace LoxScript

/-! ## Tokens that move -/

/-- The tokens in `here` stand for themselves, and those in `moved` for the ones `n` lines further down.
Nothing else may differ. -/
def Likeness.moving (here moved : List Token) (n : Nat) : Likeness where
  token t u := t ∈ here ∧ u = t ∨ t ∈ moved ∧ u = t.shift n
  number := Eq
  within _ := True

theorem Likeness.moving_lawful (A : Arithmetic) (here moved : List Token) (n : Nat) :
    (Likeness.moving here moved n).Lawful A A := by
  refine Likeness.lawful_of_lines A ?_
  rintro t _ (⟨-, rfl⟩ | ⟨-, rfl⟩) <;> exact ⟨rfl, rfl⟩

/-! ## Programs -/

/-- A program is like itself if its tokens are. -/
theorem Grammar.IsProgram.like_self {K : Likeness} {A : Arithmetic} (hK : K.Lawful A A)
    {w : List Token} {p : Program} (h : IsProgram w p) (hw : ∀ t ∈ w, K.token t t) :
    List.Forall₂ (Stmt.Like K) p p := by
  obtain ⟨p', hp', hlikes⟩ := h.alike hK (List.forall₂_same.2 hw)
  rwa [(Block.unique hp' h).1] at hlikes

theorem Token.mem_of_mem_content {ts : List Token} {t : Token} (h : t ∈ Token.content ts) : t ∈ ts :=
  (List.takeWhile_sublist _).subset h

/-- The tokens that count in a script that consists of another one and a text further down. -/
theorem Scan.content_of_followedBy {A : Arithmetic} {a b whole : String} {n : Nat}
    (h : Scan.ofSource A whole = (Scan.ofSource A a).followedBy ((Scan.ofSource A b).shift n)) :
    Token.content (Scan.ofSource A whole).tokens =
      Token.content (Scan.ofSource A a).tokens ++
        (Token.content (Scan.ofSource A b).tokens).map (·.shift n) := by
  have hb : (Scan.ofSource A b).tokens ≠ [] := Scan.ofPieces_tokens_ne_nil 1 _
  rw [Scan.content_ofSource, Scan.content_ofSource, Scan.content_ofSource, h]
  unfold Scan.followedBy Scan.shift
  dsimp only
  rw [List.dropLast_append_of_ne_nil (by simpa using hb), List.map_dropLast]

/-- The program of such a script is that of the first part and one like that of the second, if tokens may
stand for those `n` lines further down. -/
theorem Program.ofSource_of_followedBy {A : Arithmetic} {K : Likeness} (hK : K.Lawful A A)
    {a b whole : String} {n : Nat}
    (h : Scan.ofSource A whole = (Scan.ofSource A a).followedBy ((Scan.ofSource A b).shift n))
    {p q : Program} (ha : Program.ofSource A a = .ok p) (hb : Program.ofSource A b = .ok q)
    (htoken : ∀ t ∈ (Scan.ofSource A b).tokens, K.token t (t.shift n)) :
    ∃ q', Program.ofSource A whole = .ok (p ++ q') ∧ List.Forall₂ (Stmt.Like K) q q' := by
  obtain ⟨haerrors, hp⟩ := Program.ofSource_eq_ok_iff.1 ha
  obtain ⟨hberrors, hq⟩ := Program.ofSource_eq_ok_iff.1 hb
  -- token by token, the second part stands in the whole further down
  have hmoved : List.Forall₂ K.token (Token.content (Scan.ofSource A b).tokens)
      ((Token.content (Scan.ofSource A b).tokens).map (·.shift n)) :=
    List.forall₂_map_right_iff.2 (List.forall₂_same.2 fun t ht =>
      htoken t (Token.mem_of_mem_content ht))
  obtain ⟨q', hq', hlikes⟩ := hq.alike hK hmoved
  refine ⟨q', Program.ofSource_eq_ok_iff.2 ⟨?_, ?_⟩, hlikes⟩
  · rw [h]
    simp [Scan.followedBy, Scan.shift, haerrors, hberrors]
  · rw [Scan.content_of_followedBy h]
    exact Grammar.Block.append hp hq'

/-- The program of joined scripts is that of the first and one like that of the second, which stands
further down. -/
theorem Program.ofSource_join {A : Arithmetic} {a b : String} {p q : Program}
    (ha : Program.ofSource A a = .ok p) (hb : Program.ofSource A b = .ok q) (here : List Token) :
    ∃ q', Program.ofSource A (a ++ "\n" ++ b) = .ok (p ++ q') ∧
      List.Forall₂ (Stmt.Like (.moving here (Scan.ofSource A b).tokens (Text.newlines a.toList + 1)))
        q q' := by
  have haerrors := (Program.ofSource_eq_ok_iff.1 ha).1
  have hjoin := Scan.ofSource_join A a b (by simp [haerrors])
  exact Program.ofSource_of_followedBy (Likeness.moving_lawful A _ _ _) hjoin ha hb fun t ht =>
    .inr ⟨ht, rfl⟩

namespace Session

variable {A : Arithmetic} {K : Likeness}

/-! ## Sessions in which scripts were run -/

/-- The session is left by the scripts, the last of which comes first, however they ended. -/
inductive Ran (A : Arithmetic) : List String → Session → Prop where
  | start (clock : Clock) (sink : Sink) : Ran A [] (start clock sink)
  | runSource {sources : List String} {s : Session} (h : Ran A sources s) (bound : Nat)
      (source : String) : Ran A (source :: sources) (s.runSource A bound source).2

theorem start_like_self (hnumber : ∀ x, K.number x x) (hwithin : ∀ id, K.within id)
    (clock : Clock) (sink : Sink) : Session.Like K (start clock sink) (start clock sink) := by
  -- the one scope there is holds nothing but a native function
  have hroot : Scopes.Like K Scopes.empty.newRoot Scopes.empty.newRoot := by
    refine ⟨rfl, fun id _ => hwithin id, fun id _ => ?_⟩
    rw [Scopes.newRoot, Scopes.getElem?_add]
    split
    · exact .some ⟨.nil, rfl, fun p _ => hwithin p⟩
    · exact .none
  exact
    { scopes := hroot.define globals "clock" (.function (.native 0))
      active := rfl
      within := hwithin _
      natives := rfl
      respects := by
        intro native hnative answer haction
        obtain rfl : native = ⟨0, .readClock⟩ := List.mem_singleton.1 (Array.mem_def.1 hnative)
        cases haction
      objects := rfl
      clock := Clock.like_self hnumber clock
      readings := rfl
      output := rfl
      sink := rfl }

/-- What scripts leave behind holds tokens of these scripts only. -/
theorem Ran.like_self (hK : K.Lawful A A) (hnumber : ∀ x, K.number x x)
    (hwithin : ∀ id, K.within id) {sources : List String} {s : Session} (h : Ran A sources s)
    (htokens : ∀ source ∈ sources, ∀ t ∈ (Scan.ofSource A source).tokens, K.token t t) :
    Session.Like K s s := by
  induction h with
  | start clock sink => exact start_like_self hnumber hwithin clock sink
  | @runSource sources s _ bound source ih =>
    obtain ⟨hsource, hsources⟩ := List.forall_mem_cons.1 htokens
    unfold Session.runSource
    cases hp : Program.ofSource A source with
    | error reason => exact ih hsources
    | ok p =>
      -- the tree has the tokens of the source, and the run keeps sessions alike
      have hprogram := (Program.ofSource_eq_ok_iff.1 hp).2
      have hlikes := hprogram.like_self hK fun t ht => hsource t (Token.mem_of_mem_content ht)
      dsimp only
      rw [interpret_eq]
      exact ((Eval.alike hK bound).executeEach hlikes (ih hsources)).2.1

end Session

/-! ## Running joined scripts -/

/-- Scripts that end alike: both at their end, or both for the same reason. -/
inductive Failure.LikeEnd (K : Likeness) : Except Failure Unit → Except Failure Unit → Prop where
  | ok : LikeEnd K (.ok ()) (.ok ())
  | rejected (reason : Rejection) :
      LikeEnd K (.error (.rejected reason)) (.error (.rejected reason))
  | stopped {stop stop' : Stop} (h : Stop.Like K stop stop') :
      LikeEnd K (.error (.stopped stop)) (.error (.stopped stop'))

namespace Session

variable {A : Arithmetic} {K : Likeness} {s : Session} {p q q' : Program}

theorem ended_like {o o' : Except Stop Completion} (h : Outcome.Like K (Completion.Like K) o o') :
    Failure.LikeEnd K (ended o) (ended o') := by
  cases h with
  | ok => exact .ok
  | error h => exact .stopped h

theorem exhausted_iff_of_like {o o' : Except Stop Completion}
    (h : Outcome.Like K (Completion.Like K) o o') :
    o = .error .exhausted ↔ o' = .error .exhausted := by
  rcases h with h | ⟨⟨⟩⟩ <;> simp

/-- Where no result ends the first part, statements in a row run one part after the other. -/
theorem run_executeEach_join (hp : ∀ statement ∈ p, statement.ResultFree) (s : Session)
    (bound : Nat) (q : Program) :
    s.run (Eval.executeEach A (p.length + (bound + 1)) (p ++ q)) =
      match s.run (Eval.executeEach A (p.length + (bound + 1)) p) with
      | (.ok _, t) => t.run (Eval.executeEach A (bound + 1) q)
      | (.error stop, t) => (.error stop, t) := by
  rw [run_executeEach_append]
  rcases h : s.run (Eval.executeEach A (p.length + (bound + 1)) p) with ⟨stop | completion, t⟩
  · rfl
  · obtain rfl : completion = .normal := Eval.executeEach_only_normal hp s completion (by rw [h])
    rfl

/-- A script that stops in its first part stops there. -/
theorem run_join_of_error (hp : ∀ statement ∈ p, statement.ResultFree) {bound : Nat} {stop : Stop}
    {t : Session} (h : s.run (Eval.executeEach A bound p) = (.error stop, t))
    (hstop : stop ≠ .exhausted) (q : Program) :
    s.run (Eval.executeEach A (p.length + (bound + 1)) (p ++ q)) = (.error stop, t) := by
  have hmore := run_executeEach_add (by rw [h]; simpa using hstop) (p.length + 1)
  have hbound : bound + (p.length + 1) = p.length + (bound + 1) := by omega
  rw [run_executeEach_join hp, ← hbound, hmore, h]

/-- Behind a first part that ended at its end, the second part runs. -/
theorem run_join_of_ok (hp : ∀ statement ∈ p, statement.ResultFree) {bound : Nat}
    {completion : Completion} {t : Session}
    (h : s.run (Eval.executeEach A bound p) = (.ok completion, t)) (more : Nat) (q : Program) :
    s.run (Eval.executeEach A (p.length + (bound + more + 1)) (p ++ q)) =
      t.run (Eval.executeEach A (bound + more + 1) q) := by
  have hmore := run_executeEach_add (by rw [h]; simp) (p.length + (more + 1))
  have hbound : bound + (p.length + (more + 1)) = p.length + (bound + more + 1) := by omega
  rw [run_executeEach_join hp, ← hbound, hmore, h]

section Parts

variable {a b whole : String} (ha : Program.ofSource A a = .ok p)
  (hwhole : Program.ofSource A whole = .ok (p ++ q'))

include ha hwhole

/-- Where the first part fails, the whole fails in the same way. -/
theorem Ends.join_of_error {f : Failure} {t : Session} (h : s.Ends A a (.error f) t) :
    s.Ends A whole (.error f) t := by
  have hp := (Program.ofSource_eq_ok_iff.1 ha).2.resultFree
  obtain ⟨bound, o, hrun, hexhausted, hended⟩ := (ends_iff ha).1 h
  cases o with
  | ok completion => cases hended
  | error stop =>
    have hstop : stop ≠ .exhausted := by simpa using hexhausted
    exact (ends_iff hwhole).2 ⟨_, _, run_join_of_error hp hrun hstop q', hexhausted, hended⟩

variable (hb : Program.ofSource A b = .ok q) (hK : K.Lawful A A)
  (hlikes : List.Forall₂ (Stmt.Like K) q q')

include hb hK hlikes

/-- Where the first part ends well, the whole ends as the second part does behind it. -/
theorem Ends.join_of_ok {t : Session} (hlike : Session.Like K t t) (ht : s.Ends A a (.ok ()) t)
    {r : Except Failure Unit} {u : Session} (hu : t.Ends A b r u) :
    ∃ r' u', s.Ends A whole r' u' ∧ Failure.LikeEnd K r r' ∧ Session.Like K u u' := by
  have hp := (Program.ofSource_eq_ok_iff.1 ha).2.resultFree
  obtain ⟨m, o, hrun, -, hended⟩ := (ends_iff ha).1 ht
  obtain ⟨n, o', hrun', hexhausted, rfl⟩ := (ends_iff hb).1 hu
  cases o with
  | error stop => cases hended
  | ok completion =>
    -- the bound is large enough for both parts, and for both ways to run the second
    have hjoin := run_join_of_ok hp hrun n q'
    have hmore := run_executeEach_add (by rw [hrun']; exact hexhausted) (m + 1)
    rw [Nat.add_left_comm, ← Nat.add_assoc, hrun'] at hmore
    obtain ⟨houtcome, hsession, -⟩ := (Eval.alike hK (m + n + 1)).executeEach hlikes hlike
    rw [hmore] at houtcome hsession
    have hexhausted' := mt (exhausted_iff_of_like houtcome).2 hexhausted
    exact ⟨_, _, (ends_iff hwhole).2 ⟨_, _, hjoin, hexhausted', rfl⟩, ended_like houtcome, hsession⟩

/-- The whole ends in no other way than its parts do. -/
theorem Ends.of_join (hleft : ∀ r t, s.Ends A a r t → Session.Like K t t)
    {r' : Except Failure Unit} {u' : Session} (h : s.Ends A whole r' u') :
    (∃ f, s.Ends A a (.error f) u' ∧ r' = .error f) ∨
      ∃ t r u, s.Ends A a (.ok ()) t ∧ t.Ends A b r u ∧ Failure.LikeEnd K r r' ∧
        Session.Like K u u' := by
  have hp := (Program.ofSource_eq_ok_iff.1 ha).2.resultFree
  obtain ⟨bound, o', hrun, hexhausted, rfl⟩ := (ends_iff hwhole).1 h
  have hmore := run_executeEach_add (by rw [hrun]; exact hexhausted) (p.length + 1)
  -- a greater bound shows where the first part ended
  have hbound : bound + (p.length + 1) = p.length + (bound + 1) := by omega
  rw [hbound, hrun, run_executeEach_join hp] at hmore
  rcases hfirst : s.run (Eval.executeEach A (p.length + (bound + 1)) p) with ⟨stop | completion, t⟩
  · rw [hfirst] at hmore
    obtain ⟨rfl, rfl⟩ := Prod.mk.inj hmore
    exact .inl ⟨_, (ends_iff ha).2 ⟨_, _, hfirst, hexhausted, rfl⟩, rfl⟩
  · rw [hfirst] at hmore
    have ht : s.Ends A a (.ok ()) t := (ends_iff ha).2 ⟨_, _, hfirst, by simp, rfl⟩
    have hsecond : t.run (Eval.executeEach A (bound + 1 + 0) q') = (o', u') := hmore
    obtain ⟨houtcome, hsession, -⟩ :=
      (Eval.alike hK (bound + 1)).executeEach hlikes (hleft _ t ht)
    rw [hsecond] at houtcome hsession
    have hexhausted' := mt (exhausted_iff_of_like houtcome).1 hexhausted
    exact .inr ⟨t, _, _, ht, (ends_iff hb).2 ⟨_, _, rfl, hexhausted', rfl⟩, ended_like houtcome,
      hsession⟩

end Parts

/-- The tokens of scripts. -/
def tokens (A : Arithmetic) (sources : List String) : List Token :=
  sources.flatMap fun source => (Scan.ofSource A source).tokens

/-- What a further script leaves holds tokens of the scripts only, all of which stay where they are. -/
theorem Ran.like_self_of_ends {sources : List String} (hs : Ran A sources s) {a : String}
    (moved : List Token) (n : Nat) {r : Except Failure Unit} {t : Session} (h : s.Ends A a r t) :
    Session.Like (.moving (tokens A (a :: sources)) moved n) t t := by
  obtain ⟨bound, hrun, -⟩ := h
  have hself := (hs.runSource bound a).like_self (Likeness.moving_lawful A _ moved n) (fun _ => rfl)
    (fun _ => trivial)
    fun source hsource t ht => .inl ⟨List.mem_flatMap.2 ⟨source, hsource, ht⟩, rfl⟩
  rwa [hrun] at hself

/-- Running a script that consists of two accepted ones, with a line feed between them, in a session
that scripts have left behind:

* the whole is accepted;
* where the first fails, the whole fails in the same way and leaves the same session;
* where the first ends well, the whole ends as the second does behind it, and leaves a session like the
  one the second leaves;
* and these are the only ways in which the whole ends.

Alike means: the same but for the tokens of the second script, which stand further down in the whole. -/
theorem runSource_join {sources : List String} (hs : Ran A sources s) {a b : String}
    (ha : Program.ofSource A a = .ok p) (hb : Program.ofSource A b = .ok q) :
    let joined := a ++ "\n" ++ b
    let K := Likeness.moving (tokens A (a :: sources)) (Scan.ofSource A b).tokens
      (Text.newlines a.toList + 1)
    (∃ whole, Program.ofSource A joined = .ok whole) ∧
    (∀ f t, s.Ends A a (.error f) t → s.Ends A joined (.error f) t) ∧
    (∀ t r u, s.Ends A a (.ok ()) t → t.Ends A b r u →
      ∃ r' u', s.Ends A joined r' u' ∧ Failure.LikeEnd K r r' ∧ Session.Like K u u') ∧
    ∀ r' u', s.Ends A joined r' u' →
      (∃ f, s.Ends A a (.error f) u' ∧ r' = .error f) ∨
      ∃ t r u, s.Ends A a (.ok ()) t ∧ t.Ends A b r u ∧ Failure.LikeEnd K r r' ∧
        Session.Like K u u' := by
  intro joined K
  have hK : K.Lawful A A := Likeness.moving_lawful A _ _ _
  obtain ⟨q', hwhole, hlikes⟩ := Program.ofSource_join ha hb (tokens A (a :: sources))
  -- what the first script leaves holds none of the tokens that move
  have hleft (r : Except Failure Unit) (t : Session) (h : s.Ends A a r t) : Session.Like K t t :=
    hs.like_self_of_ends _ _ h
  refine ⟨⟨_, hwhole⟩, ?_, ?_, ?_⟩
  · intro f t h
    exact h.join_of_error ha hwhole
  · intro t r u ht hu
    exact ht.join_of_ok ha hwhole hb hK hlikes (hleft _ t ht) hu
  · intro r' u' h
    exact h.of_join ha hwhole hb hK hlikes hleft

/-- A script that prints, and one that stops at its first name, in the session that scripts begin in. -/
theorem runSource_join_start :
    let s := start (.stopped ⟨0⟩) .unlimited
    let a := "print nil;"
    let b := "print y;"
    let p : Program := [.print (.literal .nil)]
    let q : Program := [.print (.variable ⟨.identifier, "y", 1⟩)]
    Ran .binary64 [] s ∧ Program.ofSource .binary64 a = .ok p ∧ Program.ofSource .binary64 b = .ok q ∧
      ∃ r u, s.Ends .binary64 (a ++ "\n" ++ b) r u ∧ r ≠ .ok () ∧ u.output = "nil\n" := by
  intro s a b p q
  have hs : Ran .binary64 [] s := .start _ _
  have hscan : Scan.ofSource .binary64 "print nil;" =
      ⟨[⟨.keyword .print, "print", 1⟩, ⟨.keyword .nil, "nil", 1⟩, ⟨.semicolon, ";", 1⟩,
        Token.ending 1], []⟩ := by decide +kernel
  have hscan' : Scan.ofSource .binary64 "print y;" =
      ⟨[⟨.keyword .print, "print", 1⟩, ⟨.identifier, "y", 1⟩, ⟨.semicolon, ";", 1⟩,
        Token.ending 1], []⟩ := by decide +kernel
  have ha : Program.ofSource .binary64 a = .ok p := by
    rw [Program.ofSource, hscan]
    rfl
  have hb : Program.ofSource .binary64 b = .ok q := by
    rw [Program.ofSource, hscan']
    rfl
  let t := (s.run (Eval.executeEach .binary64 3 p)).2
  have hfirst : s.Ends .binary64 a (.ok ()) t :=
    (ends_iff ha).2 ⟨3, .ok .normal, Prod.ext rfl rfl, by simp, rfl⟩
  have hsecond : t.Ends .binary64 b (.error (.stopped (.runtime ⟨.undefinedVariable "y", 1⟩))) t :=
    (ends_iff hb).2 ⟨3, .error (.runtime ⟨.undefinedVariable "y", 1⟩), rfl, by simp, rfl⟩
  obtain ⟨-, -, hjoin, -⟩ := runSource_join hs ha hb
  obtain ⟨r, u, hends, hr, hu⟩ := hjoin _ _ _ hfirst hsecond
  refine ⟨hs, ha, hb, r, u, hends, ?_, ?_⟩
  · rintro rfl
    cases hr
  · rw [hu.output]
    rfl

end Session

end LoxScript
