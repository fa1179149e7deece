import LoxScript.CommandLine.Run
import LoxScript.Proofs.Evaluation.LineByLine
import Mathlib

/-!
# The prompt

The command reads lines at the prompt, or a file. At the prompt each line is run as a script, all in one
session, and what a line prints stands behind an invitation. A file with the same text is run as one
script. If every line is a program that does not fail, the two print the same, but for the invitations.

The lines are cut out of bytes. In UTF-8 the byte of a line feed stands for a line feed and nothing else,
so the lines of the bytes are those of the text. The session at the prompt does not keep output, while
scripts run in a session add to the output there was. Since nothing is refused there, that makes no
difference.

## Main statements

* `Entered.ofBytes_toUTF8`: the lines of an encoded text.
* `Prompt.runLines_of_talks`: what is shown at the prompt.
* `prompt_agrees_with_file`: the prompt and a file with the same text.
-/

namespace LoxScript.CommandLine

/-! ## Lines of a text -/

theorem linesFrom_cons_of_ne {line text : List Char} {c : Char} (hc : c ≠ '\n') :
    linesFrom line (c :: text) = linesFrom (c :: line) text := by
  rw [linesFrom]
  exact hc

/-- Characters that are no line feeds are collected, the last one first. -/
theorem linesFrom_append {a : List Char} (ha : '\n' ∉ a) (line text : List Char) :
    linesFrom line (a ++ text) = linesFrom (a.reverse ++ line) text := by
  induction a generalizing line with
  | nil => rfl
  | cons c a ih =>
    obtain ⟨hc, ha⟩ := not_or.1 (mt List.mem_cons.2 ha)
    rw [List.cons_append, linesFrom_cons_of_ne (Ne.symm hc), ih ha, List.reverse_cons,
      List.append_assoc, List.singleton_append]

theorem linesFrom_of_lines {text : List Char} {lines : List String} (h : Text.Lines text lines) :
    linesFrom [] text = lines := by
  induction h with
  | none => rfl
  -- a last line without a line feed is kept, and there is no empty one behind the last line feed
  | @last line hne hline =>
    have hrun := linesFrom_append hline [] []
    rw [List.append_nil, List.append_nil] at hrun
    rw [hrun, linesFrom, List.reverse_reverse, if_neg (by simpa using hne)]
  | @more line rest lines hline _ ih =>
    rw [linesFrom_append hline, List.append_nil, linesFrom, ih, List.reverse_cons,
      List.reverse_reverse]

/-- The characters collected so far begin the first line that is found. -/
theorem lines_linesFrom {line : List Char} (hline : '\n' ∉ line) (text : List Char) :
    Text.Lines (line.reverse ++ text) (linesFrom line text) := by
  induction text generalizing line with
  | nil =>
    rw [List.append_nil, linesFrom]
    by_cases hempty : line = []
    · subst hempty
      exact .none
    · rw [if_neg (by simpa using hempty)]
      exact .last (by simpa using hempty) (by simpa using hline)
  | cons c text ih =>
    by_cases hc : c = '\n'
    · subst hc
      rw [linesFrom, List.reverse_cons]
      exact .more (by simpa using hline) (ih List.not_mem_nil)
    · rw [linesFrom_cons_of_ne hc]
      have hcs : '\n' ∉ c :: line := by simp [Ne.symm hc, hline]
      have hrest := ih hcs
      rwa [List.reverse_cons, List.append_assoc] at hrest

/-- A text has one list of lines, which is found. -/
theorem lines_iff {text : List Char} {lines : List String} :
    Text.Lines text lines ↔ linesFrom [] text = lines := by
  refine ⟨linesFrom_of_lines, ?_⟩
  rintro rfl
  exact lines_linesFrom List.not_mem_nil text

/-! ## Lines of bytes -/

/-- The bytes that encode characters. -/
def encode (text : List Char) : List UInt8 := text.flatMap String.utf8EncodeChar

theorem encode_append (a b : List Char) : encode (a ++ b) = encode a ++ encode b :=
  List.flatMap_append

theorem encode_cons (c : Char) (text : List Char) :
    encode (c :: text) = String.utf8EncodeChar c ++ encode text :=
  List.flatMap_cons

/-- The byte of a line feed encodes no part of another character. -/
theorem lineFeed_notMem_encodeChar {c : Char} (hc : c ≠ '\n') : 10 ∉ String.utf8EncodeChar c := by
  have hbyte {n : Nat} (h : n % 256 ≠ 10) : (10 : UInt8) ≠ UInt8.ofNat n := by
    intro heq
    have hnat := congrArg UInt8.toNat heq
    rw [UInt8.toNat_ofNat'] at hnat
    exact h hnat.symm
  unfold String.utf8EncodeChar
  dsimp only
  split
  -- one byte, which is the number of the character
  · have hvalue : c.val.toNat ≠ 10 := fun h => hc (Char.ext (UInt32.toNat_inj.1 h))
    simpa using hbyte (n := c.val.toNat) (by omega)
  -- of several bytes none is below 128
  · split
    · simp only [List.mem_cons, List.not_mem_nil, or_false, not_or]
      exact ⟨hbyte (by omega), hbyte (by omega)⟩
    · split
      · simp only [List.mem_cons, List.not_mem_nil, or_false, not_or]
        exact ⟨hbyte (by omega), hbyte (by omega), hbyte (by omega)⟩
      · simp only [List.mem_cons, List.not_mem_nil, or_false, not_or]
        exact ⟨hbyte (by omega), hbyte (by omega), hbyte (by omega), hbyte (by omega)⟩

theorem lineFeed_notMem_encode {text : List Char} (h : '\n' ∉ text) : 10 ∉ encode text := by
  intro hmem
  obtain ⟨c, hc, hbyte⟩ := List.mem_flatMap.1 hmem
  exact lineFeed_notMem_encodeChar (fun heq => h (heq ▸ hc)) hbyte

/-- The bytes of an array, read off from the place `i` on. -/
theorem toList_loop (bytes : ByteArray) (i : Nat) (before : List UInt8) :
    ByteArray.toList.loop bytes i before = before.reverse ++ bytes.data.toList.drop i := by
  fun_induction ByteArray.toList.loop bytes i before with
  | case1 i before h ih =>
    have hi : i < bytes.data.toList.length := h
    rw [ih, List.drop_eq_getElem_cons hi]
    simp [ByteArray.get!, getElem!_pos, h]
  | case2 i before h =>
    have hi : bytes.data.toList.length ≤ i := Nat.le_of_not_lt h
    rw [List.drop_of_length_le hi, List.append_nil]

theorem toList_toUTF8 (text : String) : text.toUTF8.toList = encode text.toList := by
  rw [ByteArray.toList, toList_loop, String.toUTF8_eq_toByteArray, ← String.utf8Encode_toList,
    List.utf8Encode, List.toList_data_toByteArray]
  rfl

theorem decode_toUTF8 (text : String) : decode text.toUTF8 = .ok text := by
  rw [decode, Output.fromUTF8?_toUTF8]

theorem decode_encode (text : String) : decode ⟨(encode text.toList).toArray⟩ = .ok text := by
  have hbytes : (⟨(encode text.toList).toArray⟩ : ByteArray) = text.toUTF8 := by
    rw [String.toUTF8_eq_toByteArray, ← String.utf8Encode_toList]
    exact ByteArray.ext List.data_toByteArray.symm
  rw [hbytes, decode_toUTF8]

namespace Entered

theorem byteLines_append {a : List UInt8} (ha : 10 ∉ a) (line bytes : List UInt8) :
    byteLines line (a ++ bytes) = byteLines (a.reverse ++ line) bytes := by
  induction a generalizing line with
  | nil => rfl
  | cons byte a ih =>
    obtain ⟨hbyte, ha⟩ := not_or.1 (mt List.mem_cons.2 ha)
    rw [List.cons_append, byteLines, if_neg (Ne.symm hbyte), ih ha, List.reverse_cons,
      List.append_assoc, List.singleton_append]

/-- The lines of bytes that encode a text encode its lines. -/
theorem byteLines_encode {text : List Char} {lines : List String} (h : Text.Lines text lines) :
    byteLines [] (encode text) = lines.map (encode ·.toList) := by
  induction h with
  | none => rfl
  | @last line hne hline =>
    have hrun := byteLines_append (lineFeed_notMem_encode hline) [] []
    rw [List.append_nil, List.append_nil] at hrun
    have hencoded : encode line ≠ [] := by
      obtain ⟨c, line, rfl⟩ := List.exists_cons_of_ne_nil hne
      simp [encode_cons, String.utf8EncodeChar_ne_nil]
    rw [hrun, byteLines, List.reverse_reverse, if_neg (by simpa using hencoded)]
    simp
  | @more line rest lines hline _ ih =>
    have hfeed : String.utf8EncodeChar '\n' = [10] := rfl
    rw [encode_append, encode_cons, hfeed, byteLines_append (lineFeed_notMem_encode hline),
      List.append_nil, List.singleton_append, byteLines, if_pos rfl, ih]
    simp [encode, hfeed]

theorem ofByteLines_encode (lines : List String) :
    ofByteLines (lines.map (encode ·.toList)) = ⟨lines, false⟩ := by
  induction lines with
  | nil => rfl
  | cons line lines ih => simp only [List.map_cons, ofByteLines, decode_encode, ih]

/-- What is read of an encoded text is its lines, all of which are text. -/
theorem ofBytes_toUTF8 (text : String) : ofBytes text.toUTF8 = ofText text := by
  have hlines : Text.Lines text.toList (linesFrom [] text.toList) := lines_iff.2 rfl
  rw [ofBytes, toList_toUTF8, byteLines_encode hlines, ofByteLines_encode, ofText]

end Entered

/-! ## Running lines -/

/-- A run of the command does not depend on the output there was. -/
theorem Machine.run_congr (m : Machine) {s e : Session}
    (h : ({ e with output := "" } : Session) = { s with output := "" }) (line : String) :
    m.run line e = m.run line s := by
  rw [Machine.run, Machine.run, h]

/-- A run of the command does what the same run does in a session that keeps its output. -/
theorem Machine.run_eq (m : Machine) {s t : Session} {line written : String}
    {failure? : Option Failure} (hsink : s.sink = .unlimited)
    (hrun : s.runSource m.arithmetic m.bound line = (failure?.elim (.ok ()) .error, t))
    (houtput : t.output = s.output ++ written) :
    m.run line s = (written, failure?, { t with output := written }) := by
  rcases h : Session.runSource m.arithmetic m.bound line { s with output := "" } with ⟨r, u⟩
  have hchanges : Session.Changes { s with output := "" } u := by
    have hchanges := Session.changes_runSource (A := m.arithmetic) { s with output := "" } m.bound line
    rwa [h] at hchanges
  have hkept : ({ s with output := "" } : Session).behind s.output = s := by
    simp [Session.behind, ← hsink]
  -- nothing is refused, so the output there was makes no difference
  have hsame := Session.runSource_behind_unlimited (s := { s with output := "" }) hsink m.arithmetic
    s.output m.bound line
  rw [hkept, hrun, h] at hsame
  obtain ⟨rfl, rfl⟩ := Prod.mk.inj hsame
  have hwritten : u.output = written := (Output.append_right_inj s.output).1 houtput
  have hsinks : u.sink = s.sink := hchanges.sink
  have hleft : ({ u.behind s.output with output := written } : Session) = u := by
    simp [Session.behind, ← hsink, ← hsinks, ← hwritten]
  rw [hleft, Machine.run, h]
  cases failure? <;> simp [hwritten]

namespace Prompt

/-- What is shown at the prompt: an invitation and the output of each line, and behind the last line an
invitation and a line feed. -/
def shown (replies : List (String × Option Failure)) : String :=
  String.join (replies.map fun reply => invitation ++ reply.1) ++ invitation ++ "\n"

/-- The complaints about the lines that failed. -/
def complaints (replies : List (String × Option Failure)) : String :=
  String.join (replies.filterMap fun reply => reply.2.map (complaint ·.text))

/-- At the prompt, every line is run once, in the session that the line before it left, whatever went
wrong there. -/
theorem runLines_of_talks (m : Machine) {s t : Session} {lines : List String}
    {replies : List (String × Option Failure)} (h : s.Talks m.arithmetic lines replies t)
    (hsink : s.sink = .unlimited) :
    ∃ enough, ∀ bound, enough ≤ bound → ∀ e : Session,
      ({ e with output := "" } : Session) = { s with output := "" } →
      runLines { m with bound := bound } false lines e =
        ⟨Exit.success, shown replies, complaints replies⟩ := by
  induction h with
  | nil s =>
    -- the last invitation is shown where no line follows
    exact ⟨0, fun bound _ e _ => by simp [runLines, shown, complaints]⟩
  | @cons s t u line written failure? lines replies hends houtput hrest ih =>
    obtain ⟨enough, hrun⟩ := hends.eventually
    obtain ⟨enough', hothers⟩ := ih (hends.changes.sink.trans hsink)
    refine ⟨max enough enough', fun bound hbound e he => ?_⟩
    -- the line leaves the session that the next line begins in, but for the output
    have hline := Machine.run_eq { m with bound := bound } hsink
      (hrun bound ((Nat.le_max_left _ _).trans hbound)) houtput
    have hbehind := hothers bound ((Nat.le_max_right _ _).trans hbound) { t with output := written } rfl
    rw [runLines, answer, Machine.run_congr _ he, hline]
    dsimp only
    rw [hbehind]
    cases failure? <;>
      simp [shown, complaints, String.append_assoc]

end Prompt

/-- A file with the same text is run as one script. If none of its lines fails, neither does the whole. -/
theorem runScript_of_talks (m : Machine) {text : String} {lines : List String}
    {replies : List (String × Option Failure)} {t : Session} (hlines : Text.Lines text.toList lines)
    (htalks : m.session.Talks m.arithmetic lines replies t)
    (hwell : ∀ reply ∈ replies, reply.2 = none) :
    ∃ enough, ∀ bound, enough ≤ bound → ∀ path,
      runScript { m with bound := bound } path (.ok text.toUTF8) =
        ⟨Exit.success, String.join (replies.map (·.1)), ""⟩ := by
  have hnatives : ∀ native ∈ m.session.natives, native.Respects .anyLine :=
    (Session.start_like_self (fun _ => rfl) (fun _ => trivial) m.clock .unlimited).respects
  obtain ⟨u, hends, houtput⟩ := htalks.whole hlines hwell hnatives
  rw [String.ofList_toList] at hends
  obtain ⟨enough, hrun⟩ := hends.eventually
  refine ⟨enough, fun bound hbound path => ?_⟩
  -- the whole text does not fail, which is what a run of the command shows
  have hends : m.session.runSource m.arithmetic bound text =
      ((none : Option Failure).elim (.ok ()) .error, u) := hrun bound hbound
  have hwhole := Machine.run_eq { m with bound := bound } rfl hends houtput
  have hread : (Except.ok text.toUTF8 >>= decode) = .ok text := decode_toUTF8 text
  rw [runScript, hread]
  dsimp only
  rw [show Machine.session { m with bound := bound } = m.session from rfl, hwhole]

/-- Take a text, its lines, and a session in which the lines are run as scripts one after the other, each
to its end. At the prompt the bytes of the text get the same answers: standard output has each line's output
behind an invitation, standard error has what is said about the lines that failed, and the exit code is 0.

If no line fails, a file with these bytes is run with exit code 0 as well, without a complaint, and with the
same output but for the invitations and the final line feed. -/
theorem prompt_agrees_with_file (m : Machine) {text : String} {lines : List String}
    {replies : List (String × Option Failure)} {t : Session} (hlines : Text.Lines text.toList lines)
    (htalks : m.session.Talks m.arithmetic lines replies t) :
    ∃ enough, ∀ bound, enough ≤ bound →
      Prompt.run { m with bound := bound } (Entered.ofBytes text.toUTF8) =
          ⟨0, Prompt.shown replies, Prompt.complaints replies⟩ ∧
        ((∀ reply ∈ replies, reply.2 = none) → ∀ path,
          runScript { m with bound := bound } path (.ok text.toUTF8) =
            ⟨0, String.join (replies.map (·.1)), ""⟩) := by
  obtain ⟨enough, hprompt⟩ := Prompt.runLines_of_talks m htalks rfl
  have hsession (bound : Nat) (hbound : enough ≤ bound) :
      Prompt.run { m with bound := bound } (Entered.ofBytes text.toUTF8) =
        ⟨0, Prompt.shown replies, Prompt.complaints replies⟩ := by
    rw [Prompt.run, Entered.ofBytes_toUTF8, Entered.ofText, lines_iff.1 hlines]
    exact hprompt bound hbound m.session rfl
  by_cases hwell : ∀ reply ∈ replies, reply.2 = none
  -- one bound is enough for both runs
  · obtain ⟨enough', hfile⟩ := runScript_of_talks m hlines htalks hwell
    refine ⟨max enough enough', fun bound hbound => ⟨?_, fun _ => ?_⟩⟩
    · exact hsession bound ((Nat.le_max_left _ _).trans hbound)
    · exact hfile bound ((Nat.le_max_right _ _).trans hbound)
  · exact ⟨enough, fun bound hbound => ⟨hsession bound hbound, fun h => absurd h hwell⟩⟩

/-- A function that is declared on a line with a comment, an empty line, and a call on a line without a
line feed. -/
theorem prompt_agrees_with_file_function :
    let m : Machine := ⟨.binary64, .stopped ⟨0⟩, 0⟩
    let text := "fun f() \x7b print nil; \x7d // f\n\nf();"
    let lines := ["fun f() \x7b print nil; \x7d // f\n", "\n", "f();"]
    let replies : List (String × Option Failure) := [("", none), ("", none), ("nil\n", none)]
    Text.Lines text.toList lines ∧ (∃ t, m.session.Talks m.arithmetic lines replies t) ∧
      ∃ enough, ∀ bound, enough ≤ bound →
        Prompt.run { m with bound := bound } (Entered.ofBytes text.toUTF8) =
          ⟨0, "> > > nil\n> \n", ""⟩ ∧
        runScript { m with bound := bound } "f" (.ok text.toUTF8) = ⟨0, "nil\n", ""⟩ := by
  intro m text lines replies
  have hlines : Text.Lines text.toList lines := lines_iff.2 (by decide +kernel)
  have hscan : Scan.ofSource .binary64 "fun f() \x7b print nil; \x7d // f\n" =
      ⟨[⟨.keyword .fun, "fun", 1⟩, ⟨.identifier, "f", 1⟩, ⟨.leftParen, "(", 1⟩,
        ⟨.rightParen, ")", 1⟩, ⟨.leftBrace, "\x7b", 1⟩, ⟨.keyword .print, "print", 1⟩,
        ⟨.keyword .nil, "nil", 1⟩, ⟨.semicolon, ";", 1⟩, ⟨.rightBrace, "\x7d", 1⟩, Token.ending 2],
        []⟩ := by decide +kernel
  have hscan' : Scan.ofSource .binary64 "\n" = ⟨[Token.ending 2], []⟩ := by decide +kernel
  have hscan'' : Scan.ofSource .binary64 "f();" =
      ⟨[⟨.identifier, "f", 1⟩, ⟨.leftParen, "(", 1⟩, ⟨.rightParen, ")", 1⟩, ⟨.semicolon, ";", 1⟩,
        Token.ending 1], []⟩ := by decide +kernel
  let declaration : Program := [.function ⟨.identifier, "f", 1⟩ [] [.print (.literal .nil)]]
  let call : Program :=
    [.expression (.call (.variable ⟨.identifier, "f", 1⟩) ⟨.rightParen, ")", 1⟩ [])]
  have hdeclaration : Program.ofSource .binary64 "fun f() \x7b print nil; \x7d // f\n" =
      .ok declaration := by
    rw [Program.ofSource, hscan]
    rfl
  have hempty : Program.ofSource .binary64 "\n" = .ok [] := by
    rw [Program.ofSource, hscan']
    rfl
  have hcall : Program.ofSource .binary64 "f();" = .ok call := by
    rw [Program.ofSource, hscan'']
    rfl
  let s := (m.session.run (Eval.executeEach .binary64 9 declaration)).2
  let t := (s.run (Eval.executeEach .binary64 9 [])).2
  let u := (t.run (Eval.executeEach .binary64 9 call)).2
  have hs := Session.Ends.of_isOk hdeclaration 9 (s := m.session) (by decide +kernel)
  have ht := Session.Ends.of_isOk hempty 9 (s := s) (by decide +kernel)
  have hu := Session.Ends.of_isOk hcall 9 (s := t) (by decide +kernel)
  have houtputs : s.output = "" ∧ t.output = "" ∧ u.output = "nil\n" := by decide +kernel
  obtain ⟨hs', ht', hu'⟩ := houtputs
  have htalks : m.session.Talks .binary64 lines replies u :=
    .cons (t := s) hs (hs'.trans rfl)
      (.cons (t := t) ht (ht'.trans (by rw [hs']; rfl))
        (.cons (t := u) hu (hu'.trans (by rw [ht']; rfl)) (.nil _)))
  obtain ⟨enough, h⟩ := prompt_agrees_with_file m hlines htalks
  refine ⟨hlines, ⟨u, htalks⟩, enough, fun bound hbound => ?_⟩
  obtain ⟨hprompt, hfile⟩ := h bound hbound
  have hshown : Prompt.shown replies = "> > > nil\n> \n" := by decide +kernel
  have hcomplaints : Prompt.complaints replies = "" := by decide +kernel
  have hfailed : ∀ reply ∈ replies, reply.2 = none := by simp [replies]
  refine ⟨?_, hfile hfailed "f"⟩
  rw [hprompt, hshown, hcomplaints]

end LoxScript.CommandLine
