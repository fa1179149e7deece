import LoxScript.Proofs.Evaluation.Lines
import LoxScript.Proofs.Evaluation.Output
import LoxScript.Proofs.Token.LongestMatch

/-!
# Scripts line by line

A text can be run as one script, or line by line, each line as a script of its own in the session that the
one before it left. Line by line a failure ends no more than its line, and a statement that goes on on the
next line is no program. Where every line is a program and none fails, both ways to run the text print the
same.

The line feed belongs to the line that it ends. So no line is empty, and only the last one may be without
a line feed. A string that is open at the end of a line would take the line feed, which is how the pieces
of a line that is a program are pieces of the whole text.

## Main definitions

* `Text.Lines`: the lines of a text.
* `Session.Talks`: scripts run one after the other, with what each of them printed.

## Main statements

* `Program.ofSource_line`: the program of a line and the text behind it.
* `Session.Talks.whole`: the whole text prints what the lines print.
-/

namespace LoxScript

/-- The lines of a text, each with its line feed, which the last one may lack. -/
inductive Text.Lines : List Char → List String → Prop where
  | none : Lines [] []
  | last {line : List Char} (hne : line ≠ []) (hline : '\n' ∉ line) :
      Lines line [String.ofList line]
  | more {line rest : List Char} {lines : List String} (hline : '\n' ∉ line) (hrest : Lines rest lines) :
      Lines (line ++ '\n' :: rest) (String.ofList (line ++ ['\n']) :: lines)

/-- Joined again, the lines are the text. -/
theorem Text.Lines.flatMap_toList {text : List Char} {lines : List String} (h : Text.Lines text lines) :
    lines.flatMap String.toList = text := by
  induction h with
  | none => rfl
  | last _ _ => simp
  | more _ _ ih => simp [ih]

/-! ## Tokens and trees -/

namespace Piece

variable {A : Arithmetic} {a : List Char}

/-- A string that is open at the end of a text takes a line feed behind it as well. -/
theorem Closed.of_line (h : Closed (split A (a ++ ['\n']))) : Closed (split A a) := by
  induction hn : a.length using Nat.strongRecOn generalizing a with
  | ind n ih =>
    cases a with
    | nil => exact List.forall_mem_nil _
    | cons c rest =>
      rw [List.cons_append, split_cons] at h
      obtain ⟨hfirst, hrest⟩ := List.forall_mem_cons.1 h
      -- were the first piece open, it would be open with the line feed, too
      have hclosed : ∀ text, (first A c rest).1 ≠ .unterminated text := by
        intro text hopen
        rcases first_cases A c rest with hrecognized | hunexpected | ⟨rfl, hquote⟩
        · rw [hopen] at hrecognized
          cases hrecognized
        · rw [hunexpected] at hopen
          cases hopen
        · have hline : '"' ∉ rest ++ ['\n'] := by simpa using hquote
          exact hfirst _ (congrArg Prod.fst (first_open hline))
      rw [first_append hclosed] at hrest
      have hlength := length_first A c rest
      rw [List.length_cons] at hn
      rw [split_cons]
      exact List.forall_mem_cons.2 ⟨hclosed, ih _ (by omega) hrest rfl⟩

/-- The pieces of a line and the text behind it. -/
theorem split_line (h : Closed (split A (a ++ ['\n']))) (b : List Char) :
    split A (a ++ '\n' :: b) = split A (a ++ ['\n']) ++ split A b := by
  rw [split_append h.of_line, split_append h.of_line, split_nil, List.append_assoc]
  rfl

end Piece

variable {A : Arithmetic}

/-- The tokens of a line that is a program, and of the text behind it. -/
theorem Scan.ofSource_line {line : String} {a : List Char} (hline : line.toList = a ++ ['\n'])
    (h : (Scan.ofSource A line).errors = []) (b : String) :
    Scan.ofSource A (line ++ b) =
      (Scan.ofSource A line).followedBy ((Scan.ofSource A b).shift (Text.newlines line.toList)) := by
  have herrors : ∀ e ∈ (ofPieces 1 (Piece.split A line.toList)).errors,
      e.problem ≠ .unterminatedString := by
    intro e he
    rw [show (ofPieces 1 (Piece.split A line.toList)).errors = [] from h] at he
    cases he
  have hclosed := closed_of_errors herrors
  have htext : (line ++ b).toList = a ++ '\n' :: b.toList := by simp [hline]
  rw [Scan.ofSource, Scan.ofSource, Scan.ofSource, htext, Piece.split_line (hline ▸ hclosed),
    ← hline, ofPieces_append, Piece.text_split, ← ofPieces_add]

/-- A line that is a program, in front of a text that is one, is the beginning of a program. What follows
it only stands further down. -/
theorem Program.ofSource_line {line b : String} {a : List Char} {p q : Program}
    (hline : line.toList = a ++ ['\n']) (hp : Program.ofSource A line = .ok p)
    (hq : Program.ofSource A b = .ok q) :
    ∃ q', Program.ofSource A (line ++ b) = .ok (p ++ q') ∧
      List.Forall₂ (Stmt.Like .anyLine) q q' := by
  have hwhole := Scan.ofSource_line hline (Program.ofSource_eq_ok_iff.1 hp).1 b
  exact Program.ofSource_of_followedBy (Likeness.anyLine_lawful A) hwhole hp hq fun _ _ => ⟨rfl, rfl⟩

/-! ## Running lines -/

namespace Session

/-- The scripts run one after the other, each in the session that the one before it left, however that one
ended. A reply is what the script printed, and its failure if it failed. -/
inductive Talks (A : Arithmetic) :
    Session → List String → List (String × Option Failure) → Session → Prop where
  | nil (s : Session) : Talks A s [] [] s
  | cons {s t u : Session} {source written : String} {failure? : Option Failure}
      {sources : List String} {replies : List (String × Option Failure)}
      (h : s.Ends A source (failure?.elim (.ok ()) .error) t) (houtput : t.output = s.output ++ written)
      (hrest : Talks A t sources replies u) :
      Talks A s (source :: sources) ((written, failure?) :: replies) u

/-- A script that ends well is a program. -/
theorem Ends.exists_program {s t : Session} {source : String} (h : s.Ends A source (.ok ()) t) :
    ∃ p, Program.ofSource A source = .ok p := by
  obtain ⟨bound, hrun, -⟩ := h
  unfold runSource at hrun
  cases hp : Program.ofSource A source with
  | ok p => exact ⟨p, rfl⟩
  | error reason => simp [hp] at hrun

theorem ends_empty (s : Session) : s.Ends A "" (.ok ()) s := by
  have hread : Program.ofSource A "" = .ok [] := rfl
  refine ⟨1, ?_, by simp⟩
  rw [runSource, hread]
  rfl

variable {s t : Session} {text : List Char} {lines : List String}
  {replies : List (String × Option Failure)}

/-- Where nothing is refused, there is a reply to every script that ends. -/
theorem Ends.exists_talks {source : String} {r : Except Failure Unit} {u : Session}
    (h : s.Ends A source r t) (hsink : s.sink = .unlimited) (hrest : t.Talks A lines replies u) :
    ∃ reply, s.Talks A (source :: lines) (reply :: replies) u := by
  obtain ⟨written, houtput⟩ := h.changes.exists_text hsink
  cases r with
  | ok _ => exact ⟨(written, none), .cons h houtput hrest⟩
  | error failure => exact ⟨(written, some failure), .cons h houtput hrest⟩

/-- If no line fails, the whole text does not fail either, and prints what the lines print. -/
theorem Talks.whole (h : s.Talks A lines replies t) (hlines : Text.Lines text lines)
    (hwell : ∀ reply ∈ replies, reply.2 = none)
    (hnatives : ∀ native ∈ s.natives, native.Respects .anyLine) :
    ∃ u, s.Ends A (String.ofList text) (.ok ()) u ∧
      u.output = s.output ++ String.join (replies.map (·.1)) := by
  induction hlines generalizing s replies with
  | none =>
    cases h
    exact ⟨t, t.ends_empty, by simp⟩
  | last _ _ =>
    cases h with
    | @cons _ _ _ _ written failure? _ _ hends houtput hrest =>
      cases hrest
      obtain rfl : failure? = none := hwell _ (List.mem_cons_self ..)
      exact ⟨t, hends, by simp [houtput]⟩
  | @more line rest lines _ _ ih =>
    cases h with
    | @cons _ t _ _ written failure? _ replies hends houtput hrest =>
      obtain ⟨hfirst, hothers⟩ := List.forall_mem_cons.1 hwell
      obtain rfl : failure? = none := hfirst
      -- the rest of the text runs in what the first line left, where it is a program of its own
      obtain ⟨u, hbehind, houtputs⟩ := ih hrest hothers (by rwa [hends.changes.natives])
      obtain ⟨p, hp⟩ := hends.exists_program
      obtain ⟨q, hq⟩ := hbehind.exists_program
      obtain ⟨q', hwhole, hlikes⟩ := Program.ofSource_line (String.toList_ofList ..) hp hq
      have hlike : Session.Like .anyLine t t :=
        Likeness.anyLine_reflexive.session (fun _ => trivial) (by rwa [hends.changes.natives])
      obtain ⟨r', u', hends', hend, hsession⟩ :=
        hends.join_of_ok hp hwhole hq (Likeness.anyLine_lawful A) hlikes hlike hbehind
      cases hend
      have htext : String.ofList (line ++ ['\n']) ++ String.ofList rest =
          String.ofList (line ++ '\n' :: rest) := by simp [← String.toList_inj]
      rw [htext] at hends'
      refine ⟨u', hends', ?_⟩
      rw [hsession.output, houtputs, houtput, List.map_cons, String.join_cons, Output.append_assoc,
        Output.ofString_append]

end Session

end LoxScript
