import LoxScript.Text.Cursor
import LoxScript.Text.Line
import Mathlib.Data.List.TakeWhile

/-!
# Where a cursor stands

A cursor does not hold what is behind it. It holds the text, what is ahead, and a line that is counted on
the way. That the three belong to one place is an invariant of all that is done with a cursor, also when
copies of it are kept and gone back to.

The place is known by the characters behind it. From these follow what the cursor sees, where it moves to, and
its byte offset, which is a sum over characters of one to four bytes. Two cursors on one text stand behind
beginnings of the same text, so that one begins with the other, and what it has more is cut out between them.

## Main definitions

* `Cursor.Stands`: a cursor at a place in a text.
* `Longest`: the longest beginning of a text that consists of accepted characters.
* `Cursor.Reads`: a cursor that sees and does what it should at its place.
* `Cursor.Spans`: what is cut out between two cursors.
* `Trail`: a cursor and the copies kept of it, with all that can be done.

## Main statements

* `Cursor.Stands.reads`, `Cursor.Stands.spans`: what follows from the place.
* `Trail.perform_stands`: one thing done leaves all cursors at places in the text.
* `Trail.run_reads`: so does a whole run, from the beginning of any text on.
-/

namespace LoxScript.Text

/-- The longest beginning of `text` that consists of accepted characters. -/
structure Longest (accepts : Char → Bool) (text run : List Char) : Prop where
  isPrefix : run <+: text
  accepted : ∀ c ∈ run, accepts c
  greatest : ∀ other, other <+: text → (∀ c ∈ other, accepts c) → other <+: run

theorem longest_takeWhile (accepts : Char → Bool) (text : List Char) :
    Longest accepts text (text.takeWhile accepts) where
  isPrefix := List.takeWhile_prefix accepts
  accepted _ hc := List.mem_takeWhile_imp hc
  greatest other hother haccepted := by
    obtain ⟨after, rfl⟩ := hother
    rw [List.takeWhile_append_of_pos haccepted]
    exact List.prefix_append _ _

namespace Cursor

/-- The cursor stands in the text `source` behind the characters `before`. -/
structure Stands (source : String) (before : List Char) (c : Cursor) : Prop where
  source_eq : c.source = source
  text : source.toList = before ++ c.rest
  line : c.line = 1 + newlines before

/-- Behind the characters `before` of `source` the cursor sees what the text goes on with, and moves on over
just that. -/
structure Reads (source : String) (before : List Char) (c : Cursor) : Prop where
  stands : c.Stands source before
  peek : c.peek? = source.toList[before.length]?
  peekSecond : c.peekSecond? = source.toList[before.length + 1]?
  /-- The character passed is the next one, and at the end there is none. -/
  next : c.next?.map (·.1) = c.peek? ∧
    ∀ char d, c.next? = some (char, d) → d.Stands source (before ++ [char])
  nextIf : ∀ expected, ((c.nextIf? expected).isSome ↔ c.peek? = some expected) ∧
    ∀ d, c.nextIf? expected = some d → d.Stands source (before ++ [expected])
  advanceWhile : ∀ accepts, ∃ run, Longest accepts c.rest run ∧
    (c.advanceWhile accepts).Stands source (before ++ run)

/-- From `mark` to `c` the characters `between` are cut out of `source`. Both offsets are on boundaries of
characters in it. -/
structure Spans (source : String) (between : List Char) (mark c : Cursor) : Prop where
  slice : mark.slice? c = some (String.ofList between)
  first : mark.offset.IsValid source
  last : c.offset.IsValid source
  inOrder : mark.offset ≤ c.offset

variable {source : String} {before : List Char} {c mark : Cursor}

theorem stands_ofString (source : String) : (ofString source).Stands source [] :=
  ⟨rfl, rfl, rfl⟩

/-- The place after one more character. -/
theorem Stands.step (h : c.Stands source before) {char : Char} {rest : List Char}
    (hrest : c.rest = char :: rest) : (c.step char rest).Stands source (before ++ [char]) where
  source_eq := h.source_eq
  text := by
    show source.toList = before ++ [char] ++ rest
    rw [h.text, hrest, List.append_cons]
  line := by
    show (if char = '\n' then c.line + 1 else c.line) = _
    rw [h.line, newlines_append, newlines_cons, newlines_nil]
    split <;> omega

/-- The place after all characters that are accepted in a row. -/
theorem Stands.advanceWhile (h : c.Stands source before) (accepts : Char → Bool) :
    (c.advanceWhile accepts).Stands source (before ++ c.rest.takeWhile accepts) := by
  unfold Cursor.advanceWhile
  -- what is passed over are the characters ahead, and each step leaves fewer of them
  induction hrest : c.rest generalizing c before with
  | nil =>
    rw [List.takeWhile_nil, List.append_nil]
    exact ⟨h.source_eq, by rw [h.text, hrest]; rfl, h.line⟩
  | cons char rest ih =>
    unfold walk
    by_cases haccepts : accepts char
    · rw [if_pos haccepts, List.takeWhile_cons_of_pos haccepts, List.append_cons]
      exact ih (h.step hrest) rfl
    · rw [if_neg haccepts, List.takeWhile_cons_of_neg haccepts, List.append_nil]
      exact ⟨h.source_eq, by rw [h.text, hrest], h.line⟩

/-- The character ahead at a distance is found in the text. -/
theorem Stands.getElem?_rest (h : c.Stands source before) (i : Nat) :
    c.rest[i]? = source.toList[before.length + i]? := by
  rw [h.text, List.getElem?_append_right (Nat.le_add_right _ _), Nat.add_sub_cancel_left]

theorem Stands.next (h : c.Stands source before) {char : Char} {d : Cursor}
    (hnext : c.next? = some (char, d)) : d.Stands source (before ++ [char]) := by
  unfold next? at hnext
  cases hrest : c.rest with
  | nil => simp [hrest] at hnext
  | cons char' rest =>
    simp only [hrest, Option.some_inj, Prod.mk.injEq] at hnext
    obtain ⟨rfl, rfl⟩ := hnext
    exact h.step hrest

theorem Stands.nextIf (h : c.Stands source before) {expected : Char} {d : Cursor}
    (hnext : c.nextIf? expected = some d) : d.Stands source (before ++ [expected]) := by
  unfold nextIf? at hnext
  cases hrest : c.rest with
  | nil => simp [hrest] at hnext
  | cons char rest =>
    by_cases hchar : char = expected
    · subst hchar
      simp only [hrest, if_true, Option.some_inj] at hnext
      subst hnext
      exact h.step hrest
    · simp [hrest, hchar] at hnext

/-- The character passed is the one seen before. -/
theorem next?_map_fst (c : Cursor) : c.next?.map (·.1) = c.peek? := by
  unfold next? peek?
  cases c.rest <;> rfl

theorem isSome_nextIf?_iff (c : Cursor) (expected : Char) :
    (c.nextIf? expected).isSome ↔ c.peek? = some expected := by
  unfold nextIf? peek?
  cases c.rest with
  | nil => simp
  | cons char rest => by_cases h : char = expected <;> simp [h]

theorem Stands.reads (h : c.Stands source before) : c.Reads source before where
  stands := h
  peek := h.getElem?_rest 0
  peekSecond := h.getElem?_rest 1
  next := ⟨next?_map_fst c, fun _ _ => h.next⟩
  nextIf expected := ⟨isSome_nextIf?_iff c expected, fun _ => h.nextIf⟩
  advanceWhile accepts := ⟨_, longest_takeWhile accepts c.rest, h.advanceWhile accepts⟩

/-- The text is what is behind a cursor and what is ahead of it. -/
theorem Stands.append_remaining (h : c.Stands source before) :
    String.ofList before ++ c.remaining = source := by
  rw [remaining, ← String.ofList_append, ← h.text, String.ofList_toList]

/-- The offset of a cursor is the length of what is behind it. -/
theorem Stands.offset (h : c.Stands source before) : c.offset = (String.ofList before).rawEndPos :=
  offset_eq (h.source_eq.trans h.append_remaining.symm)

theorem Stands.isValid_offset (h : c.Stands source before) : c.offset.IsValid source := by
  rw [h.offset, ← h.append_remaining]
  exact isValid_rawEndPos_append _ _

/-- Of two cursors the one with no fewer characters ahead has a beginning of what the other has behind it. -/
theorem Stands.exists_between {after : List Char} (hmark : mark.Stands source before)
    (h : c.Stands source after) (hle : c.rest.length ≤ mark.rest.length) :
    ∃ between, after = before ++ between := by
  have hlengths := congrArg List.length (hmark.text.symm.trans h.text)
  rw [List.length_append, List.length_append] at hlengths
  -- both are beginnings of one text, so the shorter begins the longer
  have hprefix : before <+: after :=
    List.prefix_of_prefix_length_le ⟨mark.rest, hmark.text.symm⟩ ⟨c.rest, h.text.symm⟩ (by omega)
  exact hprefix.imp fun _ => Eq.symm

theorem Stands.spans {between : List Char} (hmark : mark.Stands source before)
    (h : c.Stands source (before ++ between)) : mark.Spans source between c where
  slice := by
    -- the text in three parts, of which the middle one is cut out
    have hsource : source = String.ofList before ++ String.ofList between ++ c.remaining := by
      rw [← String.ofList_append, h.append_remaining]
    unfold slice?
    rw [if_pos (hmark.source_eq.trans h.source_eq.symm), hmark.source_eq, hmark.offset, h.offset,
      String.ofList_append, hsource]
    exact cut?_append _ _ _
  first := hmark.isValid_offset
  last := h.isValid_offset
  inOrder := by
    rw [hmark.offset, h.offset, String.ofList_append, String.Pos.Raw.le_iff, String.byteIdx_rawEndPos,
      String.byteIdx_rawEndPos, String.utf8ByteSize_append]
    exact Nat.le_add_right _ _

end Cursor

/-- What a reader of a text does with a cursor. -/
inductive Trail.Move where
  | next
  | peek
  | peekSecond
  | nextIf (expected : Char)
  | advanceWhile (accepts : Char → Bool)
  /-- Keeps a copy of the cursor. -/
  | keep
  /-- Goes back to the copy that was kept after so many others. -/
  | goBack (index : Nat)

/-- A cursor and the copies kept of it, the oldest first. -/
structure Trail where
  /-- The cursor. -/
  cursor : Cursor
  /-- The copies. -/
  copies : List Cursor

namespace Trail

open Cursor

/-- The beginning of a text, without copies. -/
def start (source : String) : Trail := ⟨Cursor.ofString source, []⟩

/-- The cursor and all copies. -/
def cursors (t : Trail) : List Cursor := t.cursor :: t.copies

/-- What is there after one thing was done. -/
def perform (t : Trail) : Move → Trail
  | .next => { t with cursor := t.cursor.next?.elim t.cursor (·.2) }
  -- looking ahead changes nothing
  | .peek | .peekSecond => t
  | .nextIf expected => { t with cursor := (t.cursor.nextIf? expected).getD t.cursor }
  | .advanceWhile accepts => { t with cursor := t.cursor.advanceWhile accepts }
  | .keep => { t with copies := t.copies ++ [t.cursor] }
  | .goBack index => { t with cursor := (t.copies[index]?).getD t.cursor }

/-- What is there after one thing was done after the other. -/
def run (t : Trail) (moves : List Move) : Trail := moves.foldl perform t

/-- The cursor and all copies stand at places in the text. -/
def Stands (source : String) (t : Trail) : Prop :=
  ∀ c ∈ t.cursors, ∃ before, c.Stands source before

variable {source : String} {t : Trail}

theorem stands_start (source : String) : (start source).Stands source :=
  List.forall_mem_singleton.2 ⟨[], stands_ofString source⟩

/-- The cursor may be moved to another place in the text. -/
theorem Stands.moved (h : t.Stands source) {c : Cursor} (hc : ∃ before, c.Stands source before) :
    Stands source { t with cursor := c } :=
  List.forall_mem_cons.2 ⟨hc, (List.forall_mem_cons.1 h).2⟩

/-- Whatever is done, the cursor and all copies stand at places in the text afterwards. -/
theorem perform_stands (h : t.Stands source) (move : Move) : (t.perform move).Stands source := by
  obtain ⟨hcursor, hcopies⟩ := List.forall_mem_cons.1 h
  obtain ⟨before, hbefore⟩ := hcursor
  -- copies are only added, and a cursor only moves on or goes back to one of them
  cases move with
  | next =>
    apply h.moved
    cases hnext : t.cursor.next? with
    | none => exact ⟨before, hbefore⟩
    | some found => exact ⟨_, hbefore.next hnext⟩
  | peek => exact h
  | peekSecond => exact h
  | nextIf expected =>
    apply h.moved
    cases hnext : t.cursor.nextIf? expected with
    | none => exact ⟨before, hbefore⟩
    | some found => exact ⟨_, hbefore.nextIf hnext⟩
  | advanceWhile accepts =>
    apply h.moved
    exact ⟨_, hbefore.advanceWhile accepts⟩
  | keep =>
    refine List.forall_mem_cons.2 ⟨⟨before, hbefore⟩, ?_⟩
    exact List.forall_mem_append.2 ⟨hcopies, List.forall_mem_singleton.2 ⟨before, hbefore⟩⟩
  | goBack index =>
    apply h.moved
    cases hcopy : t.copies[index]? with
    | none => exact ⟨before, hbefore⟩
    | some copy => exact hcopies copy (List.mem_of_getElem? hcopy)

theorem run_stands (h : t.Stands source) (moves : List Move) : (t.run moves).Stands source := by
  induction moves generalizing t with
  | nil => exact h
  | cons move moves ih => exact ih (perform_stands h move)

/-- Whatever is done with a cursor from the beginning of a text on, it and all copies kept of it stand at
places in the text: behind the characters that were passed, on the line that these reach. There they see and do
what they should. Of any two, where the first is not behind the second, the text between them is cut out. -/
theorem run_reads (source : String) (moves : List Move) :
    let t := (start source).run moves
    (∀ c ∈ t.cursors, ∃ before, c.Reads source before) ∧
      ∀ mark ∈ t.cursors, ∀ c ∈ t.cursors, c.rest.length ≤ mark.rest.length →
        ∃ before between, mark.Stands source before ∧ c.Stands source (before ++ between) ∧
          mark.Spans source between c := by
  intro t
  have hall : t.Stands source := run_stands (stands_start source) moves
  refine ⟨fun c hc => (hall c hc).imp fun _ => Cursor.Stands.reads, ?_⟩
  intro mark hmark c hc hle
  obtain ⟨before, hbefore⟩ := hall mark hmark
  obtain ⟨after, hafter⟩ := hall c hc
  obtain ⟨between, rfl⟩ := hbefore.exists_between hafter hle
  exact ⟨before, between, hbefore, hafter, hbefore.spans hafter⟩

/-- Characters of two and of four bytes, and a line feed, are passed between a copy and the cursor, which has
been elsewhere in the meantime. -/
theorem run_reads_wide :
    let source := "aé𝒫\nb"
    let t := (start source).run
      [.next, .keep, .advanceWhile (· != 'b'), .keep, .next, .goBack 0, .nextIf 'é', .goBack 1]
    let mark : Cursor := ⟨source, ['é', '𝒫', '\n', 'b'], 1⟩
    let c : Cursor := ⟨source, ['b'], 2⟩
    mark ∈ t.cursors ∧ c ∈ t.cursors ∧ c.rest.length ≤ mark.rest.length ∧
      (∃ before, c.Reads source before) ∧
      (∃ before between, mark.Stands source before ∧ c.Stands source (before ++ between) ∧
        mark.Spans source between c) ∧
      mark.slice? c = some "é𝒫\n" := by
  intro source t mark c
  have hmark : mark ∈ t.cursors := by decide
  have hc : c ∈ t.cursors := by decide
  have hle : c.rest.length ≤ mark.rest.length := by decide
  exact ⟨hmark, hc, hle, (run_reads source _).1 c hc, (run_reads source _).2 mark hmark c hc hle, by decide⟩

end Trail

end LoxScript.Text
