/-!
# Cursors

A cursor stands between two characters of a text and knows its line. It can look at the next two
characters, pass over characters, and be kept to come back to or to cut out the text passed since.

A cursor holds the whole text and the characters ahead. Where it stands follows from these: behind it
are all bytes of the encoded text but those of the characters ahead. Texts are cut at such byte
offsets, which is possible only between characters.

## Main definitions

* `cut?`: the part of a text between two byte offsets.
* `Cursor`: a text, the characters ahead, and the line.
* `Cursor.next?`, `Cursor.nextIf?`, `Cursor.advanceWhile`: moving forward.
* `Cursor.slice?`: the text between two cursors on one source.

## Main statements

* `cut?_append`: what lies between the ends of two beginnings of a text.
* `Cursor.offset_eq`: the offset of a cursor is the length of the text behind it.
-/

namespace LoxScript.Text

/-- The part of a text from one byte offset to another. There is none unless both are on the boundary
of a character in the text, and the first is not behind the last. -/
def cut? (text : String) (first last : String.Pos.Raw) : Option String :=
  if h : (first.IsValid text ∧ last.IsValid text) ∧ first ≤ last then
    some (text.extract (text.pos first h.1.1) (text.pos last h.1.2))
  else none

/-- A beginning of a text ends on the boundary of a character. -/
theorem isValid_rawEndPos_append (before after : String) :
    before.rawEndPos.IsValid (before ++ after) :=
  String.Pos.Raw.isValid_iff_exists_append.2 ⟨before, after, rfl, rfl⟩

/-- Between the ends of two beginnings of a text lies what the longer one has more. -/
theorem cut?_append (before between after : String) :
    cut? (before ++ between ++ after) before.rawEndPos (before ++ between).rawEndPos =
      some between := by
  have hfirst : before.rawEndPos.IsValid (before ++ between ++ after) := by
    rw [String.append_assoc]
    exact isValid_rawEndPos_append before (between ++ after)
  have hlast := isValid_rawEndPos_append (before ++ between) after
  have hle : before.rawEndPos ≤ (before ++ between).rawEndPos := by
    simp [String.Pos.Raw.le_iff]
  unfold cut?
  rw [dif_pos ⟨⟨hfirst, hlast⟩, hle⟩, Option.some_inj, ← String.toByteArray_inj]
  -- the bytes of joined texts are joined, so the rest is about byte arrays
  simp only [String.toByteArray_extract, String.offset_pos, String.byteIdx_rawEndPos,
    ← String.size_toByteArray, String.toByteArray_append, ByteArray.size_append,
    ByteArray.append_assoc]
  calc
    _ = (between.toByteArray ++ after.toByteArray).extract 0 between.toByteArray.size :=
      ByteArray.extract_append_size_add (i := 0)
    _ = between.toByteArray := ByteArray.extract_append_eq_left rfl

/-- A place in a text. -/
structure Cursor where
  /-- The whole text. -/
  source : String
  /-- The characters ahead. -/
  rest : List Char
  /-- The line of the next character. -/
  line : Nat
deriving DecidableEq, Repr

namespace Cursor

/-- The beginning of a text. -/
def ofString (source : String) : Cursor := ⟨source, source.toList, 1⟩

/-- The place after one more character. -/
def step (c : Cursor) (next : Char) (rest : List Char) : Cursor :=
  { c with rest := rest, line := if next = '\n' then c.line + 1 else c.line }

/-- The character passed, if there is one ahead, and the place after it. -/
def next? (c : Cursor) : Option (Char × Cursor) :=
  match c.rest with
  | [] => none
  | next :: rest => some (next, c.step next rest)

/-- The next character. -/
def peek? (c : Cursor) : Option Char := c.rest[0]?

/-- The character after the next one. -/
def peekSecond? (c : Cursor) : Option Char := c.rest[1]?

/-- The place after the next character if that is the expected one. -/
def nextIf? (c : Cursor) (expected : Char) : Option Cursor :=
  match c.rest with
  | [] => none
  | next :: rest => if next = expected then some (c.step next rest) else none

/-- Passes over the leading characters of `rest` that satisfy `accepts`. -/
def walk (accepts : Char → Bool) (c : Cursor) : (rest : List Char) → Cursor
  | [] => { c with rest := [] }
  | next :: rest =>
    if accepts next then walk accepts (c.step next rest) rest else { c with rest := next :: rest }

/-- The place before the first character ahead that does not satisfy `accepts`. -/
def advanceWhile (accepts : Char → Bool) (c : Cursor) : Cursor := c.walk accepts c.rest

/-- The text ahead. -/
def remaining (c : Cursor) : String := String.ofList c.rest

/-- How many bytes of the encoded text are behind the cursor: all but those ahead. -/
def offset (c : Cursor) : String.Pos.Raw := ⟨c.source.utf8ByteSize - c.remaining.utf8ByteSize⟩

/-- The text from an earlier place to a later one. Both must be places in the same text. -/
def slice? (mark c : Cursor) : Option String :=
  if mark.source = c.source then cut? mark.source mark.offset c.offset else none

/-- The text from an earlier place to a later one, or no text where there is none between them. -/
def slice (mark c : Cursor) : String := (mark.slice? c).getD ""

/-- The offset of a cursor is the length of the text behind it. -/
theorem offset_eq {c : Cursor} {before : String} (h : c.source = before ++ c.remaining) :
    c.offset = before.rawEndPos := by
  unfold offset
  rw [h, String.utf8ByteSize_append, Nat.add_sub_cancel]
  rfl

end Cursor

end LoxScript.Text
