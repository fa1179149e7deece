/-!
# Sinks

Where the output of a run goes. Output is bytes. A text is handed to a sink in pieces, and a sink may
take the beginning of a piece before it refuses the rest, so a refusal can come within a text, and even
within a character.

## Main definitions

* `Output`: the bytes that were written.
* `Sink`, `Sink.take`: how much of a text a sink takes.

## Main statements

* `Sink.exists_take_append`: what a sink takes of a text is the beginning of the text.
-/

namespace LoxScript

/-- What was written. These are bytes, and need not be a text. -/
structure Output where
  /-- The bytes, in the order in which they were written. -/
  bytes : ByteArray

namespace Output

instance : DecidableEq Output := fun a b =>
  decidable_of_iff (a.bytes.data = b.bytes.data)
    ⟨fun h => congrArg mk (ByteArray.ext h), fun h => congrArg (·.bytes.data) h⟩

instance : Append Output := ⟨fun a b => ⟨a.bytes ++ b.bytes⟩⟩

/-- A text as output, in UTF-8. -/
def ofString (text : String) : Output := ⟨text.toUTF8⟩

instance : Coe String Output := ⟨ofString⟩

/-- The text that was written, or an empty one if the bytes are not UTF-8. -/
def text (output : Output) : String := (String.fromUTF8? output.bytes).getD ""

/-- The characters that were written. -/
def toList (output : Output) : List Char := output.text.toList

/-- How many characters were written. -/
def length (output : Output) : Nat := output.text.length

/-- The first bytes of an output, so many or as many as there are. -/
def take (output : Output) (count : Nat) : Output := ⟨output.bytes.extract 0 count⟩

theorem append_assoc (a b c : Output) : a ++ b ++ c = a ++ (b ++ c) :=
  congrArg mk ByteArray.append_assoc

@[simp]
theorem append_empty (a : Output) : a ++ ofString "" = a := congrArg mk ByteArray.append_empty

@[simp]
theorem empty_append (a : Output) : ofString "" ++ a = a := congrArg mk ByteArray.empty_append

/-- A text in two parts is written as the parts are. -/
theorem ofString_append (a b : String) : ofString (a ++ b) = ofString a ++ ofString b :=
  congrArg mk String.toByteArray_append

theorem append_right_inj (a : Output) {b c : Output} : a ++ b = a ++ c ↔ b = c := by
  refine ⟨fun h => ?_, congrArg (a ++ ·)⟩
  have hbytes : a.bytes ++ b.bytes = a.bytes ++ c.bytes := congrArg bytes h
  exact congrArg mk ((ByteArray.append_right_inj _).1 hbytes)

theorem append_eq_empty_iff {a b : Output} :
    a ++ b = ofString "" ↔ a = ofString "" ∧ b = ofString "" := by
  constructor
  · intro h
    have hbytes : a.bytes ++ b.bytes = ByteArray.empty := congrArg bytes h
    obtain ⟨ha, hb⟩ := ByteArray.append_eq_empty_iff.1 hbytes
    exact ⟨congrArg mk ha, congrArg mk hb⟩
  · rintro ⟨rfl, rfl⟩
    exact append_empty _

/-- A text is what its bytes encode. -/
theorem fromUTF8?_toUTF8 (text : String) : String.fromUTF8? text.toUTF8 = some text := by
  simp only [String.fromUTF8?, String.toUTF8_eq_toByteArray, dif_pos text.isValidUTF8]
  rfl

@[simp]
theorem text_ofString (text : String) : (ofString text).text = text := by
  rw [Output.text, ofString, fromUTF8?_toUTF8]
  rfl

/-- The first bytes are the beginning. -/
theorem exists_take_append (output : Output) (count : Nat) :
    ∃ rest, output.take count ++ rest = output := by
  refine ⟨⟨output.bytes.extract count output.bytes.size⟩, congrArg mk ?_⟩
  show output.bytes.extract 0 count ++ output.bytes.extract count output.bytes.size = output.bytes
  ext1
  simp

end Output

/-- How much a sink takes of a text. -/
inductive Sink.Room where
  /-- The whole text. -/
  | unlimited
  /-- At most so many bytes. -/
  | bytes (count : Nat)
deriving DecidableEq, Repr

/-- A condition is room for the whole text if it holds, and for nothing if not. -/
instance (p : Prop) [Decidable p] : CoeDep Prop p Sink.Room := ⟨if p then .unlimited else .bytes 0⟩

/-- Where output goes. How much a sink takes of a text depends on the output that it has taken before.
In a run this tells all texts apart that are not empty, because output only grows. -/
structure Sink where
  /-- How much it takes after this output. -/
  room : Output → Sink.Room
  /-- What it says if there is more. -/
  refusal : String

namespace Sink

/-- The sink that takes everything. -/
def unlimited : Sink := ⟨fun _ => .unlimited, ""⟩

/-- What a sink takes of a text after some output. -/
def take (sink : Sink) (output : Output) (text : String) : Output :=
  match sink.room output with
  | .unlimited => text
  | .bytes count => Output.take text count

@[simp]
theorem take_unlimited (output : Output) (text : String) : unlimited.take output text = text := rfl

/-- What a sink takes of a text is the beginning of the text. -/
theorem exists_take_append (sink : Sink) (output : Output) (text : String) :
    ∃ rest : Output, sink.take output text ++ rest = text := by
  unfold take
  cases sink.room output with
  | unlimited => exact ⟨"", Output.append_empty _⟩
  | bytes count => exact Output.exists_take_append _ count

end Sink

end LoxScript
