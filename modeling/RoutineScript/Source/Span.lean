/-
Text that knows where it came from. A span is a run of characters, each with
the line of the source it was read from. The parser only ever cuts spans
into pieces, so a statement still knows its line however deep it is nested,
and no offset has to be carried along.

Offsets exist for hosts, which count in bytes of UTF-8: the lengths and
positions here are the measure `bytes` of a span and of its beginnings.
-/
import RoutineScript.Text.Classes

namespace RoutineScript

/-- Something that stands on a line of the source. -/
structure Located (α : Type) where
  line : Nat
  val : α
  deriving DecidableEq, Repr

/-- A run of characters with their lines. -/
abbrev Span := List (Located Char)

namespace Span

/-- The characters of a span. -/
def chars (span : Span) : List Char :=
  span.map Located.val

/-- A span as text. -/
def text (span : Span) : String :=
  String.ofList span.chars

/-- A text that stands on one line. -/
def ofString (text : String) (line : Nat) : Span :=
  text.toList.map fun c => ⟨line, c⟩

-- ==================================================================== bytes

/-- The length of a span in bytes of UTF-8. -/
def bytes : Span → Nat
  | [] => 0
  | c :: rest => c.val.utf8Size + bytes rest

/-- The line of every byte of a span. -/
def byteLines (span : Span) : List Nat :=
  span.flatMap fun c => List.replicate c.val.utf8Size c.line

/-- The line of the byte at an offset. Behind the end it is the last line,
and an empty span stands on line one. -/
def lineAt (span : Span) (offset : Nat) : Nat :=
  let lines := span.byteLines
  (lines[offset]? <|> lines.getLast?).getD 1

/-- The line that a span begins on. -/
def firstLine (span : Span) : Nat :=
  (span.head?.map Located.line).getD 1

/-- What begins at or behind a byte offset. -/
def fromByte (offset : Nat) : Span → Span
  | [] => []
  | c :: rest => if offset = 0 then c :: rest else fromByte (offset - c.val.utf8Size) rest

@[simp] theorem bytes_append (a b : Span) : bytes (a ++ b) = bytes a + bytes b := by
  induction a with
  | nil => simp [bytes]
  | cons c rest ih => simp [bytes, ih, Nat.add_assoc]

/-- The line table has one entry for each byte. -/
theorem length_byteLines (span : Span) : span.byteLines.length = span.bytes := by
  induction span with
  | nil => rfl
  | cons c rest ih => simp_all [byteLines, bytes, List.flatMap_cons]

-- ================================================================= cutting

/-- Whether a span begins with the given characters. -/
def startsWith (span : Span) (word : String) : Bool :=
  word.toList.isPrefixOf span.chars

/-- A span without the terminators at its beginning. -/
def skipTerminators (span : Span) : Span :=
  span.dropWhile (·.val == ';')

/-- A span without the terminators at its beginning and its end. -/
def trimTerminators (span : Span) : Span :=
  (skipTerminators (skipTerminators span).reverse).reverse

/-- The beginning of a span that is cut off by leaving `rest`. -/
def upTo (span rest : Span) : Span :=
  span.take (span.length - rest.length)

theorem length_skipTerminators_le (span : Span) :
    span.skipTerminators.length ≤ span.length :=
  (List.dropWhile_sublist _).length_le

@[simp] theorem upTo_append (a b : Span) : upTo (a ++ b) b = a := by
  simp [upTo]

end Span

end RoutineScript
