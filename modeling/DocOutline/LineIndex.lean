import DocOutline.Span
import DocOutline.Text.Bytes

/-!
# Line index

The offsets at which the lines of a text begin. They turn a byte offset into a row and a
column: the row is the last line that begins at or before the offset.
-/

namespace DocOutline

/-- Where the lines of a text begin. The first line begins at zero. -/
structure LineIndex where
  /-- The starts of the lines after the first, in increasing order. -/
  later : List UInt32
  deriving DecidableEq, Repr

namespace LineIndex

/-- The offsets just after the newlines of a text that begins at `offset`. -/
def newlineEnds (offset : Nat) : List Char → List Nat
  | [] => []
  | c :: cs =>
    if c = '\n' then (offset + 1) :: newlineEnds (offset + 1) cs
    else newlineEnds (offset + c.utf8Size) cs

def ofText (text : String) : LineIndex :=
  ⟨(newlineEnds 0 text.toList).map Nat.toUInt32⟩

/-- The number of lines; a text without newlines has one. -/
def size (index : LineIndex) : Nat :=
  index.later.length + 1

/-- There are no lines, which is never so. -/
def isEmpty (index : LineIndex) : Bool :=
  index.size == 0

/-- The row and the start of the line that holds `offset`, given the line before. -/
def locate (offset : UInt32) : UInt32 → UInt32 → List UInt32 → UInt32 × UInt32
  | row, start, [] => (row, start)
  | row, start, next :: rest =>
    if next ≤ offset then locate offset (row + 1) next rest else (row, start)

/-- The place of a byte offset, also past the end of the text. -/
def point (index : LineIndex) (offset : UInt32) : Point :=
  let (row, start) := locate offset 0 0 index.later
  ⟨row, offset - start⟩

/-- The extent of a byte range. -/
def extent (index : LineIndex) (range : ByteRange) : Extent :=
  ⟨range, .between (index.point range.start) (index.point range.stop)⟩

end LineIndex

end DocOutline
