import DocOutline.Comment.TagLine
import DocOutline.Text.Bytes
import DocOutline.Text.Lines

/-!
# Lines of a comment

A comment is cut into lines, and each line loses its gutter. What is left may open or close a
fenced block, may be a tag line, with or without the number signs of a header, or is prose.
-/

namespace DocOutline.Comment

open Text

/-! ## Lines without their gutter -/

/-- A line of a comment without the marks of the comment. -/
structure Line where
  /-- The byte offset of the body in the comment. -/
  start : Nat
  body : List Char
  deriving DecidableEq, Repr

namespace Line

/-- A line without its opening mark: the mark that opens a comment, or a star that does not
close it, and one space. -/
def dropOpening (line : List Char) : List Char :=
  let rest := trimStart line
  let rest := match ['/', '*', '*'].isPrefixOf? rest with
    | some more => more
    | none => if ['*', '/'].isPrefixOf rest then rest else dropMark ['*'] rest
  dropMark [' '] rest

/-- A line without the mark that closes a comment and the blanks around it. -/
def dropClosing (line : List Char) : List Char :=
  let body := trimEnd line
  match ['*', '/'].isSuffixOf? body with
  | some shorter => trimEnd shorter
  | none => body

/-- The line of a piece that begins at byte `offset`. -/
def ofPiece (offset : Nat) (piece : List Char) : Line :=
  let line := dropEndWhile (fun c => c == '\n' || c == '\r') piece
  let rest := dropOpening line
  ⟨offset + (byteLength line - byteLength rest), dropClosing rest⟩

/-- The lines of pieces that begin at byte `offset`. -/
def ofPieces (offset : Nat) : List (List Char) → List Line
  | [] => []
  | piece :: rest => ofPiece offset piece :: ofPieces (offset + byteLength piece) rest

/-- The lines of a comment. -/
def ofText (text : List Char) : List Line :=
  ofPieces 0 (pieces text)

/-- The body without the blanks at its start. -/
def trimmed (line : Line) : List Char :=
  trimStart line.body

/-- The byte offset of the trimmed body. -/
def textStart (line : Line) : Nat :=
  line.start + (byteLength line.body - byteLength line.trimmed)

/-- The byte offset at which the body ends. -/
def stop (line : Line) : Nat :=
  line.start + byteLength line.body

end Line

/-! ## What a line is -/

/-- A fenced block. -/
structure Region where
  marker : List Char
  /-- What follows the opening marker. -/
  info : List Char
  start : Nat
  stop : Nat
  /-- The lines between the fences. -/
  code : List (List Char)
  deriving DecidableEq, Repr

/-- The marks that open and close a fenced block. -/
def fenceMarkers : List (List Char) :=
  [['`', '`', '`'], ['~', '~', '~']]

/-- The block that a line opens. -/
def Line.opens? (line : Line) : Option Region :=
  fenceMarkers.findSome? fun marker =>
    (marker.isPrefixOf? line.trimmed).map fun info =>
      { marker, info := trim info, start := line.textStart, stop := line.stop, code := [] }

/-- What is read as a tag line: a header loses its number signs and the blanks after them. -/
def Line.tagText (line : Line) : List Char :=
  let header := line.trimmed.dropWhile (· == '#')
  match line.trimmed, header with
  | '#' :: _, c :: _ => if isBlank c then trimStart header else line.trimmed
  | _, _ => line.trimmed

end DocOutline.Comment
