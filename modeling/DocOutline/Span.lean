import DocOutline.Fault

/-!
# Places in a text

A place is given twice: as a range of bytes, and as rows and columns. Everything is 32 bits
wide and counts from zero; columns count bytes.

`Extent.shifted` re-expresses an extent in a larger document by adding the start of another
extent to every coordinate. `Extent.placedIn` moves an extent measured inside a piece of text
to the place of that piece: only on the first row do columns move.
-/

namespace DocOutline

/-- The sum of two coordinates, if it fits. -/
def addCoord (a b : UInt32) : Except Fault UInt32 :=
  if a.toNat + b.toNat < UInt32.size then .ok (a + b) else .error .sumOverflow

theorem addCoord_eq_ok_iff {a b c : UInt32} :
    addCoord a b = .ok c ↔ c.toNat = a.toNat + b.toNat := by
  unfold addCoord
  split
  · rename_i h
    have hs : (a + b).toNat = a.toNat + b.toNat := by
      rw [UInt32.toNat_add]
      exact Nat.mod_eq_of_lt h
    simp only [Except.ok.injEq]
    constructor
    · rintro rfl
      exact hs
    · intro hc
      exact UInt32.toNat_inj.1 (by omega)
  · rename_i h
    -- A sum that does not fit is the value of no coordinate.
    simp only [reduceCtorEq, false_iff]
    have := c.toNat_lt
    simp only [UInt32.size] at h
    omega

/-! ## Points -/

/-- A row and a column. -/
structure Point where
  line : UInt32
  col : UInt32
  deriving DecidableEq, Repr

namespace Point

/-- Points are ordered by row, then by column. -/
def cmp (a b : Point) : Ordering :=
  (compare a.line b.line).then (compare a.col b.col)

/-- The row and the column counted from one. -/
def oneBased (p : Point) : Except Fault Point := do
  let line ← addCoord p.line 1
  let col ← addCoord p.col 1
  return ⟨line, col⟩

/-- `row:column`, counted from zero. -/
def key (p : Point) : String :=
  Nat.repr p.line.toNat ++ ":" ++ Nat.repr p.col.toNat

/-- `row:column`, counted from one. -/
def display (p : Point) : Except Fault String :=
  p.oneBased.map key

end Point

/-! ## Ranges along one axis -/

/-- The two ends of an extent along one axis. -/
structure Span where
  start : UInt32
  stop : UInt32
  deriving DecidableEq, Repr

/-- Both ends moved by `d`. -/
def Span.shift (s : Span) (d : UInt32) : Except Fault Span := do
  let start ← addCoord d s.start
  let stop ← addCoord d s.stop
  return ⟨start, stop⟩

/-- A range of bytes. -/
structure ByteRange where
  start : UInt32
  stop : UInt32
  start_le_stop : start ≤ stop
  deriving DecidableEq, Repr

namespace ByteRange

/-- The range between two ends. -/
def between (start stop : UInt32) : Except Fault ByteRange :=
  if h : start ≤ stop then .ok ⟨start, stop, h⟩ else .error .reversedRange

theorem shift_le {a b d : UInt32} (h : a ≤ b) (fits : b.toNat + d.toNat < UInt32.size) :
    a + d ≤ b + d := by
  have h' : a.toNat ≤ b.toNat := h
  rw [UInt32.le_iff_toNat_le, UInt32.toNat_add, UInt32.toNat_add]
  simp only [UInt32.size] at fits
  omega

/-- The range moved by `d`. Its end is its largest coordinate, so it decides. -/
def shift (r : ByteRange) (d : UInt32) : Except Fault ByteRange :=
  if fits : r.stop.toNat + d.toNat < UInt32.size then
    .ok ⟨r.start + d, r.stop + d, shift_le r.start_le_stop fits⟩
  else .error .rangeOverflow

end ByteRange

/-! ## Extents -/

/-- Rows and columns of an extent. -/
structure Location where
  row : Span
  column : Span
  deriving DecidableEq, Repr

namespace Location

def between (first last : Point) : Location :=
  ⟨⟨first.line, last.line⟩, ⟨first.col, last.col⟩⟩

def first (l : Location) : Point :=
  ⟨l.row.start, l.column.start⟩

def last (l : Location) : Point :=
  ⟨l.row.stop, l.column.stop⟩

end Location

/-- A place in a text, in bytes and in rows and columns. -/
structure Extent where
  position : ByteRange
  location : Location
  deriving DecidableEq, Repr

namespace Extent

/-- Every coordinate is added to the start of `origin`. -/
def shifted (own origin : Extent) : Except Fault Extent := do
  let position ← own.position.shift origin.position.start
  let row ← own.location.row.shift origin.location.row.start
  let column ← own.location.column.shift origin.location.column.start
  return ⟨position, ⟨row, column⟩⟩

/-- A point of a text that begins at `origin`: the first row continues the row of `origin`. -/
def placePoint (origin p : Point) : Except Fault Point := do
  let col ← if p.line = 0 then addCoord origin.col p.col else .ok p.col
  let line ← addCoord origin.line p.line
  return ⟨line, col⟩

/-- An extent measured inside the text that stands at `origin`. -/
def placedIn (own origin : Extent) : Except Fault Extent := do
  let position ← own.position.shift origin.position.start
  let first ← placePoint origin.location.first own.location.first
  let last ← placePoint origin.location.first own.location.last
  return ⟨position, .between first last⟩

end Extent

end DocOutline
