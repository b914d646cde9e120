/-!
# Faults of coordinate arithmetic

Coordinates are 32 bits wide. A computation on them stops with a fault when a sum does not
fit, or when the ends of a byte range come in the wrong order.
-/

namespace DocOutline

/-- Why a computation on coordinates has no result. -/
inductive Fault where
  /-- A row, a column or a displayed number does not fit. -/
  | sumOverflow
  /-- A shifted byte range does not fit. -/
  | rangeOverflow
  /-- A byte range would end before it starts. -/
  | reversedRange
  deriving DecidableEq, Repr

def Fault.message : Fault → String
  | .sumOverflow => "attempt to add with overflow"
  | .rangeOverflow => "TextRange +offset overflowed"
  | .reversedRange => "assertion failed: start.raw <= end.raw"

end DocOutline
