/-!
# Sets of characters

A character class is a list of closed ranges of code points, in increasing order.
-/

namespace DocOutline.Text

/-- A set of characters, as closed ranges of code points. -/
structure CharSet where
  ranges : List (Nat × Nat)

namespace CharSet

def contains (set : CharSet) (c : Char) : Bool :=
  set.ranges.any fun (low, high) => low ≤ c.toNat && c.toNat ≤ high

end CharSet

end DocOutline.Text
