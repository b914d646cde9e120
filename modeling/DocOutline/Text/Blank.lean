import DocOutline.Text.CharSet

/-!
# White space

The characters of the Unicode property `White_Space`. Trimming, gutters and tag lines all
use this class.
-/

namespace DocOutline.Text

/-- The property `White_Space`. -/
def whiteSpace : CharSet := ⟨[
  (0x9, 0xD), (0x20, 0x20), (0x85, 0x85), (0xA0, 0xA0), (0x1680, 0x1680), (0x2000, 0x200A),
  (0x2028, 0x2029), (0x202F, 0x202F), (0x205F, 0x205F), (0x3000, 0x3000)]⟩

def isBlank (c : Char) : Bool :=
  whiteSpace.contains c

/-- A space or a tab, the only characters that may stand before a comment's gutter mark. -/
def isIndent (c : Char) : Bool :=
  c == ' ' || c == '\t'

end DocOutline.Text
