import DocOutline.Text.Alphabetic
import DocOutline.Text.Mark
import DocOutline.Text.Number

/-!
# Word characters

Names of tags are made of word characters. A token is alphanumeric when it is a letter or a
number: that class has no marks, no joiners and no connecting punctuation.

The tables of properties are those of Unicode 17.0, and so are the alphanumeric characters. Word
characters are those of Unicode 16.0. Version 17.0 moved no character into or out of the class
that was assigned before, so its new characters are all that has to be taken away.
-/

namespace DocOutline.Text

/-- The general category `Connector_Punctuation`. -/
def connectorPunctuation : CharSet := ⟨[
  (0x5F, 0x5F), (0x203F, 0x2040), (0x2054, 0x2054), (0xFE33, 0xFE34), (0xFE4D, 0xFE4F),
  (0xFF3F, 0xFF3F)]⟩

/-- The property `Join_Control`. -/
def joinControl : CharSet := ⟨[(0x200C, 0x200D)]⟩

/-- The alphabetic characters, marks and decimal digits that are new in Unicode 17.0. -/
def newlyAssigned : CharSet := ⟨[
  (0x88F, 0x88F), (0xC5C, 0xC5C), (0xCDC, 0xCDC), (0x1ACF, 0x1ADD), (0x1AE0, 0x1AEB),
  (0xA7CE, 0xA7CF), (0xA7D2, 0xA7D2), (0xA7D4, 0xA7D4), (0xA7F1, 0xA7F1), (0x10940, 0x10959),
  (0x10EC5, 0x10EC7), (0x10EFA, 0x10EFB), (0x11B60, 0x11B67), (0x11DB0, 0x11DDB),
  (0x11DE0, 0x11DE9), (0x16EA0, 0x16EB8), (0x16EBB, 0x16ED3), (0x16FF2, 0x16FF6),
  (0x187F8, 0x187FF), (0x18D09, 0x18D1E), (0x18D80, 0x18DF2), (0x1E6C0, 0x1E6DE),
  (0x1E6E0, 0x1E6F5), (0x1E6FE, 0x1E6FF), (0x2B73A, 0x2B73F), (0x2CEA2, 0x2CEAD),
  (0x323B0, 0x33479)]⟩

/-- A character that may stand in a word: alphabetic, a mark, a decimal digit, connecting
punctuation or a joiner, and not newly assigned. -/
def isWord (c : Char) : Bool :=
  c.isAlphanum || c == '_' ||
    (alphabetic.contains c || mark.contains c || decimalNumber.contains c ||
      connectorPunctuation.contains c || joinControl.contains c) && !newlyAssigned.contains c

/-- A letter or a number of any script. -/
def isAlphanumeric (c : Char) : Bool :=
  c.isAlphanum || alphabetic.contains c || decimalNumber.contains c || otherNumber.contains c

end DocOutline.Text
