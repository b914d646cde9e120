import DocOutline.Text.Blank

/-!
# Trimming and cutting text

Text under study is a list of characters. What is cut off is always blank, a fixed mark, or
one side of the first or the last separator.
-/

namespace DocOutline.Text

/-- The longest end of `cs` whose characters all satisfy `p` is dropped. -/
def dropEndWhile (p : Char → Bool) (cs : List Char) : List Char :=
  (cs.reverse.dropWhile p).reverse

def trimStart (cs : List Char) : List Char :=
  cs.dropWhile isBlank

def trimEnd (cs : List Char) : List Char :=
  dropEndWhile isBlank cs

def trim (cs : List Char) : List Char :=
  trimEnd (trimStart cs)

/-- What follows `mark` if the text begins with it, and the whole text otherwise. -/
def dropMark (mark : List Char) (cs : List Char) : List Char :=
  (mark.isPrefixOf? cs).getD cs

/-- What follows the last separator, the whole text if there is none. -/
def afterLast (isSeparator : Char → Bool) (cs : List Char) : List Char :=
  (cs.reverse.takeWhile fun c => !isSeparator c).reverse

/-- The parts before and after the first `separator`. -/
def splitFirst? (separator : Char) : List Char → Option (List Char × List Char)
  | [] => none
  | c :: cs =>
    if c = separator then some ([], cs)
    else (splitFirst? separator cs).map fun (before, after) => (c :: before, after)

/-- `part` occurs somewhere in the text. -/
def hasPart (part : List Char) : List Char → Bool
  | [] => part.isEmpty
  | c :: cs => part.isPrefixOf (c :: cs) || hasPart part cs

end DocOutline.Text
