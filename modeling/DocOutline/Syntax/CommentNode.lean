import DocOutline.Comment.Style
import DocOutline.Syntax.Table
import DocOutline.Syntax.Tree

/-!
# Comments in a syntax tree

What can be asked of a node that may be a comment. Only the text of comments is read, so only
a comment can have a faulty range.
-/

namespace DocOutline.Tree

def isComment (tree : Tree) : Bool :=
  tree.kind == commentKind

/-- The node is a comment whose text satisfies `p`. -/
def commentSatisfies (tree : Tree) (source : Source) (p : String → Bool) : Except Fault Bool := do
  if tree.isComment then
    let text ← tree.text source
    return p text
  else return false

/-- A documentation comment. -/
def isDocumentation (tree : Tree) (source : Source) : Except Fault Bool :=
  tree.commentSatisfies source Comment.isDocumentation

/-- A comment that speaks of licences. -/
def isLegal (tree : Tree) (source : Source) : Except Fault Bool :=
  tree.commentSatisfies source Comment.isLegal

/-- A comment with tags of either style. -/
def isStructured (tree : Tree) (source : Source) : Except Fault Bool :=
  tree.commentSatisfies source fun text => Comment.markupStyle text != .plain

end DocOutline.Tree
