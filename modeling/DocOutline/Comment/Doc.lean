import DocOutline.Comment.Style
import DocOutline.Span

/-!
# Parsed documentation

The content of a documentation comment: prose, tags and fenced code. Extents of tags and fences
are measured inside the comment until `DocComment.placedIn` moves them into the file.
-/

namespace DocOutline

/-- One tag with its arguments. -/
structure DocTag where
  name : String
  typeExpr : Option String
  ident : Option String
  optional : Bool
  fallback : Option String
  description : String
  extent : Extent
  deriving DecidableEq, Repr

/-- One fenced block of code. -/
structure CodeFence where
  lang : Option String
  code : String
  extent : Extent
  deriving DecidableEq, Repr

/-- The content of a documentation comment. -/
structure DocComment where
  style : Comment.MarkupStyle
  /-- The prose before the first tag. -/
  description : String
  tags : List DocTag
  fences : List CodeFence
  deriving DecidableEq, Repr

namespace DocComment

/-- The first tag of a name. -/
def tag? (doc : DocComment) (name : String) : Option DocTag :=
  doc.tags.find? (·.name == name)

/-- All tags of a name, in order. -/
def tagsNamed (doc : DocComment) (name : String) : List DocTag :=
  doc.tags.filter (·.name == name)

/-- The content of a comment that stands at `origin`. -/
def placedIn (doc : DocComment) (origin : Extent) : Except Fault DocComment := do
  let tags ← doc.tags.mapM fun tag =>
    return { tag with extent := ← tag.extent.placedIn origin }
  let fences ← doc.fences.mapM fun fence =>
    return { fence with extent := ← fence.extent.placedIn origin }
  return { doc with tags, fences }

end DocComment

/-- Makes documentation out of the text of a comment. -/
abbrev MarkupReader : Type :=
  String → Except Fault DocComment

end DocOutline
