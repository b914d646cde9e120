import DocOutline.Comment.Doc
import DocOutline.Comment.Line
import DocOutline.LineIndex

/-!
# Reading a documentation comment

A comment is read in one pass over its lines. Prose before the first tag is the description;
prose after a tag belongs to the tag. A fenced block holds everything up to the fence that closes
it, or to the end. It is code of its own, except that a block opened with an at sign and a name is
a tag whose description is the code. Prose that follows such a block takes the place of the code.
-/

namespace DocOutline.Comment

open Text

/-- Lines of prose, each trimmed, and trimmed as a whole. -/
def joinProse (bodies : List (List Char)) : List Char :=
  trim (joinLines (bodies.map trim))

/-- The name of the tag that a block stands for. -/
def Region.tagName? (region : Region) : Option (List Char) :=
  match region.info with
  | '@' :: rest =>
    let name := (trimStart rest).takeWhile fun c => !isBlank c
    if name.isEmpty then none else some name
  | _ => none

/-- The code of a block. -/
def Region.text (region : Region) : List Char :=
  joinLines region.code

/-! ## Tags with their prose -/

/-- A tag whose extent is given by byte offsets, and the prose that belongs to it. -/
structure TagDraft where
  tag : TagLine
  start : Nat
  stop : Nat
  prose : List (List Char)
  deriving DecidableEq, Repr

/-- The draft of a tag line; what stands on the line itself comes first. -/
def TagDraft.ofLine (tag : TagLine) (start stop : Nat) (prose : List (List Char)) : TagDraft :=
  ⟨tag, start, stop, if tag.description.isEmpty then prose else tag.description :: prose⟩

/-- The draft of a block that stands for a tag. -/
def TagDraft.ofRegion (name : List Char) (region : Region) (prose : List (List Char)) : TagDraft :=
  ⟨⟨name, none, none, false, none, region.text⟩, region.start, region.stop, prose⟩

/-- The prose of a tag, and without any what it had from the start. -/
def TagDraft.description (draft : TagDraft) : List Char :=
  let prose := joinProse draft.prose
  if prose.isEmpty then draft.tag.description else prose

/-- The draft with one more line of prose. -/
def TagDraft.addProse (draft : TagDraft) (body : List Char) : TagDraft :=
  { draft with prose := draft.prose ++ [body] }

/-! ## One pass over the lines -/

/-- What has been read so far. -/
structure Builder where
  /-- The prose before the first tag. -/
  description : List (List Char) := []
  tags : List TagDraft := []
  /-- The blocks that are code of their own. -/
  fences : List Region := []
  /-- The block that is open. -/
  inside : Option Region := none

namespace Builder

def addTag (builder : Builder) (draft : TagDraft) : Builder :=
  { builder with tags := builder.tags ++ [draft] }

def addFence (builder : Builder) (region : Region) : Builder :=
  { builder with fences := builder.fences ++ [region] }

/-- Prose belongs to the latest tag, and before the first tag to the description. -/
def addProse (builder : Builder) (body : List Char) : Builder :=
  match builder.tags.getLast? with
  | some draft => { builder with tags := builder.tags.dropLast ++ [draft.addProse body] }
  | none => { builder with description := builder.description ++ [body] }

/-- The block that is open ends: it is a tag, or code of its own. -/
def closeFence (builder : Builder) : Builder :=
  match builder.inside with
  | none => builder
  | some region =>
    let closed := { builder with inside := none }
    match region.tagName? with
    | some name => closed.addTag (.ofRegion name region [])
    | none => closed.addFence region

/-- One more line is read. -/
def line (builder : Builder) (line : Line) : Builder :=
  match builder.inside with
  | some region =>
    let region := { region with stop := line.stop }
    if region.marker.isPrefixOf line.trimmed then
      { builder with inside := some region }.closeFence
    else
      { builder with inside := some { region with code := region.code ++ [line.body] } }
  | none =>
    match line.opens? with
    | some region => { builder with inside := some region }
    | none =>
      match TagLine.read? line.tagText with
      | some tag => builder.addTag (.ofLine tag line.textStart line.stop [])
      | none => builder.addProse line.body

/-- What is read of all lines. A block that is still open ends with them. -/
def ofLines (lines : List Line) : Builder :=
  (lines.foldl line {}).closeFence

end Builder

/-! ## The whole comment -/

/-- The extent between two byte offsets of an indexed text. -/
def extentBetween (index : LineIndex) (start stop : Nat) : Except Fault Extent :=
  (ByteRange.between start.toUInt32 stop.toUInt32).map index.extent

def TagDraft.finish (index : LineIndex) (draft : TagDraft) : Except Fault DocTag := do
  let extent ← extentBetween index draft.start draft.stop
  return {
    name := String.ofList draft.tag.name
    typeExpr := draft.tag.typeExpr.map String.ofList
    ident := draft.tag.ident.map String.ofList
    optional := draft.tag.optional
    fallback := draft.tag.fallback.map String.ofList
    description := String.ofList draft.description
    extent }

def Region.finish (index : LineIndex) (region : Region) : Except Fault CodeFence := do
  let extent ← extentBetween index region.start region.stop
  return {
    lang := if region.info.isEmpty then none else some (String.ofList region.info)
    code := String.ofList region.text
    extent }

/-- The content of a documentation comment, in coordinates of the comment. -/
def read : MarkupReader := fun text => do
  let index := LineIndex.ofText text
  let builder := Builder.ofLines (Line.ofText text.toList)
  let tags ← builder.tags.mapM (TagDraft.finish index)
  let fences ← builder.fences.mapM (Region.finish index)
  return {
    style := markupStyle text
    description := String.ofList (joinProse builder.description)
    tags, fences }

end DocOutline.Comment
