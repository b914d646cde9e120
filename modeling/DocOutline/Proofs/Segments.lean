import DocOutline.Comment.Reader

/-!
# Segments of a comment

A comment is read in one pass over its lines, and a line of prose changes what has been read before
it: the latest tag grows. What comes of a comment is easier to tell in two steps. The lines are
grouped into segments: a line of prose, a tag line, or a fenced block (`segments`). The segments are
then cut at the tags, each of which takes the prose up to the next one (`sections`), and the blocks
that are no tags are code (`codeRegions`).

**Both ways lead to the same** (`Builder.ofLines_eq`, `read_eq`). First, the lines from the opening
of a block to its end add one block, so a pass over lines is a pass over segments (`foldl_line`).
Second, whatever has been read before, segments add their tags and their code behind it, and only
the prose before their first tag may still go to an earlier tag (`foldl_add`).
-/

namespace DocOutline.Comment

open Text

/-! ## Segments -/

/-- A part of a comment. -/
inductive Segment where
  | prose (body : List Char)
  | tag (tag : TagLine) (start stop : Nat)
  | fence (region : Region)
  deriving DecidableEq, Repr

/-- The segment of a line outside all blocks. -/
def Line.segment (line : Line) : Segment :=
  match TagLine.read? line.tagText with
  | some tag => .tag tag line.textStart line.stop
  | none => .prose line.body

/-- The segments of the lines, while the block `inside` is open. -/
def segments (inside : Option Region) : List Line → List Segment
  | [] => (inside.map Segment.fence).toList
  | line :: rest =>
    match inside with
    | some region =>
      let region := { region with stop := line.stop }
      if region.marker.isPrefixOf line.trimmed then .fence region :: segments none rest
      else segments (some { region with code := region.code ++ [line.body] }) rest
    | none =>
      match line.opens? with
      | some region => segments (some region) rest
      | none => line.segment :: segments none rest

/-- The segments of a comment. -/
def parts (text : String) : List Segment :=
  segments none (Line.ofText text.toList)

/-- The prose before the first tag, and the tags. -/
def sections : List Segment → List (List Char) × List TagDraft
  | [] => ([], [])
  | .prose body :: rest =>
    let (prose, tags) := sections rest
    (body :: prose, tags)
  | .tag tag start stop :: rest =>
    let (prose, tags) := sections rest
    ([], .ofLine tag start stop prose :: tags)
  | .fence region :: rest =>
    let (prose, tags) := sections rest
    match region.tagName? with
    | some name => ([], .ofRegion name region prose :: tags)
    | none => (prose, tags)

/-- The blocks that are code of their own. -/
def codeRegions (parts : List Segment) : List Region :=
  parts.filterMap fun
    | .fence region => if region.tagName?.isNone then some region else none
    | _ => none

/-- Prose after a tag line follows the text on the line. -/
theorem TagDraft.ofLine_append (tag : TagLine) (start stop : Nat) (prose : List (List Char)) :
    { TagDraft.ofLine tag start stop [] with
      prose := (TagDraft.ofLine tag start stop []).prose ++ prose } =
      TagDraft.ofLine tag start stop prose := by
  unfold TagDraft.ofLine
  split
  · rfl
  · rfl

namespace Builder

/-! ## From lines to segments -/

/-- One more segment is read. -/
def add (builder : Builder) : Segment → Builder
  | .prose body => builder.addProse body
  | .tag tag start stop => builder.addTag (.ofLine tag start stop [])
  | .fence region => { builder with inside := some region }.closeFence

@[simp]
theorem inside_addProse (builder : Builder) (body : List Char) :
    (builder.addProse body).inside = builder.inside := by
  unfold addProse
  split
  · rfl
  · rfl

@[simp]
theorem inside_closeFence (builder : Builder) : builder.closeFence.inside = none := by
  unfold closeFence
  split
  · assumption
  · dsimp only
    split
    · rfl
    · rfl

theorem inside_add {builder : Builder} (h : builder.inside = none) (part : Segment) :
    (builder.add part).inside = none := by
  cases part with
  | prose body => exact (inside_addProse builder body).trans h
  | tag tag start stop => exact h
  | fence region => exact inside_closeFence _

/-- A builder without an open block is not changed by closing it. -/
theorem eq_of_inside {builder : Builder} (h : builder.inside = none) :
    { builder with inside := none } = builder := by
  cases builder
  cases h
  rfl

theorem line_of_opens?_eq_none {builder : Builder} (h : builder.inside = none) {line : Line}
    (hopens : line.opens? = none) : builder.line line = builder.add line.segment := by
  rw [Builder.line, h]
  simp only [hopens, Line.segment]
  cases TagLine.read? line.tagText with
  | some tag => rfl
  | none => rfl

/-- A pass over lines is a pass over their segments. -/
theorem foldl_line (lines : List Line) (builder : Builder) :
    (lines.foldl line builder).closeFence =
      (segments builder.inside lines).foldl add { builder with inside := none } := by
  induction lines generalizing builder with
  | nil =>
    obtain ⟨description, tags, fences, inside⟩ := builder
    cases inside with
    | none => rfl
    | some region => rfl
  | cons line rest ih =>
    rw [List.foldl_cons, ih]
    obtain ⟨description, tags, fences, inside⟩ := builder
    cases inside with
    | some region =>
      simp only [Builder.line, segments]
      split
      · -- The block ends with this line.
        rw [inside_closeFence, eq_of_inside (inside_closeFence _), List.foldl_cons]
        rfl
      · rfl
    | none =>
      cases hopens : line.opens? with
      | some region => simp only [Builder.line, segments, hopens]
      | none =>
        rw [line_of_opens?_eq_none rfl hopens, inside_add rfl, eq_of_inside (inside_add rfl _)]
        simp only [segments, hopens, List.foldl_cons]

/-! ## From segments to sections -/

theorem addProse_addTag (builder : Builder) (draft : TagDraft) (body : List Char) :
    (builder.addTag draft).addProse body = builder.addTag (draft.addProse body) := by
  simp [addProse, addTag]

/-- Prose after a tag is prose of the tag. -/
theorem foldl_addProse_addTag (prose : List (List Char)) (builder : Builder) (draft : TagDraft) :
    prose.foldl addProse (builder.addTag draft) =
      builder.addTag { draft with prose := draft.prose ++ prose } := by
  induction prose generalizing draft with
  | nil => simp
  | cons body rest ih =>
    rw [List.foldl_cons, addProse_addTag, ih]
    simp [TagDraft.addProse]

/-- Prose before the first tag is description. -/
theorem foldl_addProse_of_tags_eq_nil (prose description : List (List Char))
    (fences : List Region) :
    prose.foldl addProse { description, fences } =
      { description := description ++ prose, fences } := by
  induction prose generalizing description with
  | nil => simp
  | cons body rest ih =>
    rw [List.foldl_cons]
    exact (ih (description ++ [body])).trans (by simp)

theorem addProse_addFence (builder : Builder) (region : Region) (body : List Char) :
    (builder.addFence region).addProse body = (builder.addProse body).addFence region := by
  unfold addProse
  cases hlast : builder.tags.getLast? with
  | some draft => simp [addFence, hlast]
  | none => simp [addFence, hlast]

/-- Prose does not touch the code. -/
theorem foldl_addProse_addFence (prose : List (List Char)) (builder : Builder) (region : Region) :
    prose.foldl addProse (builder.addFence region) =
      (prose.foldl addProse builder).addFence region := by
  induction prose generalizing builder with
  | nil => rfl
  | cons body rest ih => rw [List.foldl_cons, addProse_addFence, ih, List.foldl_cons]

/-- The builder with more prose, then more tags, and with more code. -/
def extend (builder : Builder) (prose : List (List Char)) (tags : List TagDraft)
    (fences : List Region) : Builder :=
  let grown := prose.foldl addProse builder
  { grown with tags := grown.tags ++ tags, fences := grown.fences ++ fences }

/-- A tag that is added takes the prose that follows. -/
theorem extend_addTag (builder : Builder) (draft : TagDraft) (prose : List (List Char))
    (tags : List TagDraft) (fences : List Region) :
    (builder.addTag draft).extend prose tags fences =
      builder.extend [] ({ draft with prose := draft.prose ++ prose } :: tags) fences := by
  rw [extend, foldl_addProse_addTag]
  simp [extend, addTag]

theorem extend_addFence (builder : Builder) (region : Region) (prose : List (List Char))
    (tags : List TagDraft) (fences : List Region) :
    (builder.addFence region).extend prose tags fences =
      builder.extend prose tags (region :: fences) := by
  rw [extend, foldl_addProse_addFence]
  simp [extend, addFence]

/-- What segments add is their sections and their code. -/
theorem foldl_add (parts : List Segment) {builder : Builder} (h : builder.inside = none) :
    parts.foldl add builder =
      builder.extend (sections parts).1 (sections parts).2 (codeRegions parts) := by
  induction parts generalizing builder with
  | nil => simp [extend, sections, codeRegions]
  | cons part rest ih =>
    rw [List.foldl_cons, ih (inside_add h part)]
    cases part with
    | prose body => rfl
    | tag tag start stop =>
      rw [add, extend_addTag, TagDraft.ofLine_append]
      rfl
    | fence region =>
      have hclosed := eq_of_inside h
      cases hname : region.tagName? with
      | some name =>
        simp only [add, closeFence, hname, hclosed, extend_addTag]
        simp [sections, codeRegions, hname, TagDraft.ofRegion]
      | none =>
        simp only [add, closeFence, hname, hclosed, extend_addFence]
        simp [sections, codeRegions, hname]

/-- **One pass gives what two do.** The description, the tags and the code that are read from lines
are those of their segments. -/
theorem ofLines_eq (lines : List Line) :
    ofLines lines =
      { description := (sections (segments none lines)).1
        tags := (sections (segments none lines)).2
        fences := codeRegions (segments none lines) } := by
  rw [ofLines, foldl_line, foldl_add _ rfl, extend, foldl_addProse_of_tags_eq_nil]
  simp

end Builder

theorem read_eq (text : String) :
    read text = (do
      let index := LineIndex.ofText text
      let tags ← (sections (parts text)).2.mapM (TagDraft.finish index)
      let fences ← (codeRegions (parts text)).mapM (Region.finish index)
      return {
        style := markupStyle text
        description := String.ofList (joinProse (sections (parts text)).1)
        tags, fences }) := by
  rw [read, Builder.ofLines_eq]
  rfl

end DocOutline.Comment
