import DocOutline.Proofs.CommentSpans
import DocOutline.Proofs.Rendering

/-!
# Tags and fences in the coordinates of the file

A documentation comment is read as a text of its own, and the places of its tags and fences are then
put where the comment stands. They could also be looked up in the file. Both ways lead to the same
place: each tag and each fence lies in the comment, and its rows and columns are those that the line
index of the file gives for its bytes (`Renderer.content_in_file_coordinates`). Nothing here can
fault, whatever the comment holds, as long as the bytes of the file can be counted in 32 bits.
-/

namespace DocOutline

open Text

/-! ## Slices -/

namespace Text

theorem dropBytes?_cons (c : Char) (n : Nat) (cs : List Char) :
    dropBytes? (c.utf8Size + n) (c :: cs) = dropBytes? n cs := by
  have hpos := c.utf8Size_pos
  cases hsize : c.utf8Size + n with
  | zero => omega
  | succ m => rw [dropBytes?, if_pos (by omega), ← hsize, Nat.add_sub_cancel_left]

theorem takeBytes?_cons (c : Char) (n : Nat) (cs : List Char) :
    takeBytes? (c.utf8Size + n) (c :: cs) = (takeBytes? n cs).map (c :: ·) := by
  have hpos := c.utf8Size_pos
  cases hsize : c.utf8Size + n with
  | zero => omega
  | succ m => rw [takeBytes?, if_pos (by omega), ← hsize, Nat.add_sub_cancel_left]

theorem dropBytes?_append (a b : List Char) : dropBytes? (byteLength a) (a ++ b) = some b := by
  induction a with
  | nil => cases b <;> rfl
  | cons c a ih => rw [byteLength, List.cons_append, dropBytes?_cons, ih]

theorem takeBytes?_append (a b : List Char) : takeBytes? (byteLength a) (a ++ b) = some a := by
  induction a with
  | nil => cases b <;> rfl
  | cons c a ih => rw [byteLength, List.cons_append, takeBytes?_cons, ih, Option.map_some]

/-- The slice between the ends of a part is the part. -/
theorem slice?_append (a b c : List Char) :
    slice? (a ++ b ++ c) (byteLength a) (byteLength (a ++ b)) = some b := by
  rw [slice?, byteLength_append, if_pos (Nat.le_add_right _ _), List.append_assoc,
    dropBytes?_append, Option.bind_some, Nat.add_sub_cancel_left, takeBytes?_append]

end Text

/-! ## Nodes -/

/-- The node stands for `piece`, and starts at the point where `piece` does. -/
structure Tree.Covers (tree : Tree) (source : Source) (before piece after : List Char) : Prop where
  text : source.text.toList = before ++ piece ++ after
  start : tree.info.startByte.toNat = byteLength before
  stop : tree.info.endByte.toNat = byteLength (before ++ piece)
  point : tree.info.startPoint = (LineIndex.ofText source.text).point tree.info.startByte

namespace Tree.Covers

variable {tree : Tree} {source : Source} {before piece after : List Char}

theorem exists_range (h : tree.Covers source before piece after) :
    ∃ range, tree.range = .ok range ∧ range.start = tree.info.startByte ∧
      range.stop = tree.info.endByte := by
  have hle : tree.info.startByte ≤ tree.info.endByte := by
    rw [UInt32.le_iff_toNat_le, h.start, h.stop, byteLength_append]
    exact Nat.le_add_right _ _
  exact ⟨⟨_, _, hle⟩, dif_pos hle, rfl, rfl⟩

theorem exists_extent (h : tree.Covers source before piece after) :
    ∃ origin, Renderer.extent none tree = .ok origin ∧
      origin.position.start.toNat = byteLength before ∧
      origin.location.first = (LineIndex.ofText source.text).point origin.position.start := by
  obtain ⟨range, hrange, hstart, -⟩ := h.exists_range
  refine ⟨⟨range, .between tree.info.startPoint tree.info.endPoint⟩,
    bind_eq_ok_iff.2 ⟨_, bind_eq_ok_iff.2 ⟨range, hrange, rfl⟩, rfl⟩, ?_, ?_⟩
  · rw [hstart, h.start]
  · rw [hstart, ← h.point]
    rfl

theorem text_eq (h : tree.Covers source before piece after) :
    tree.text source = .ok (String.ofList piece) := by
  obtain ⟨range, hrange, hstart, hstop⟩ := h.exists_range
  refine bind_eq_ok_iff.2 ⟨range, hrange, ?_⟩
  rw [hstart, hstop, h.start, h.stop, Source.slice, h.text, slice?_append]
  rfl

end Tree.Covers

/-! ## Comments -/

namespace Renderer

theorem content_eq_ok {renderer : Renderer} {read : MarkupReader} {text : String} {origin : Extent}
    {own doc : DocComment} (hmarkup : renderer.markup = some read) (hown : read text = .ok own)
    (hdoc : own.placedIn origin = .ok doc) : renderer.content text origin = .ok (some doc) := by
  rw [content, hmarkup]
  exact bind_eq_ok_iff.2 ⟨own, hown, bind_eq_ok_iff.2 ⟨doc, hdoc, rfl⟩⟩

/-- **Tags and fences are in the coordinates of the file.** The comment of any node that covers a
part of a text is read and placed without a fault, and each of its tags and fences lies inside the
node, at the rows and columns that the line index of the whole text gives for its bytes. -/
theorem content_in_file_coordinates {source : Source} {tree : Tree}
    {before piece after : List Char} (h : tree.Covers source before piece after)
    (hsize : byteLength source.text.toList < UInt32.size) (context : Option Entry) :
    ∃ e own doc,
      ({ source, markup := some Comment.read } : Renderer).render tree (.documented context) =
        .ok e ∧
      Comment.read (String.ofList piece) = .ok own ∧ own.placedIn e.extent = .ok doc ∧
      e.comment = some doc ∧
      ∀ x ∈ doc.extents,
        tree.info.startByte ≤ x.position.start ∧ x.position.start ≤ x.position.stop ∧
          x.position.stop ≤ tree.info.endByte ∧
          x.location = ((LineIndex.ofText source.text).extent x.position).location := by
  have htext : source.text.toList = before ++ (String.ofList piece).toList ++ after := by
    rw [String.toList_ofList, h.text]
  have hpiece : byteLength (String.ofList piece).toList < UInt32.size := by
    rw [htext, byteLength_append, byteLength_append] at hsize
    omega
  obtain ⟨origin, horigin, hbyte, hfirst⟩ := h.exists_extent
  obtain ⟨own, hown, hheld⟩ := Comment.exists_read hpiece
  obtain ⟨doc, hdoc, hplaced⟩ := DocComment.exists_placedIn fun x hx =>
    (hheld x hx).exists_placedIn htext hsize hbyte hfirst
  let renderer : Renderer := { source, markup := some Comment.read }
  let e : Entry :=
    { kind := tree.kind, text := String.ofList piece, position := origin.position
      location := origin.location, context, comment := some doc }
  have hcontent : renderer.content e.text e.extent = .ok e.comment := content_eq_ok rfl hown hdoc
  have hrender : renderer.render tree (.documented context) = .ok e :=
    renderAs_eq_ok_iff.2 ⟨rfl, horigin, h.text_eq, rfl, rfl, rfl, hcontent⟩
  refine ⟨e, own, doc, hrender, hown, hdoc, rfl, fun x hx => ?_⟩
  obtain ⟨hlow, hhigh, heq⟩ := hplaced x hx
  refine ⟨?_, x.position.start_le_stop, ?_, congrArg Extent.location heq⟩
  · rwa [UInt32.le_iff_toNat_le, h.start]
  · rwa [UInt32.le_iff_toNat_le, h.stop, byteLength_append, ← String.toList_ofList (l := piece)]

/-- The source of an indented comment with two tags and a fence. -/
def indented : Source :=
  { name := "sample", path := "sample",
    text := "// é.\n  /** @a b\n   * @c d\n   * ~~~\n   * ü\n   * ~~~\n   */ class E {}" }

def indentedComment : Tree :=
  .node ⟨"comment", 9, 59, ⟨1, 2⟩, ⟨6, 5⟩, false⟩ []

/-- Where its tags and its fence are. -/
def indentedExtents : List Extent :=
  [⟨⟨13, 17, by decide⟩, ⟨⟨1, 1⟩, ⟨6, 10⟩⟩⟩, ⟨⟨23, 27, by decide⟩, ⟨⟨2, 2⟩, ⟨5, 9⟩⟩⟩,
    ⟨⟨33, 53, by decide⟩, ⟨⟨3, 5⟩, ⟨5, 8⟩⟩⟩]

theorem content_in_file_coordinates_indentedComment :
    ∃ e doc, ({ source := indented, markup := some Comment.read } : Renderer).render indentedComment
        (.documented none) = .ok e ∧ e.comment = some doc ∧ doc.extents = indentedExtents ∧
      ∀ x ∈ doc.extents,
        indentedComment.info.startByte ≤ x.position.start ∧ x.position.start ≤ x.position.stop ∧
          x.position.stop ≤ indentedComment.info.endByte ∧
          x.location = ((LineIndex.ofText indented.text).extent x.position).location := by
  have hcovers : indentedComment.Covers indented "// é.\n  ".toList
      "/** @a b\n   * @c d\n   * ~~~\n   * ü\n   * ~~~\n   */".toList " class E {}".toList :=
    ⟨by decide +kernel, by decide +kernel, by decide +kernel, by decide +kernel⟩
  obtain ⟨e, own, doc, he, -, -, hdoc, hall⟩ :=
    content_in_file_coordinates hcovers (by decide +kernel) none
  refine ⟨e, doc, he, hdoc, ?_, hall⟩
  have hany : ((({ source := indented, markup := some Comment.read } : Renderer).render
      indentedComment (.documented none)).toOption.any fun e =>
        e.comment.any (·.extents == indentedExtents)) = true := by decide +kernel
  rw [he] at hany
  simpa [Except.toOption, hdoc] using hany

end Renderer

end DocOutline
