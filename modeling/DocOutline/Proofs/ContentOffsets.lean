import DocOutline.Proofs.Offsets

/-!
# Contents of comments under an offset

Entries are moved by adding the offset to every coordinate. The tags and fences of a comment are
placed in another way: they are measured inside the comment, and put where the moved comment
starts, which concerns the columns of its first row only. So bytes and rows of a tag move like those
of an entry, but on the later rows of a comment its columns stay as they are
(`Extent.MovedWithin`). This differs from moving by the offset as soon as the offset has a column
(`Extent.MovedWithin.shifted_iff`).
-/

namespace DocOutline

/-! ## Extents inside a comment -/

namespace Extent

/-- What an offset adds to the columns of a row of a comment. -/
def columnShift (comment origin : Extent) (row : UInt32) : Nat :=
  if row = comment.location.row.start then origin.location.column.start.toNat else 0

/-- The first extent is the second one, which lies in a comment, under an offset: bytes and rows
move, and columns on the first row of the comment. -/
structure MovedWithin (comment origin moved own : Extent) : Prop where
  position : own.position.shift origin.position.start = .ok moved.position
  row : own.location.row.shift origin.location.row.start = .ok moved.location.row
  startColumn : moved.location.column.start.toNat =
    own.location.column.start.toNat + columnShift comment origin own.location.row.start
  stopColumn : moved.location.column.stop.toNat =
    own.location.column.stop.toNat + columnShift comment origin own.location.row.stop

/-- The same point placed in a comment and in the comment under an offset. -/
theorem placedCol_of_shifted {comment comment' origin : Extent}
    (hshift : comment.shifted origin = .ok comment') {p own moved : Point}
    (hown : placePoint comment.location.first p = .ok own)
    (hmoved : placePoint comment'.location.first p = .ok moved) :
    moved.line.toNat = origin.location.row.start.toNat + own.line.toNat ∧
      moved.col.toNat = own.col.toNat + columnShift comment origin own.line := by
  obtain ⟨-, hrow, hcolumn⟩ := shifted_eq_ok_iff.1 hshift
  have hline := (Span.shift_eq_ok_iff.1 hrow).1
  have hcol := (Span.shift_eq_ok_iff.1 hcolumn).1
  rw [placePoint_eq_ok_iff] at hown hmoved
  simp only [Location.first, placedCol] at hown hmoved
  simp only [columnShift, ← UInt32.toNat_inj]
  -- On the first row of the comment, and only there, the row of the comment is met.
  split_ifs at hown hmoved ⊢ <;> omega

theorem movedWithin_of_placedIn {comment comment' origin : Extent}
    (hshift : comment.shifted origin = .ok comment') {inner own moved : Extent}
    (hown : inner.placedIn comment = .ok own) (hmoved : inner.placedIn comment' = .ok moved) :
    MovedWithin comment origin moved own := by
  obtain ⟨hposition, hfirst, hlast⟩ := placedIn_eq_ok_iff.1 hown
  obtain ⟨hposition', hfirst', hlast'⟩ := placedIn_eq_ok_iff.1 hmoved
  obtain ⟨hstart, hstartColumn⟩ := placedCol_of_shifted hshift hfirst hfirst'
  obtain ⟨hstop, hstopColumn⟩ := placedCol_of_shifted hshift hlast hlast'
  refine ⟨?_, Span.shift_eq_ok_iff.2 ⟨hstart, hstop⟩, hstartColumn, hstopColumn⟩
  have hbytes := ByteRange.shift_eq_ok_iff.1 (shifted_eq_ok_iff.1 hshift).1
  rw [ByteRange.shift_eq_ok_iff] at hposition hposition' ⊢
  omega

/-- Such an extent is moved like an entry only if the offset has no column, or if it lies on the
first row of the comment. -/
theorem MovedWithin.shifted_iff {comment origin moved own : Extent}
    (h : MovedWithin comment origin moved own) :
    own.shifted origin = .ok moved ↔ origin.location.column.start = 0 ∨
      own.location.row.start = comment.location.row.start ∧
        own.location.row.stop = comment.location.row.start := by
  have hstart := h.startColumn
  have hstop := h.stopColumn
  simp only [shifted_eq_ok_iff, h.position, h.row, true_and, Span.shift_eq_ok_iff]
  simp only [columnShift, ← UInt32.toNat_inj, UInt32.toNat_zero] at hstart hstop ⊢
  split_ifs at hstart hstop <;> omega

end Extent

/-! ## Contents -/

/-- The tags are the same, apart from where they are. -/
def DocTag.MovedWithin (comment origin : Extent) (tag tag' : DocTag) : Prop :=
  tag = { tag' with extent := tag.extent } ∧
    Extent.MovedWithin comment origin tag.extent tag'.extent

/-- The fences are the same, apart from where they are. -/
def CodeFence.MovedWithin (comment origin : Extent) (fence fence' : CodeFence) : Prop :=
  fence = { fence' with extent := fence.extent } ∧
    Extent.MovedWithin comment origin fence.extent fence'.extent

/-- The first content is the second one under an offset. -/
structure DocComment.MovedWithin (comment origin : Extent) (doc doc' : DocComment) : Prop where
  style : doc.style = doc'.style
  description : doc.description = doc'.description
  tags : List.Forall₂ (DocTag.MovedWithin comment origin) doc.tags doc'.tags
  fences : List.Forall₂ (CodeFence.MovedWithin comment origin) doc.fences doc'.fences

theorem forall₂_of_mapM {α β γ : Type} {f : α → Except Fault β} {g : α → Except Fault γ}
    {R : γ → β → Prop} (hfg : ∀ a b c, f a = .ok b → g a = .ok c → R c b) {l : List α}
    {bs : List β} {cs : List γ} (hbs : l.mapM f = .ok bs) (hcs : l.mapM g = .ok cs) :
    List.Forall₂ R cs bs := by
  rw [mapM_eq_ok_iff] at hbs hcs
  induction hbs generalizing cs with
  | nil =>
    cases hcs
    exact .nil
  | cons hb _ ih =>
    cases hcs with
    | cons hc hcs => exact .cons (hfg _ _ _ hb hc) (ih hcs)

theorem DocComment.movedWithin_of_placedIn {comment comment' origin : Extent}
    (hshift : comment.shifted origin = .ok comment') {doc own moved : DocComment}
    (hown : doc.placedIn comment = .ok own) (hmoved : doc.placedIn comment' = .ok moved) :
    MovedWithin comment origin moved own := by
  obtain ⟨tags, htags, hown⟩ := bind_eq_ok_iff.1 hown
  obtain ⟨fences, hfences, hown⟩ := bind_eq_ok_iff.1 hown
  obtain ⟨tags', htags', hmoved⟩ := bind_eq_ok_iff.1 hmoved
  obtain ⟨fences', hfences', hmoved⟩ := bind_eq_ok_iff.1 hmoved
  cases hown
  cases hmoved
  refine ⟨rfl, rfl, forall₂_of_mapM (fun tag t t' ht ht' => ?_) htags htags',
    forall₂_of_mapM (fun fence f f' hf hf' => ?_) hfences hfences'⟩
  · obtain ⟨extent, hextent, ht⟩ := bind_eq_ok_iff.1 ht
    obtain ⟨extent', hextent', ht'⟩ := bind_eq_ok_iff.1 ht'
    cases ht
    cases ht'
    exact ⟨rfl, Extent.movedWithin_of_placedIn hshift hextent hextent'⟩
  · obtain ⟨extent, hextent, hf⟩ := bind_eq_ok_iff.1 hf
    obtain ⟨extent', hextent', hf'⟩ := bind_eq_ok_iff.1 hf'
    cases hf
    cases hf'
    exact ⟨rfl, Extent.movedWithin_of_placedIn hshift hextent hextent'⟩

/-! ## Entries -/

/-- The first entry is the second one under an offset, with its content and with all children and
contexts. -/
def Entry.MovedBy (origin : Extent) : Entry → Entry → Prop :=
  Entry.Moved (fun extent => Option.Rel (DocComment.MovedWithin extent origin)) origin

theorem agree_content_moved {renderer : Renderer} {origin : Extent} {markup : Option MarkupReader}
    (text : String) {e x : Extent} (h : x.shifted origin = .ok e) :
    Agree (.ofReaders markup markup) (Option.Rel (DocComment.MovedWithin x origin))
      (Renderer.content { renderer with offset := some origin, markup } text e)
      (Renderer.content { renderer with offset := none, markup } text x) := by
  refine (agree_content text h).mono fun content content' hcontent hcontent' _ => ?_
  cases markup with
  | none =>
    cases hcontent
    cases hcontent'
    exact .none
  | some read =>
    obtain ⟨doc, hdoc, hcontent⟩ := bind_eq_ok_iff.1 hcontent
    obtain ⟨doc', hdoc', hcontent'⟩ := bind_eq_ok_iff.1 hcontent'
    -- Both are read from the same text.
    obtain rfl : doc = doc' := Except.ok.inj (hdoc.symm.trans hdoc')
    obtain ⟨moved, hmoved, hcontent⟩ := bind_eq_ok_iff.1 hcontent
    obtain ⟨own, hown, hcontent'⟩ := bind_eq_ok_iff.1 hcontent'
    cases hcontent
    cases hcontent'
    exact .some (DocComment.movedWithin_of_placedIn h hown hmoved)

/-! ## Walks -/

namespace Walker

theorem twins_moved (w : Walker) (origin : Extent) (markup : Option MarkupReader) :
    Twins (.ofReaders markup markup) (w.under (some origin) markup) (w.under none markup) Eq
      (fun _ => False) (Entry.MovedBy origin) :=
  twins_under ⟨fun _ => .none, agree_content_moved⟩

/-- **Under an offset, tags and fences keep their columns on the later rows of a comment.** The
outline under an offset is the one without it, moved together with the contents of comments; and
there a tag or a fence is moved by the offset like an entry exactly if the offset has no column or
the tag or fence lies on the first row of its comment. -/
theorem contents_under_offset {w : Walker} {origin : Extent} {markup : Option MarkupReader}
    {root : Place} {entries entries' : List Entry}
    (h : ((w.under (some origin) markup).visitRoot root).outcome = .ok entries)
    (h' : ((w.under none markup).visitRoot root).outcome = .ok entries') :
    List.Forall₂ (Entry.MovedBy origin) entries entries' ∧
      ∀ {comment moved own : Extent}, Extent.MovedWithin comment origin moved own →
        (own.shifted origin = .ok moved ↔ origin.location.column.start = 0 ∨
          own.location.row.start = comment.location.row.start ∧
            own.location.row.stop = comment.location.row.start) := by
  refine ⟨?_, fun hmoved => hmoved.shifted_iff⟩
  have houtcome := ((twins_moved w origin markup).visitRoot (p := root) rfl).outcome
  rwa [h, h'] at houtcome

/-- A class with two tags: `/** @a b`, and on the next row ` * @c d */ class E {}` -/
def taggedClass : Tree :=
  .node ⟨"program", 0, 30, ⟨0, 0⟩, ⟨1, 21⟩, false⟩ [
    .node ⟨"comment", 0, 19, ⟨0, 0⟩, ⟨1, 10⟩, false⟩ [],
    .node ⟨"class_declaration", 20, 30, ⟨1, 11⟩, ⟨1, 21⟩, false⟩ []]

def forTaggedClass : Walker :=
  .ofText .javaScript "/** @a b\n * @c d */ class E {}"

/-- All tags of an outline. -/
def tagsOf (entries : List Entry) : List DocTag :=
  (Entry.preorderList entries).flatMap fun e => (e.comment.map (·.tags)).getD []

/-- Where the two tags are. -/
def taggedExtents : List Extent :=
  [⟨⟨4, 8, by decide⟩, ⟨⟨0, 0⟩, ⟨4, 8⟩⟩⟩, ⟨⟨12, 16, by decide⟩, ⟨⟨1, 1⟩, ⟨3, 7⟩⟩⟩]

/-- Where they are further on: the first one has moved with its columns, the second one without. -/
def taggedExtentsFurtherOn : List Extent :=
  [⟨⟨104, 108, by decide⟩, ⟨⟨3, 3⟩, ⟨8, 12⟩⟩⟩, ⟨⟨112, 116, by decide⟩, ⟨⟨4, 4⟩, ⟨3, 7⟩⟩⟩]

theorem extents_taggedClass :
    ∃ entries entries',
      ((forTaggedClass.under (some furtherOn) (some Comment.read)).visitRoot
        (.ofRoot taggedClass)).outcome = .ok entries ∧
      ((forTaggedClass.under none (some Comment.read)).visitRoot (.ofRoot taggedClass)).outcome =
        .ok entries' ∧
      (tagsOf entries).map (·.extent) = taggedExtentsFurtherOn ∧
      (tagsOf entries').map (·.extent) = taggedExtents := by
  obtain ⟨entries, hentries, hmoved⟩ : ∃ entries,
      ((forTaggedClass.under (some furtherOn) (some Comment.read)).visitRoot
        (.ofRoot taggedClass)).outcome = .ok entries ∧
        ((tagsOf entries).map (·.extent) == taggedExtentsFurtherOn) = true :=
    Walk.exists_ok_of_any (by decide +kernel)
  obtain ⟨entries', hentries', hown⟩ : ∃ entries',
      ((forTaggedClass.under none (some Comment.read)).visitRoot (.ofRoot taggedClass)).outcome =
        .ok entries' ∧ ((tagsOf entries').map (·.extent) == taggedExtents) = true :=
    Walk.exists_ok_of_any (by decide +kernel)
  exact ⟨entries, entries', hentries, hentries', beq_iff_eq.1 hmoved, beq_iff_eq.1 hown⟩

theorem contents_under_offset_taggedClass :
    ∃ entries entries',
      ((forTaggedClass.under (some furtherOn) (some Comment.read)).visitRoot
        (.ofRoot taggedClass)).outcome = .ok entries ∧
      ((forTaggedClass.under none (some Comment.read)).visitRoot (.ofRoot taggedClass)).outcome =
        .ok entries' ∧
      (tagsOf entries).length = 2 ∧ List.Forall₂ (Entry.MovedBy furtherOn) entries entries' := by
  obtain ⟨entries, entries', h, h', htags, -⟩ := extents_taggedClass
  refine ⟨entries, entries', h, h', ?_, (contents_under_offset h h').1⟩
  have hlength := congrArg List.length htags
  rwa [List.length_map] at hlength

/-- The tags of an outline are not moved by the offset as its entries are. -/
theorem tags_not_shifted :
    ¬ ∀ (w : Walker) (origin : Extent) (markup : Option MarkupReader) (root : Place)
      (entries entries' : List Entry),
      ((w.under (some origin) markup).visitRoot root).outcome = .ok entries →
      ((w.under none markup).visitRoot root).outcome = .ok entries' →
      List.Forall₂ (fun moved own => own.shifted origin = .ok moved)
        ((tagsOf entries).map (·.extent)) ((tagsOf entries').map (·.extent)) := by
  intro hall
  obtain ⟨entries, entries', h, h', htags, htags'⟩ := extents_taggedClass
  have hshifted := hall _ _ _ _ _ _ h h'
  rw [htags, htags'] at hshifted
  cases hshifted with
  | cons _ hrest =>
    cases hrest with
    | cons hsecond _ => exact absurd hsecond (by decide)

end Walker

end DocOutline
