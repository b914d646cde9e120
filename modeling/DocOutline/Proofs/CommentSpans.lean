import DocOutline.Proofs.LineStarts
import DocOutline.Proofs.Segments
import Mathlib.Data.List.Basic

/-!
# Where the parts of a comment are

The offsets of tags and fences come from lengths: a line loses its gutter, the blanks around it and
the mark that closes the comment, and what is left is counted. Here these counts are shown to be
places of the text. The bodies of the lines follow one another in it (`Line.follow_ofText`), so do
the tags and fences (`follow_segments`), and a comment of any text whose bytes can be counted in 32
bits is read without a fault (`exists_readFrom`).
-/

namespace DocOutline

open Text

/-! ## Parts of a text -/

namespace Text

theorem byteLength_le_of_sublist {a b : List Char} (h : a.Sublist b) :
    byteLength a ≤ byteLength b := by
  induction h with
  | slnil => exact Nat.le_refl _
  | cons c _ ih => exact Nat.le_trans ih (Nat.le_add_left _ _)
  | cons_cons c _ ih => exact Nat.add_le_add_left ih _

theorem dropEndWhile_isPrefix (p : Char → Bool) (cs : List Char) : dropEndWhile p cs <+: cs := by
  rw [dropEndWhile, ← List.reverse_suffix, List.reverse_reverse]
  exact List.dropWhile_suffix p

theorem trimStart_isSuffix (cs : List Char) : trimStart cs <:+ cs :=
  List.dropWhile_suffix _

theorem trimEnd_isPrefix (cs : List Char) : trimEnd cs <+: cs :=
  dropEndWhile_isPrefix _ _

theorem isSuffix_of_isPrefixOf? {mark cs rest : List Char} (h : mark.isPrefixOf? cs = some rest) :
    rest <:+ cs :=
  ⟨mark, List.isPrefixOf?_eq_some_iff_append_eq.1 h⟩

theorem dropMark_isSuffix (mark cs : List Char) : dropMark mark cs <:+ cs := by
  unfold dropMark
  cases h : mark.isPrefixOf? cs with
  | none => exact List.suffix_refl _
  | some rest => exact isSuffix_of_isPrefixOf? h

end Text

/-! ## Spans in order -/

/-- The spans follow one another between `low` and `high`. -/
def Follow (low high : Nat) : List (Nat × Nat) → Prop
  | [] => low ≤ high
  | (start, stop) :: rest => low ≤ start ∧ start ≤ stop ∧ Follow stop high rest

namespace Follow

variable {low high : Nat} {spans : List (Nat × Nat)}

theorem of_le {low' : Nat} (hlow : low' ≤ low) (h : Follow low high spans) :
    Follow low' high spans := by
  cases spans with
  | nil => exact Nat.le_trans hlow h
  | cons span rest => exact ⟨Nat.le_trans hlow h.1, h.2⟩

theorem sublist {spans' : List (Nat × Nat)} (hsub : spans'.Sublist spans)
    (h : Follow low high spans) : Follow low high spans' := by
  induction hsub generalizing low with
  | slnil => exact h
  | cons span _ ih => exact ih (h.2.2.of_le (Nat.le_trans h.1 h.2.1))
  | cons_cons span _ ih => exact ⟨h.1, h.2.1, ih h.2.2⟩

theorem mem (h : Follow low high spans) {span : Nat × Nat} (hspan : span ∈ spans) :
    low ≤ span.1 ∧ span.1 ≤ span.2 ∧ span.2 ≤ high :=
  sublist (List.singleton_sublist.2 hspan) h

theorem pairwise (h : Follow low high spans) : spans.Pairwise fun a b => a.2 ≤ b.1 := by
  induction spans generalizing low with
  | nil => exact .nil
  | cons span rest ih => exact .cons (fun _ hmem => (h.2.2.mem hmem).1) (ih h.2.2)

end Follow

/-- The bytes of an extent, as a span. -/
def Extent.bytes (x : Extent) : Nat × Nat :=
  (x.position.start.toNat, x.position.stop.toNat)

namespace Comment

/-! ## Lines -/

namespace Line

theorem dropOpening_isSuffix (line : List Char) : dropOpening line <:+ line := by
  unfold dropOpening
  refine (dropMark_isSuffix _ _).trans (List.IsSuffix.trans ?_ (trimStart_isSuffix line))
  split
  · rename_i h
    exact isSuffix_of_isPrefixOf? h
  · split
    · exact List.suffix_refl _
    · exact dropMark_isSuffix _ _

theorem dropClosing_isPrefix (line : List Char) : dropClosing line <+: line := by
  refine List.IsPrefix.trans ?_ (trimEnd_isPrefix line)
  simp only [dropClosing]
  split
  · rename_i shorter h
    have hshorter : shorter <+: trimEnd line := ⟨_, List.isSuffixOf?_eq_some_iff_append_eq.1 h⟩
    exact (trimEnd_isPrefix shorter).trans hshorter
  · exact List.prefix_refl _

/-- The trimmed body of a line, as a span of the text. -/
def span (line : Line) : Nat × Nat :=
  (line.textStart, line.stop)

theorem start_le_textStart (line : Line) : line.start ≤ line.textStart :=
  Nat.le_add_right _ _

theorem textStart_le_stop (line : Line) : line.textStart ≤ line.stop :=
  Nat.add_le_add_left (Nat.sub_le _ _) _

/-- The body of a line lies inside the piece it comes from. -/
theorem ofPiece_bounds (offset : Nat) (piece : List Char) :
    offset ≤ (ofPiece offset piece).start ∧
      (ofPiece offset piece).stop ≤ offset + byteLength piece := by
  simp only [ofPiece, stop]
  have hpiece := byteLength_le_of_sublist
    (dropEndWhile_isPrefix (fun c => c == '\n' || c == '\r') piece).sublist
  generalize dropEndWhile (fun c => c == '\n' || c == '\r') piece = line at hpiece ⊢
  have hopening := byteLength_le_of_sublist (dropOpening_isSuffix line).sublist
  have hclosing := byteLength_le_of_sublist (dropClosing_isPrefix (dropOpening line)).sublist
  omega

theorem follow_ofPieces (offset : Nat) (parts : List (List Char)) :
    Follow offset (offset + byteLength parts.flatten) ((ofPieces offset parts).map span) := by
  induction parts generalizing offset with
  | nil => exact Nat.le_add_right _ _
  | cons piece parts ih =>
    obtain ⟨hstart, hstop⟩ := ofPiece_bounds offset piece
    rw [List.flatten_cons, byteLength_append, ← Nat.add_assoc]
    exact ⟨Nat.le_trans hstart (start_le_textStart _), textStart_le_stop _, (ih _).of_le hstop⟩

/-- The lines of a text follow one another in the text. -/
theorem follow_ofText (text : List Char) :
    Follow 0 (byteLength text) ((ofText text).map span) := by
  have h := follow_ofPieces 0 (pieces text)
  rwa [flatten_pieces, Nat.zero_add] at h

end Line

/-! ## Segments -/

def Region.span (region : Region) : Nat × Nat :=
  (region.start, region.stop)

/-- The span of a tag line or a block. -/
def Segment.span? : Segment → Option (Nat × Nat)
  | .prose _ => none
  | .tag _ start stop => some (start, stop)
  | .fence region => some region.span

theorem Line.span_of_opens? {line : Line} {region : Region} (h : line.opens? = some region) :
    region.span = line.span := by
  obtain ⟨marker, -, h⟩ := List.exists_of_findSome?_eq_some h
  obtain ⟨info, -, rfl⟩ := Option.map_eq_some_iff.1 h
  rfl

/-- The spans of segments follow one another where the lines do. The block that is open, if any, has
begun before the lines, and ends with one of them or before. -/
theorem follow_segments {high : Nat} {lines : List Line} {low : Nat}
    (h : Follow low high (lines.map Line.span)) :
    Follow low high ((segments none lines).filterMap Segment.span?) ∧
      ∀ region : Region, region.start ≤ region.stop → region.stop ≤ low →
        Follow region.start high ((segments (some region) lines).filterMap Segment.span?) := by
  induction lines generalizing low with
  | nil => exact ⟨h, fun region hregion hlow => ⟨Nat.le_refl _, hregion, Nat.le_trans hlow h⟩⟩
  | cons line rest ih =>
    obtain ⟨hlow, hline, hrest⟩ := h
    obtain ⟨ihNone, ihSome⟩ := ih hrest
    constructor
    · rw [segments]
      split
      · -- A block that is opened has the span of the line, until a later line moves its end.
        rename_i region hopens
        obtain ⟨hstart, hstop⟩ := Prod.mk.inj (Line.span_of_opens? hopens)
        refine (ihSome region ?_ (Nat.le_of_eq hstop)).of_le ?_
        · rwa [hstart, hstop]
        · rwa [hstart]
      · unfold Line.segment
        split
        · exact ⟨hlow, hline, ihNone⟩
        · exact ihNone.of_le (Nat.le_trans hlow hline)
    · intro region hregion hstop
      have hstart : region.start ≤ line.stop := by omega
      rw [segments]
      split
      · exact ⟨Nat.le_refl _, hstart, ihNone⟩
      · exact ihSome { region with stop := line.stop, code := _ } hstart (Nat.le_refl _)

theorem follow_segments_ofText (text : List Char) :
    Follow 0 (byteLength text)
      ((segments none (Line.ofText text)).filterMap Segment.span?) :=
  (follow_segments (Line.follow_ofText text)).1

/-! ## Tags and fences -/

def TagDraft.span (draft : TagDraft) : Nat × Nat :=
  (draft.start, draft.stop)

/-- Every tag has the span of a segment. -/
theorem sections_sublist (parts : List Segment) :
    ((sections parts).2.map TagDraft.span).Sublist (parts.filterMap Segment.span?) := by
  induction parts with
  | nil => exact .slnil
  | cons part rest ih =>
    cases part with
    | prose body => exact ih
    | tag tag start stop => exact ih.cons_cons _
    | fence region =>
      simp only [sections]
      split
      · exact ih.cons_cons _
      · exact ih.cons _

/-- Every block of code has the span of a segment. -/
theorem codeRegions_sublist (parts : List Segment) :
    ((codeRegions parts).map Region.span).Sublist (parts.filterMap Segment.span?) := by
  induction parts with
  | nil => exact .slnil
  | cons part rest ih =>
    cases part with
    | prose body => exact ih
    | tag tag start stop => exact ih.cons _
    | fence region =>
      simp only [codeRegions, List.filterMap_cons] at ih ⊢
      split_ifs
      · exact ih.cons_cons _
      · exact ih.cons _

/-- Every segment with a span is either a tag or a block of code. -/
theorem sections_append_codeRegions_perm (parts : List Segment) :
    ((sections parts).2.map TagDraft.span ++ (codeRegions parts).map Region.span).Perm
      (parts.filterMap Segment.span?) := by
  induction parts with
  | nil => exact .nil
  | cons part rest ih =>
    cases part with
    | prose body => exact ih
    | tag tag start stop => exact ih.cons _
    | fence region =>
      simp only [sections, codeRegions, List.filterMap_cons] at ih ⊢
      cases hname : region.tagName? with
      | some name => exact ih.cons _
      | none => exact List.perm_middle.trans (ih.cons _)

/-! ## Reading -/

/-- Two offsets in order are the ends of an extent. -/
theorem exists_extentBetween (index : LineIndex) {span : Nat × Nat} (hspan : span.1 ≤ span.2)
    (hsize : span.2 < UInt32.size) :
    ∃ x, extentBetween index span.1 span.2 = .ok x ∧ x.bytes = span ∧
      x = index.extent x.position := by
  have hstart : span.1.toUInt32.toNat = span.1 := UInt32.toNat_ofNat_of_lt (by omega)
  have hstop : span.2.toUInt32.toNat = span.2 := UInt32.toNat_ofNat_of_lt (by omega)
  have hle : span.1.toUInt32 ≤ span.2.toUInt32 := by rwa [UInt32.le_iff_toNat_le, hstart, hstop]
  refine ⟨index.extent ⟨_, _, hle⟩, ?_, Prod.ext hstart hstop, rfl⟩
  rw [extentBetween, ByteRange.between, dif_pos hle]
  rfl

/-- The content of a comment comes from its segments, tag by tag and fence by fence. -/
structure ReadFrom (text : String) (doc : DocComment) : Prop where
  style : doc.style = markupStyle text
  description : doc.description = String.ofList (joinProse (sections (parts text)).1)
  tags : List.Forall₂ (fun draft tag => TagDraft.finish (LineIndex.ofText text) draft = .ok tag)
    (sections (parts text)).2 doc.tags
  fences : List.Forall₂
    (fun region fence => Region.finish (LineIndex.ofText text) region = .ok fence)
    (codeRegions (parts text)) doc.fences

theorem TagDraft.extent_of_finish {index : LineIndex} {draft : TagDraft} {tag : DocTag}
    (h : draft.finish index = .ok tag) :
    extentBetween index draft.span.1 draft.span.2 = .ok tag.extent := by
  obtain ⟨x, hx, h⟩ := bind_eq_ok_iff.1 h
  cases h
  exact hx

theorem Region.extent_of_finish {index : LineIndex} {region : Region} {fence : CodeFence}
    (h : region.finish index = .ok fence) :
    extentBetween index region.span.1 region.span.2 = .ok fence.extent := by
  obtain ⟨x, hx, h⟩ := bind_eq_ok_iff.1 h
  cases h
  exact hx

section Reading

variable {text : String} (hsize : byteLength text.toList < UInt32.size)

include hsize

theorem exists_extent_of_span {span : Nat × Nat} (h : span ∈ (parts text).filterMap Segment.span?) :
    ∃ x, extentBetween (LineIndex.ofText text) span.1 span.2 = .ok x ∧ x.bytes = span ∧
      x = (LineIndex.ofText text).extent x.position := by
  obtain ⟨-, hle, hstop⟩ := (follow_segments_ofText text.toList).mem h
  exact exists_extentBetween _ hle (by omega)

/-- **Every comment is read.** -/
theorem exists_readFrom : ∃ doc, read text = .ok doc ∧ ReadFrom text doc := by
  rw [read_eq]
  obtain ⟨tags, htags, -⟩ := exists_mapM (l := (sections (parts text)).2)
      (f := TagDraft.finish (LineIndex.ofText text)) (P := fun _ => True) fun draft hdraft => by
    obtain ⟨x, hx, -⟩ := exists_extent_of_span hsize
      ((sections_sublist _).subset (List.mem_map_of_mem hdraft))
    exact ⟨_, bind_eq_ok_iff.2 ⟨x, hx, rfl⟩, trivial⟩
  obtain ⟨fences, hfences, -⟩ := exists_mapM (l := codeRegions (parts text))
      (f := Region.finish (LineIndex.ofText text)) (P := fun _ => True) fun region hregion => by
    obtain ⟨x, hx, -⟩ := exists_extent_of_span hsize
      ((codeRegions_sublist _).subset (List.mem_map_of_mem hregion))
    exact ⟨_, bind_eq_ok_iff.2 ⟨x, hx, rfl⟩, trivial⟩
  exact ⟨_, bind_eq_ok_iff.2 ⟨tags, htags, bind_eq_ok_iff.2 ⟨fences, hfences, rfl⟩⟩,
    rfl, rfl, mapM_eq_ok_iff.1 htags, mapM_eq_ok_iff.1 hfences⟩

/-- Extents that stand for spans of segments have them as their bytes. -/
theorem bytes_of_forall₂ {spans : List (Nat × Nat)} {xs : List Extent}
    (hspans : spans.Subset ((parts text).filterMap Segment.span?))
    (h : List.Forall₂
      (fun span x => extentBetween (LineIndex.ofText text) span.1 span.2 = .ok x) spans xs) :
    xs.map Extent.bytes = spans ∧ ∀ x ∈ xs, x = (LineIndex.ofText text).extent x.position := by
  induction h with
  | nil => exact ⟨rfl, List.forall_mem_nil _⟩
  | cons hx _ ih =>
    obtain ⟨hspan, hrest⟩ := List.cons_subset.1 hspans
    obtain ⟨y, hy, hbytes, hextent⟩ := exists_extent_of_span hsize hspan
    obtain ⟨ihBytes, ihExtent⟩ := ih hrest
    rw [hx] at hy
    cases hy
    exact ⟨by rw [List.map_cons, hbytes, ihBytes], List.forall_mem_cons.2 ⟨hextent, ihExtent⟩⟩

namespace ReadFrom

variable {doc : DocComment} (h : ReadFrom text doc)

include h

theorem bytes_tags :
    (doc.tags.map (·.extent)).map Extent.bytes = (sections (parts text)).2.map TagDraft.span ∧
      ∀ x ∈ doc.tags.map (·.extent), x = (LineIndex.ofText text).extent x.position := by
  apply bytes_of_forall₂ hsize (sections_sublist _).subset
  rw [List.forall₂_map_left_iff, List.forall₂_map_right_iff]
  exact h.tags.imp fun _ _ => TagDraft.extent_of_finish

theorem bytes_fences :
    (doc.fences.map (·.extent)).map Extent.bytes = (codeRegions (parts text)).map Region.span ∧
      ∀ x ∈ doc.fences.map (·.extent), x = (LineIndex.ofText text).extent x.position := by
  apply bytes_of_forall₂ hsize (codeRegions_sublist _).subset
  rw [List.forall₂_map_left_iff, List.forall₂_map_right_iff]
  exact h.fences.imp fun _ _ => Region.extent_of_finish

theorem bytes_extents :
    doc.extents.map Extent.bytes =
        (sections (parts text)).2.map TagDraft.span ++ (codeRegions (parts text)).map Region.span ∧
      ∀ x ∈ doc.extents, x = (LineIndex.ofText text).extent x.position := by
  obtain ⟨htags, hextentTags⟩ := h.bytes_tags hsize
  obtain ⟨hfences, hextentFences⟩ := h.bytes_fences hsize
  rw [DocComment.extents, List.map_append, htags, hfences, List.forall_mem_append]
  exact ⟨rfl, hextentTags, hextentFences⟩

end ReadFrom

/-- The tags and fences of a comment lie in it. -/
theorem exists_read : ∃ doc, read text = .ok doc ∧
    ∀ x ∈ doc.extents, (LineIndex.ofText text).Holds 0 (byteLength text.toList) x := by
  obtain ⟨doc, hread, hfrom⟩ := exists_readFrom hsize
  obtain ⟨hbytes, hextent⟩ := hfrom.bytes_extents hsize
  refine ⟨doc, hread, fun x hx => ⟨Nat.zero_le _, ?_, hextent x hx⟩⟩
  have hspan : x.bytes ∈ (parts text).filterMap Segment.span? := by
    rw [← (sections_append_codeRegions_perm _).mem_iff, ← hbytes]
    exact List.mem_map_of_mem hx
  exact ((follow_segments_ofText text.toList).mem hspan).2.2

end Reading

end Comment

end DocOutline
