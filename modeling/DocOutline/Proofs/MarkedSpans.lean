import DocOutline.Proofs.FileCoordinates

/-!
# What stands at a tag or a fence

The places of tags and fences are found by counting what was cut off in front of them. That the
counts are right shows in the text itself: it is cut where characters begin, at each place stands
the mark by which the tag or the fence was recognised, and no two places overlap
(`Comment.read_places`).
-/

namespace DocOutline

open Text

/-! ## Places in a text -/

namespace Text

/-- The text has `part` at byte `offset`. -/
def StandsAt (text : List Char) (offset : Nat) (part : List Char) : Prop :=
  ∃ before after, text = before ++ part ++ after ∧ byteLength before = offset

namespace StandsAt

variable {text part mark : List Char} {offset : Nat}

theorem of_isPrefix (hmark : mark <+: part) (h : StandsAt text offset part) :
    StandsAt text offset mark := by
  obtain ⟨before, after, rfl, hoffset⟩ := h
  obtain ⟨rest, rfl⟩ := hmark
  exact ⟨before, rest ++ after, by simp only [List.append_assoc], hoffset⟩

theorem of_isSuffix {rest : List Char} (hrest : rest <:+ part) (h : StandsAt text offset part) :
    StandsAt text (offset + (byteLength part - byteLength rest)) rest := by
  obtain ⟨before, after, rfl, hoffset⟩ := h
  obtain ⟨front, rfl⟩ := hrest
  refine ⟨before ++ front, after, by simp only [List.append_assoc], ?_⟩
  rw [byteLength_append, byteLength_append, hoffset, Nat.add_sub_cancel]

/-- Where a part ends, the text can be cut. -/
theorem stop (h : StandsAt text offset part) : StandsAt text (offset + byteLength part) [] :=
  h.of_isSuffix List.nil_suffix

end StandsAt

theorem eq_nil_of_byteLength_eq_zero {cs : List Char} (h : byteLength cs = 0) : cs = [] := by
  cases cs with
  | nil => rfl
  | cons c cs =>
    have hpos := c.utf8Size_pos
    rw [byteLength] at h
    omega

/-- Of two beginnings of a text, the one with fewer bytes begins the other. -/
theorem isPrefix_of_byteLength_le {a b text : List Char} (ha : a <+: text) (hb : b <+: text)
    (hle : byteLength a ≤ byteLength b) : a <+: b := by
  rcases List.prefix_or_prefix_of_prefix ha hb with h | h
  · exact h
  · obtain ⟨rest, rfl⟩ := h
    rw [byteLength_append] at hle
    have hrest : rest = [] := eq_nil_of_byteLength_eq_zero (by omega)
    simp only [hrest, List.append_nil, List.prefix_refl]

end Text

/-! ## Marked spans -/

/-- The span can be cut out of the text, and what is cut out begins with one of the marks. -/
def BeginsWith (text : List Char) (marks : List (List Char)) (span : Nat × Nat) : Prop :=
  ∃ piece, slice? text span.1 span.2 = some piece ∧ ∃ mark ∈ marks, mark <+: piece

/-- The mark stands at the start of the span and does not reach beyond its end. -/
structure Marked (text mark : List Char) (span : Nat × Nat) : Prop where
  start : StandsAt text span.1 mark
  le_stop : span.1 + byteLength mark ≤ span.2
  stop : StandsAt text span.2 []

namespace Marked

variable {text mark : List Char} {span : Nat × Nat}

theorem extend (h : Marked text mark span) {stop : Nat} (hle : span.2 ≤ stop)
    (hstop : StandsAt text stop []) : Marked text mark (span.1, stop) :=
  ⟨h.start, Nat.le_trans h.le_stop hle, hstop⟩

theorem beginsWith (h : Marked text mark span) {marks : List (List Char)} (hmark : mark ∈ marks) :
    BeginsWith text marks span := by
  obtain ⟨⟨before, after, htext, hstart⟩, hle, ⟨whole, rest, htext', hstop⟩⟩ := h
  rw [List.append_nil] at htext'
  obtain ⟨more, hmore⟩ : before ++ mark <+: whole := by
    apply isPrefix_of_byteLength_le ⟨after, htext.symm⟩ ⟨rest, htext'.symm⟩
    rwa [byteLength_append, hstart, hstop]
  refine ⟨mark ++ more, ?_, mark, hmark, List.prefix_append _ _⟩
  rw [← hstart, ← hstop, htext', ← hmore, List.append_assoc before]
  exact slice?_append before (mark ++ more) rest

end Marked

namespace Comment

/-! ## Lines -/

namespace Line

variable {text : List Char}

theorem standsAt_ofPiece {offset : Nat} {piece : List Char} (h : StandsAt text offset piece) :
    StandsAt text (ofPiece offset piece).start (ofPiece offset piece).body :=
  ((h.of_isPrefix (dropEndWhile_isPrefix _ piece)).of_isSuffix (dropOpening_isSuffix _)).of_isPrefix
    (dropClosing_isPrefix _)

theorem standsAt_ofPieces {offset : Nat} {parts : List (List Char)}
    (h : StandsAt text offset parts.flatten) :
    ∀ line ∈ ofPieces offset parts, StandsAt text line.start line.body := by
  induction parts generalizing offset with
  | nil => exact List.forall_mem_nil _
  | cons piece parts ih =>
    rw [List.flatten_cons] at h
    refine List.forall_mem_cons.2
      ⟨standsAt_ofPiece (h.of_isPrefix (List.prefix_append _ _)), ih ?_⟩
    have hrest := h.of_isSuffix (List.suffix_append piece _)
    rwa [byteLength_append, Nat.add_sub_cancel] at hrest

/-- The body of every line stands in the text where the line says. -/
theorem standsAt_ofText (text : List Char) :
    ∀ line ∈ ofText text, StandsAt text line.start line.body := by
  apply standsAt_ofPieces
  rw [flatten_pieces]
  exact ⟨[], [], by simp, rfl⟩

/-- What the trimmed body begins with is a mark of the line. -/
theorem marked {line : Line} (h : StandsAt text line.start line.body) {mark : List Char}
    (hmark : mark <+: line.trimmed) : Marked text mark line.span := by
  refine ⟨(h.of_isSuffix (trimStart_isSuffix _)).of_isPrefix hmark, ?_, h.stop⟩
  have hmark := byteLength_le_of_sublist hmark.sublist
  have htrimmed := byteLength_le_of_sublist (trimStart_isSuffix line.body).sublist
  show line.start + (byteLength line.body - byteLength line.trimmed) + byteLength mark ≤
    line.start + byteLength line.body
  rw [trimmed] at hmark ⊢
  omega

theorem exists_marker_of_opens? {line : Line} {region : Region} (h : line.opens? = some region) :
    ∃ marker ∈ fenceMarkers, marker <+: line.trimmed := by
  obtain ⟨marker, hmarker, h⟩ := List.exists_of_findSome?_eq_some h
  obtain ⟨info, hinfo, -⟩ := Option.map_eq_some_iff.1 h
  exact ⟨marker, hmarker, info, List.isPrefixOf?_eq_some_iff_append_eq.1 hinfo⟩

end Line

theorem TagLine.isPrefix_of_read? {cs : List Char} {tag : TagLine} (h : read? cs = some tag) :
    ['@'] <+: cs := by
  obtain ⟨⟨name, after⟩, hname, -⟩ := Option.bind_eq_some_iff.1 h
  unfold name? at hname
  split at hname
  · exact ⟨_, rfl⟩
  · cases hname

/-- The marks with which a tag line begins. -/
def tagMarks : List (List Char) :=
  [['@'], ['#']]

theorem Line.exists_mark_of_read? {line : Line} {tag : TagLine}
    (h : TagLine.read? line.tagText = some tag) : ∃ mark ∈ tagMarks, mark <+: line.trimmed := by
  simp only [tagText] at h
  split at h
  · rename_i rest _ _ htrimmed _
    exact ⟨['#'], by decide, rest, htrimmed.symm⟩
  · exact ⟨['@'], by decide, TagLine.isPrefix_of_read? h⟩

/-! ## Segments -/

/-- The marks by which a segment is recognised. -/
def Segment.marks : Segment → List (List Char)
  | .prose _ => []
  | .tag _ _ _ => tagMarks
  | .fence _ => fenceMarkers

/-- A segment with a span has one of its marks there. -/
def Segment.IsMarked (text : List Char) (part : Segment) : Prop :=
  ∀ span, part.span? = some span → ∃ mark ∈ part.marks, Marked text mark span

theorem Line.isMarked_segment {text : List Char} {line : Line}
    (h : StandsAt text line.start line.body) : line.segment.IsMarked text := by
  unfold segment
  split
  · rename_i tag htag
    intro span hspan
    cases hspan
    obtain ⟨mark, hmem, hmark⟩ := exists_mark_of_read? htag
    exact ⟨mark, hmem, line.marked h hmark⟩
  · intro span hspan
    cases hspan

theorem Line.isMarked_of_opens? {text : List Char} {line : Line}
    (h : StandsAt text line.start line.body) {region : Region}
    (hopens : line.opens? = some region) : (Segment.fence region).IsMarked text := by
  intro span hspan
  cases hspan
  obtain ⟨marker, hmem, hmarker⟩ := exists_marker_of_opens? hopens
  exact ⟨marker, hmem, span_of_opens? hopens ▸ line.marked h hmarker⟩

/-- A block keeps its mark while later lines move its end. -/
theorem Region.isMarked_extend {text : List Char} {region : Region} {stop : Nat}
    {code : List (List Char)} (h : (Segment.fence region).IsMarked text) (hle : region.stop ≤ stop)
    (hstop : StandsAt text stop []) :
    (Segment.fence { region with stop, code }).IsMarked text := by
  intro span hspan
  cases hspan
  obtain ⟨marker, hmem, hmarker⟩ := h _ rfl
  exact ⟨marker, hmem, hmarker.extend hle hstop⟩

/-- The lines that follow an open block come after it, so every segment is marked. -/
theorem isMarked_segments {text : List Char} {high : Nat} {lines : List Line} {low : Nat}
    (hfollow : Follow low high (lines.map Line.span))
    (hlines : ∀ line ∈ lines, StandsAt text line.start line.body) :
    (∀ part ∈ segments none lines, part.IsMarked text) ∧
      ∀ region : Region, (Segment.fence region).IsMarked text → region.stop ≤ low →
        ∀ part ∈ segments (some region) lines, part.IsMarked text := by
  induction lines generalizing low with
  | nil => exact ⟨List.forall_mem_nil _, fun region h _ => List.forall_mem_singleton.2 h⟩
  | cons line rest ih =>
    obtain ⟨hlow, hspan, hfollow⟩ := hfollow
    obtain ⟨hline, hlines⟩ := List.forall_mem_cons.1 hlines
    obtain ⟨ihNone, ihSome⟩ := ih hfollow hlines
    constructor
    · rw [segments]
      split
      · rename_i region hopens
        exact ihSome region (Line.isMarked_of_opens? hline hopens)
          (Nat.le_of_eq (Prod.mk.inj (Line.span_of_opens? hopens)).2)
      · exact List.forall_mem_cons.2 ⟨Line.isMarked_segment hline, ihNone⟩
    · intro region hregion hstop
      have hextended : ∀ code,
          (Segment.fence { region with stop := line.stop, code }).IsMarked text := fun _ =>
        Region.isMarked_extend hregion (Nat.le_trans hstop (Nat.le_trans hlow hspan)) hline.stop
      rw [segments]
      split
      · exact List.forall_mem_cons.2 ⟨hextended _, ihNone⟩
      · exact ihSome _ (hextended _) (Nat.le_refl _)

theorem isMarked_parts (text : String) : ∀ part ∈ parts text, part.IsMarked text.toList :=
  (isMarked_segments (Line.follow_ofText text.toList) (Line.standsAt_ofText text.toList)).1

theorem exists_mark_of_mem_spans {text : String} {span : Nat × Nat}
    (h : span ∈ (parts text).filterMap Segment.span?) :
    ∃ mark ∈ tagMarks ++ fenceMarkers, Marked text.toList mark span := by
  obtain ⟨part, hpart, hspan⟩ := List.mem_filterMap.1 h
  obtain ⟨mark, hmem, hmark⟩ := isMarked_parts text part hpart span hspan
  refine ⟨mark, ?_, hmark⟩
  cases part with
  | prose body => cases hspan
  | tag tag start stop => exact List.mem_append_left _ hmem
  | fence region => exact List.mem_append_right _ hmem

theorem exists_mark_of_mem_codeRegions {text : String} {region : Region}
    (h : region ∈ codeRegions (parts text)) :
    ∃ mark ∈ fenceMarkers, Marked text.toList mark region.span := by
  obtain ⟨part, hpart, hregion⟩ := List.mem_filterMap.1 h
  cases part with
  | prose body => cases hregion
  | tag tag start stop => cases hregion
  | fence block =>
    cases (Option.ite_none_right_eq_some.1 hregion).2
    exact isMarked_parts text _ hpart _ rfl

/-! ## Order -/

/-- The first span starts earlier, and ends before the second one starts. -/
def Precedes (a b : Nat × Nat) : Prop :=
  a.1 < b.1 ∧ a.2 ≤ b.1

/-- The spans share no byte. -/
def Apart (a b : Nat × Nat) : Prop :=
  a.2 ≤ b.1 ∨ b.2 ≤ a.1

theorem Apart.symm {a b : Nat × Nat} (h : Apart a b) : Apart b a :=
  Or.symm h

/-- No span is empty, since there is a mark in it. -/
theorem pairwise_precedes_spans (text : String) :
    ((parts text).filterMap Segment.span?).Pairwise Precedes := by
  refine (follow_segments_ofText text.toList).pairwise.imp_of_mem fun {a b} ha _ hle => ⟨?_, hle⟩
  obtain ⟨mark, hmem, hmark⟩ := exists_mark_of_mem_spans ha
  have hpos : ∀ mark ∈ tagMarks ++ fenceMarkers, 0 < byteLength mark := by decide
  have hmark := hmark.le_stop
  have hpos := hpos mark hmem
  omega

/-- **The places of tags and fences**: a comment is read without a fault, the rows and columns of
each tag and fence are those of its bytes, tags and fences each come in the order of the text, no
two of them overlap, and each begins with a mark. -/
theorem read_places {text : String} (hsize : byteLength text.toList < UInt32.size) :
    ∃ doc, read text = .ok doc ∧
      (∀ x ∈ doc.extents, x.location = ((LineIndex.ofText text).extent x.position).location) ∧
      (doc.tags.map (·.extent.bytes)).Pairwise Precedes ∧
      (doc.fences.map (·.extent.bytes)).Pairwise Precedes ∧
      (doc.extents.map Extent.bytes).Pairwise Apart ∧
      (∀ fence ∈ doc.fences, BeginsWith text.toList fenceMarkers fence.extent.bytes) ∧
      ∀ tag ∈ doc.tags, BeginsWith text.toList (tagMarks ++ fenceMarkers) tag.extent.bytes := by
  obtain ⟨doc, hread, hfrom⟩ := exists_readFrom hsize
  obtain ⟨hbytes, hextent⟩ := hfrom.bytes_extents hsize
  obtain ⟨htags, -⟩ := hfrom.bytes_tags hsize
  obtain ⟨hfences, -⟩ := hfrom.bytes_fences hsize
  rw [List.map_map] at htags hfences
  have horder := pairwise_precedes_spans text
  refine ⟨doc, hread, ?_, ?_, ?_, ?_, ?_, ?_⟩
  · intro x hx
    rw [← hextent x hx]
  · exact htags ▸ horder.sublist (sections_sublist _)
  · exact hfences ▸ horder.sublist (codeRegions_sublist _)
  · rw [hbytes, (sections_append_codeRegions_perm _).pairwise_iff Apart.symm]
    exact horder.imp fun h => .inl h.2
  · intro fence hfence
    have hmem : fence.extent.bytes ∈ (codeRegions (parts text)).map Region.span := by
      rw [← hfences]
      exact List.mem_map_of_mem hfence
    obtain ⟨region, hregion, hspan⟩ := List.mem_map.1 hmem
    obtain ⟨mark, hmark, hmarked⟩ := exists_mark_of_mem_codeRegions hregion
    exact hspan ▸ hmarked.beginsWith hmark
  · intro tag htag
    have hmem : tag.extent.bytes ∈ (sections (parts text)).2.map TagDraft.span := by
      rw [← htags]
      exact List.mem_map_of_mem htag
    obtain ⟨mark, hmark, hmarked⟩ :=
      exists_mark_of_mem_spans ((sections_sublist _).subset hmem)
    exact hmarked.beginsWith hmark

/-- A header with a tag, a block that stands for a tag, a tag, and a block that is not closed. -/
def mixedMarks : String :=
  "/** é\r\n * ## @a b\n * ~~~@c\n * ü\n * ~~~\n * @d\n * ``` ts\n * f()\n */"

theorem read_places_mixedMarks :
    byteLength mixedMarks.toList < UInt32.size ∧
      ∃ doc, read mixedMarks = .ok doc ∧
        doc.tags.map (·.extent.bytes) = [(11, 18), (22, 40), (44, 46)] ∧
        doc.fences.map (·.extent.bytes) = [(50, 65)] ∧
        (doc.tags.map (·.extent.bytes)).Pairwise Precedes ∧
        (doc.extents.map Extent.bytes).Pairwise Apart ∧
        (∀ fence ∈ doc.fences, BeginsWith mixedMarks.toList fenceMarkers fence.extent.bytes) ∧
        ∀ tag ∈ doc.tags,
          BeginsWith mixedMarks.toList (tagMarks ++ fenceMarkers) tag.extent.bytes := by
  have hsize : byteLength mixedMarks.toList < UInt32.size := by decide +kernel
  obtain ⟨doc, hread, -, htags, -, hapart, hfence, htag⟩ := read_places hsize
  have hany : ((read mixedMarks).toOption.any fun doc =>
      doc.tags.map (·.extent.bytes) == [(11, 18), (22, 40), (44, 46)] &&
        doc.fences.map (·.extent.bytes) == [(50, 65)]) = true := by decide +kernel
  rw [hread] at hany
  obtain ⟨hbytesTags, hbytesFences⟩ := Bool.and_eq_true_iff.1 hany
  exact ⟨hsize, doc, hread, beq_iff_eq.1 hbytesTags, beq_iff_eq.1 hbytesFences, htags, hapart,
    hfence, htag⟩

end Comment

end DocOutline
