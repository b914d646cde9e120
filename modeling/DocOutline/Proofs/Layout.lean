import DocOutline.Proofs.MarkupLines

/-!
# The layout of a comment

Comments are indented with the code they stand in, and their lines end as the file's lines do. None
of this is part of what a comment says: whatever spaces and tabs are put in front of its lines, and
whatever newlines get a carriage return, the same tags, fences and prose are read, with the same
markup style (`Comment.read_eq_of_relaid`). Only the places of the tags and fences move.
-/

namespace DocOutline

open Text

namespace Text

/-- The second piece is the first one with spaces and tabs in front, and perhaps with a carriage
return before its newline. -/
def Relaid (piece piece' : List Char) : Prop :=
  ∃ indent, (∀ c ∈ indent, isIndent c = true) ∧
    (piece' = indent ++ piece ∨
      ∃ line, piece = line ++ ['\n'] ∧ piece' = indent ++ line ++ ['\r', '\n'])

/-- The second text is made of the pieces of the first one, with other layout. -/
def RelaidText (text text' : List Char) : Prop :=
  ∃ parts, List.Forall₂ Relaid (pieces text) parts ∧ parts.flatten = text'

theorem isBlank_of_isIndent {c : Char} (h : isIndent c = true) : isBlank c = true := by
  simp only [isIndent, Bool.or_eq_true, beq_iff_eq] at h
  rcases h with rfl | rfl
  · decide
  · decide

theorem not_mem_of_isIndent {indent : List Char} (h : ∀ c ∈ indent, isIndent c = true) :
    '\n' ∉ indent :=
  fun hmem => absurd (h '\n' hmem) (by decide)

/-- A relaid line has its newline at its end. -/
theorem Relaid.exists_line {line piece' : List Char} (hline : '\n' ∉ line)
    (h : Relaid (line ++ ['\n']) piece') : ∃ line', '\n' ∉ line' ∧ piece' = line' ++ ['\n'] := by
  obtain ⟨indent, hindent, rfl | ⟨line', heq, rfl⟩⟩ := h
  · refine ⟨indent ++ line, ?_, by rw [List.append_assoc]⟩
    rw [List.mem_append, not_or]
    exact ⟨not_mem_of_isIndent hindent, hline⟩
  · obtain rfl := List.append_cancel_right heq
    refine ⟨indent ++ line ++ ['\r'], ?_, by simp only [List.append_assoc]; rfl⟩
    simp only [List.mem_append, not_or]
    exact ⟨⟨not_mem_of_isIndent hindent, hline⟩, by decide⟩

/-- The pieces of a relaid text are the relaid pieces. -/
theorem forall₂_pieces_of_relaid {text text' : List Char} (h : RelaidText text text') :
    List.Forall₂ Relaid (pieces text) (pieces text') := by
  obtain ⟨parts, hparts, rfl⟩ := h
  suffices hpieces : pieces parts.flatten = parts by rwa [hpieces]
  induction text using line_induction generalizing parts with
  | nil =>
    cases hparts
    rfl
  | last line hne hline =>
    rw [pieces_of_line hne hline] at hparts
    cases hparts with
    | cons hpiece hrest =>
      cases hrest
      obtain ⟨indent, hindent, rfl | ⟨line', rfl, -⟩⟩ := hpiece
      · rw [List.flatten_singleton]
        refine pieces_of_line (List.append_ne_nil_of_right_ne_nil _ hne) ?_
        rw [List.mem_append, not_or]
        exact ⟨not_mem_of_isIndent hindent, hline⟩
      · exact absurd (by simp) hline
  | line line rest hline ih =>
    rw [pieces_append hline] at hparts
    cases hparts with
    | cons hpiece hrest =>
      obtain ⟨line', hline', rfl⟩ := hpiece.exists_line hline
      rw [List.flatten_cons, List.append_assoc, List.singleton_append, pieces_append hline',
        ih _ hrest]

theorem dropEndWhile_append (p : Char → Bool) {front : List Char}
    (hfront : ∀ c ∈ front, p c = false) (cs : List Char) :
    dropEndWhile p (front ++ cs) = front ++ dropEndWhile p cs := by
  have hself : front.reverse.dropWhile p = front.reverse := by
    refine List.dropWhile_eq_self_iff.2 fun hlength => ?_
    rw [hfront _ (List.mem_reverse.1 (List.getElem_mem hlength))]
    exact Bool.false_ne_true
  rw [dropEndWhile, dropEndWhile, List.reverse_append, List.dropWhile_append]
  split
  · rename_i hempty
    rw [hself, List.isEmpty_iff.1 hempty, List.reverse_reverse, List.reverse_nil, List.append_nil]
  · rw [List.reverse_append, List.reverse_reverse]

end Text

namespace Comment

/-! ## Lines -/

namespace Line

theorem dropOpening_append {indent : List Char} (hindent : ∀ c ∈ indent, isIndent c = true)
    (line : List Char) : dropOpening (indent ++ line) = dropOpening line := by
  have hstart : trimStart (indent ++ line) = trimStart line :=
    List.dropWhile_append_of_pos fun c hc => isBlank_of_isIndent (hindent c hc)
  simp only [dropOpening, hstart]

/-- The layout of a line is not part of its body. -/
theorem body_ofPiece_of_relaid {piece piece' : List Char} (h : Relaid piece piece')
    (offset offset' : Nat) : (ofPiece offset piece).body = (ofPiece offset' piece').body := by
  obtain ⟨indent, hindent, hpiece⟩ := h
  have hends : ∀ c ∈ indent, (c == '\n' || c == '\r') = false := by
    intro c hc
    have hc := hindent c hc
    simp only [isIndent, Bool.or_eq_true, beq_iff_eq] at hc
    rcases hc with rfl | rfl
    · rfl
    · rfl
  obtain rfl | ⟨line, rfl, rfl⟩ := hpiece
  · simp only [ofPiece, dropEndWhile_append _ hends, dropOpening_append hindent]
  · -- Both ends are cut off the line.
    have hnewline : dropEndWhile (fun c => c == '\n' || c == '\r') (line ++ ['\n']) =
        dropEndWhile (fun c => c == '\n' || c == '\r') line := by
      simp [dropEndWhile]
    have hreturn : dropEndWhile (fun c => c == '\n' || c == '\r') (line ++ ['\r', '\n']) =
        dropEndWhile (fun c => c == '\n' || c == '\r') line := by
      simp [dropEndWhile]
    simp only [ofPiece, List.append_assoc, dropEndWhile_append _ hends, dropOpening_append hindent,
      hnewline, hreturn]

/-- The two lines differ at most in where they are. -/
def SameBody (line line' : Line) : Prop :=
  line.body = line'.body

theorem sameBody_ofPieces {parts parts' : List (List Char)} (h : List.Forall₂ Relaid parts parts')
    (offset offset' : Nat) :
    List.Forall₂ SameBody (ofPieces offset parts) (ofPieces offset' parts') := by
  induction h generalizing offset offset' with
  | nil => exact .nil
  | cons hpiece _ ih => exact .cons (body_ofPiece_of_relaid hpiece _ _) (ih _ _)

theorem SameBody.trimmed {line line' : Line} (h : SameBody line line') :
    line.trimmed = line'.trimmed :=
  congrArg trimStart h

end Line

/-! ## Segments without their places -/

def Region.bare (region : Region) : Region :=
  { region with start := 0, stop := 0 }

/-- The segment, wherever it is. -/
def Segment.bare : Segment → Segment
  | .prose body => .prose body
  | .tag line _ _ => .tag line 0 0
  | .fence region => .fence region.bare

def TagDraft.bare (draft : TagDraft) : TagDraft :=
  { draft with start := 0, stop := 0 }

theorem Line.SameBody.bare_opens? {line line' : Line} (h : Line.SameBody line line') :
    line.opens?.map Region.bare = line'.opens?.map Region.bare := by
  simp only [Line.opens?_eq, Option.map_map, Line.marker?, h.trimmed]
  congr 1
  funext marker
  simp only [Function.comp_apply, Fenced.region, Fenced.info, Region.bare, h.trimmed, List.map_nil]

theorem Line.SameBody.bare_segment {line line' : Line} (h : Line.SameBody line line') :
    line.segment.bare = line'.segment.bare := by
  have htext : line.tagText = line'.tagText := by simp only [Line.tagText, h.trimmed]
  unfold Line.segment
  rw [htext]
  split
  · rfl
  · exact congrArg (Segment.bare ∘ Segment.prose) h

theorem Region.bare_eq_iff {region region' : Region} :
    region.bare = region'.bare ↔
      region.marker = region'.marker ∧ region.info = region'.info ∧ region.code = region'.code := by
  simp [bare]

/-- Lines that are alike are read alike, with blocks that are alike open on both sides. -/
theorem bare_segments {lines lines' : List Line} (h : List.Forall₂ Line.SameBody lines lines')
    {inside inside' : Option Region} (hinside : inside.map Region.bare = inside'.map Region.bare) :
    (segments inside lines).map Segment.bare = (segments inside' lines').map Segment.bare := by
  induction h generalizing inside inside' with
  | nil =>
    have hfence : ∀ inside : Option Region, (segments inside []).map Segment.bare =
        ((inside.map Region.bare).map Segment.fence).toList := fun inside => by
      cases inside <;> rfl
    rw [hfence, hfence, hinside]
  | @cons line line' rest rest' hline _ ih =>
    match inside, inside', hinside with
    | none, none, _ =>
      have hopens := hline.bare_opens?
      rw [segments, segments]
      cases hline' : line'.opens? with
      | none =>
        rw [hline', Option.map_none, Option.map_eq_none_iff] at hopens
        simp only [hopens, List.map_cons, hline.bare_segment, ih rfl]
      | some region' =>
        rw [hline'] at hopens
        obtain ⟨region, hregion, -⟩ := Option.map_eq_some_iff.1 hopens
        rw [hregion] at hopens
        simp only [hregion]
        exact ih hopens
    | some region, some region', hinside =>
      obtain ⟨hmarker, hinfo, hcode⟩ := Region.bare_eq_iff.1 (Option.some.inj hinside)
      simp only [segments, hmarker, hline.trimmed]
      split
      · rw [List.map_cons, List.map_cons, ih rfl]
        exact congrArg (Segment.fence · :: _) (Region.bare_eq_iff.2 ⟨rfl, hinfo, hcode⟩)
      · apply ih
        exact congrArg some (Region.bare_eq_iff.2 ⟨rfl, hinfo, by rw [hcode, hline]⟩)

theorem Region.tagName?_bare (region : Region) : region.bare.tagName? = region.tagName? :=
  rfl

theorem sections_bare (parts : List Segment) :
    sections (parts.map Segment.bare) =
      ((sections parts).1, (sections parts).2.map TagDraft.bare) := by
  induction parts with
  | nil => rfl
  | cons part rest ih =>
    cases part with
    | prose body => simp only [List.map_cons, Segment.bare, sections, ih]
    | tag tag start stop =>
      simp only [List.map_cons, Segment.bare, sections, ih]
      rfl
    | fence region =>
      simp only [List.map_cons, Segment.bare, sections, Region.tagName?_bare, ih]
      cases region.tagName? with
      | none => rfl
      | some name => rfl

theorem codeRegions_bare (parts : List Segment) :
    codeRegions (parts.map Segment.bare) = (codeRegions parts).map Region.bare := by
  induction parts with
  | nil => rfl
  | cons part rest ih =>
    cases part with
    | prose body => exact ih
    | tag tag start stop => exact ih
    | fence region =>
      simp only [codeRegions, List.map_cons, Segment.bare, List.filterMap_cons,
        Region.tagName?_bare] at ih ⊢
      by_cases hname : region.tagName?.isNone = true
      · simp only [hname, if_true, List.map_cons, ih]
      · simp only [hname, Bool.false_eq_true, if_false, ih]

end Comment

/-! ## What is read -/

/-- The contents are the same, apart from where the tags and the fences are. -/
structure DocComment.SaysSame (doc doc' : DocComment) : Prop where
  style : doc.style = doc'.style
  description : doc.description = doc'.description
  tags : List.Forall₂ (fun tag tag' => tag = { tag' with extent := tag.extent }) doc.tags doc'.tags
  fences : List.Forall₂ (fun fence fence' => fence = { fence' with extent := fence.extent })
    doc.fences doc'.fences

namespace Comment

theorem TagDraft.finish_of_bare_eq {index index' : LineIndex} {draft draft' : TagDraft}
    (hbare : draft.bare = draft'.bare) {tag tag' : DocTag} (h : draft.finish index = .ok tag)
    (h' : draft'.finish index' = .ok tag') : tag = { tag' with extent := tag.extent } := by
  obtain ⟨x, -, h⟩ := bind_eq_ok_iff.1 h
  obtain ⟨x', -, h'⟩ := bind_eq_ok_iff.1 h'
  cases h
  cases h'
  obtain ⟨line, start, stop, prose⟩ := draft
  obtain ⟨line', start', stop', prose'⟩ := draft'
  cases hbare
  rfl

theorem Region.finish_of_bare_eq {index index' : LineIndex} {region region' : Region}
    (hbare : region.bare = region'.bare) {fence fence' : CodeFence}
    (h : region.finish index = .ok fence) (h' : region'.finish index' = .ok fence') :
    fence = { fence' with extent := fence.extent } := by
  obtain ⟨-, hinfo, hcode⟩ := Region.bare_eq_iff.1 hbare
  obtain ⟨x, -, h⟩ := bind_eq_ok_iff.1 h
  obtain ⟨x', -, h'⟩ := bind_eq_ok_iff.1 h'
  cases h
  cases h'
  simp only [hinfo, Region.text, hcode]

/-- Results made from lists that are alike under `f` are alike. -/
theorem forall₂_of_map_eq {α β γ : Type} {f : α → γ} {P P' : α → β → Prop} {R : β → β → Prop}
    {as as' : List α} {bs bs' : List β} (hf : as.map f = as'.map f) (h : List.Forall₂ P as bs)
    (h' : List.Forall₂ P' as' bs')
    (hR : ∀ a a' b b', f a = f a' → P a b → P' a' b' → R b b') : List.Forall₂ R bs bs' := by
  induction h generalizing as' bs' with
  | nil =>
    cases h' with
    | nil => exact .nil
    | cons _ _ => cases hf
  | cons hab _ ih =>
    cases h' with
    | nil => cases hf
    | cons hab' h' =>
      obtain ⟨hhead, hrest⟩ := List.cons.inj hf
      exact .cons (hR _ _ _ _ hhead hab hab') (ih hrest h')

/-- What does not depend on the layout of a line does not depend on the layout of the lines. -/
theorem any_eq_of_relaid {p : List Char → Bool}
    (hstart : ∀ {indent : List Char}, (∀ c ∈ indent, isIndent c = true) →
      ∀ line, p (indent ++ line) = p line)
    (hend : ∀ {c : Char}, Foreign c → ∀ line rest, p (line ++ c :: rest) = p line)
    {parts parts' : List (List Char)} (h : List.Forall₂ Relaid parts parts') :
    parts.any p = parts'.any p := by
  induction h with
  | nil => rfl
  | cons hpiece _ ih =>
    rw [List.any_cons, List.any_cons, ih]
    congr 1
    obtain ⟨indent, hindent, rfl | ⟨line, rfl, rfl⟩⟩ := hpiece
    · rw [hstart hindent]
    · rw [hend foreign_newline, List.append_assoc, hstart hindent, hend foreign_return]

theorem markupStyle_eq_of_relaid {text text' : String}
    (h : List.Forall₂ Relaid (pieces text.toList) (pieces text'.toList)) :
    markupStyle text = markupStyle text' := by
  have hfragment : isMarkupFragment text = isMarkupFragment text' := by
    rw [isMarkupFragment_eq_any, isMarkupFragment_eq_any]
    exact any_eq_of_relaid startsFragment_indent Foreign.startsFragment_append h
  have hblock : isMarkupBlock text = isMarkupBlock text' := by
    rw [isMarkupBlock_eq_any, isMarkupBlock_eq_any]
    exact any_eq_of_relaid startsBlock_indent Foreign.startsBlock_append h
  rw [markupStyle, markupStyle, hfragment, hblock]

/-- **The layout of a comment is not part of what it says.** Two comments that differ in the spaces
and tabs in front of their lines, and in whether a carriage return stands before a newline, are both
read, and differ in the places of their tags and fences at most. -/
theorem read_eq_of_relaid {text text' : String} (hlayout : RelaidText text.toList text'.toList)
    (hsize : byteLength text.toList < UInt32.size)
    (hsize' : byteLength text'.toList < UInt32.size) :
    ∃ doc doc', read text = .ok doc ∧ read text' = .ok doc' ∧ doc.SaysSame doc' := by
  obtain ⟨doc, hread, hfrom⟩ := exists_readFrom hsize
  obtain ⟨doc', hread', hfrom'⟩ := exists_readFrom hsize'
  have hpieces := forall₂_pieces_of_relaid hlayout
  have hparts : (parts text).map Segment.bare = (parts text').map Segment.bare :=
    bare_segments (Line.sameBody_ofPieces hpieces 0 0) rfl
  have hsections := congrArg sections hparts
  rw [sections_bare, sections_bare, Prod.mk.injEq] at hsections
  obtain ⟨hprose, hdrafts⟩ := hsections
  have hregions := congrArg codeRegions hparts
  rw [codeRegions_bare, codeRegions_bare] at hregions
  refine ⟨doc, doc', hread, hread', ?_, ?_, ?_, ?_⟩
  · rw [hfrom.style, hfrom'.style, markupStyle_eq_of_relaid hpieces]
  · rw [hfrom.description, hfrom'.description, hprose]
  · exact forall₂_of_map_eq hdrafts hfrom.tags hfrom'.tags
      fun _ _ _ _ hbare h h' => TagDraft.finish_of_bare_eq hbare h h'
  · exact forall₂_of_map_eq hregions hfrom.fences hfrom'.fences
      fun _ _ _ _ hbare h h' => Region.finish_of_bare_eq hbare h h'

/-- A comment with a tag and a fence. -/
def flushComment : String :=
  "/** A\n * @b c\n * ~~~ts\n *   d\n *\n ~~~\n */"

/-- Its lines further to the right, some of them with carriage returns. -/
def indentedLines : List (List Char) :=
  ["\t/** A\r\n", "\t * @b c\n", " \t * ~~~ts\r\n", " *   d\r\n", "   *\n", "\t ~~~\n", "\t */"].map
    String.toList

theorem relaidText_flushComment : RelaidText flushComment.toList indentedLines.flatten := by
  have hpieces : pieces flushComment.toList =
      ["/** A\n", " * @b c\n", " * ~~~ts\n", " *   d\n", " *\n", " ~~~\n", " */"].map
        String.toList := by
    decide +kernel
  have hindented : ∀ indent piece : String, indent.toList.all isIndent = true →
      Relaid piece.toList (indent.toList ++ piece.toList) :=
    fun indent piece hindent => ⟨indent.toList, List.all_eq_true.1 hindent, .inl rfl⟩
  have hreturned : ∀ indent line : String, indent.toList.all isIndent = true →
      Relaid (line.toList ++ ['\n']) (indent.toList ++ line.toList ++ ['\r', '\n']) :=
    fun indent line hindent =>
      ⟨indent.toList, List.all_eq_true.1 hindent, .inr ⟨line.toList, rfl, rfl⟩⟩
  refine ⟨indentedLines, ?_, rfl⟩
  rw [hpieces]
  exact .cons (hreturned "\t" "/** A" (by decide)) <|
    .cons (hindented "\t" " * @b c\n" (by decide)) <|
    .cons (hreturned " \t" " * ~~~ts" (by decide)) <| .cons (hreturned "" " *   d" (by decide)) <|
    .cons (hindented "  " " *\n" (by decide)) <| .cons (hindented "\t" " ~~~\n" (by decide)) <|
    .cons (hindented "\t" " */" (by decide)) .nil

/-- The comment further to the right. -/
def shiftedComment : String :=
  String.ofList indentedLines.flatten

theorem read_eq_of_relaid_flushComment :
    RelaidText flushComment.toList shiftedComment.toList ∧
      byteLength flushComment.toList < UInt32.size ∧
      byteLength shiftedComment.toList < UInt32.size ∧
      ∃ doc doc', read flushComment = .ok doc ∧ read shiftedComment = .ok doc' ∧
        doc.tags.map (fun tag => (tag.name, tag.description)) = [("b", "c")] ∧
        doc.fences.map (fun fence => (fence.lang, fence.code)) = [(some "ts", "  d\n")] ∧
        doc.SaysSame doc' := by
  have hlayout : RelaidText flushComment.toList shiftedComment.toList := by
    rw [shiftedComment, String.toList_ofList]
    exact relaidText_flushComment
  have hsize : byteLength flushComment.toList < UInt32.size := by decide +kernel
  have hsize' : byteLength shiftedComment.toList < UInt32.size := by decide +kernel
  obtain ⟨doc, doc', hread, hread', hsame⟩ := read_eq_of_relaid hlayout hsize hsize'
  have hany : ((read flushComment).toOption.any fun doc =>
      doc.tags.map (fun tag => (tag.name, tag.description)) == [("b", "c")] &&
        doc.fences.map (fun fence => (fence.lang, fence.code)) == [(some "ts", "  d\n")]) =
      true := by
    decide +kernel
  rw [hread] at hany
  obtain ⟨htags, hfences⟩ := Bool.and_eq_true_iff.1 hany
  exact ⟨hlayout, hsize, hsize', doc, doc', hread, hread', beq_iff_eq.1 htags, beq_iff_eq.1 hfences,
    hsame⟩

end Comment

end DocOutline
