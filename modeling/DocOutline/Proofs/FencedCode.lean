import DocOutline.Proofs.LineBlocks

/-!
# The code of fenced blocks

A fenced block is code of its own, unless it stands for a tag: then its code is what the tag says at
first, and the lines after the block, up to the next tag, belong to the tag. Code of its own is
always kept. The code of a tag is kept as long as these lines are blank; otherwise their text takes
its place, so that the code is lost unless the text happens to begin with it
(`Comment.code_kept_iff`).
-/

namespace DocOutline

open Text

namespace Comment

/-! ## Tags of lines and blocks -/

/-- The tag that a part of a comment makes, with the prose that belongs to it. -/
def Block.draft? (part : Block) (prose : List (List Char)) : Option TagDraft :=
  match part with
  | .outside line => line.tag?.map fun tag => .ofLine tag line.textStart line.stop prose
  | .fenced block => block.region.tagName?.map fun name => .ofRegion name block.region prose

/-- The part makes a tag. -/
def Block.opensTag (part : Block) : Bool :=
  match part with
  | .outside line => line.tag?.isSome
  | .fenced block => block.region.tagName?.isSome

/-- The lines outside the blocks, up to the next tag. -/
def proseBeforeTag (parts : List Block) : List (List Char) :=
  (outsideLines (parts.takeWhile fun part => !part.opensTag)).map Line.body

/-- The tags of the parts, each with the prose up to the next one. -/
def drafts : List Block → List TagDraft
  | [] => []
  | part :: rest => (part.draft? (proseBeforeTag rest)).toList ++ drafts rest

theorem Block.isSome_draft? (part : Block) (prose : List (List Char)) :
    (part.draft? prose).isSome = part.opensTag := by
  cases part with
  | outside line => simp [draft?, opensTag]
  | fenced block => simp [draft?, opensTag]

theorem Block.draft?_of_not_opensTag {part : Block} (h : part.opensTag = false)
    (prose : List (List Char)) : part.draft? prose = none := by
  rwa [← Option.not_isSome_iff_eq_none, isSome_draft?, Bool.not_eq_true]

theorem proseBeforeTag_of_opensTag {part : Block} (h : part.opensTag = true) (rest : List Block) :
    proseBeforeTag (part :: rest) = [] := by
  simp [proseBeforeTag, h, outsideLines]

theorem proseBeforeTag_outside {line : Line} (h : line.tag? = none) (rest : List Block) :
    proseBeforeTag (.outside line :: rest) = line.body :: proseBeforeTag rest := by
  simp [proseBeforeTag, Block.opensTag, h, outsideLines]

theorem proseBeforeTag_fenced {block : Fenced} (h : block.region.tagName? = none)
    (rest : List Block) : proseBeforeTag (.fenced block :: rest) = proseBeforeTag rest := by
  simp [proseBeforeTag, Block.opensTag, h, outsideLines]

/-- The prose before the first tag, and the tags, are those of the lines and blocks. -/
theorem sections_eq_drafts (parts : List Block) :
    sections (parts.map Block.segment) = (proseBeforeTag parts, drafts parts) := by
  induction parts with
  | nil => rfl
  | cons part rest ih =>
    rw [List.map_cons, drafts]
    cases part with
    | outside line =>
      cases htag : line.tag? with
      | some tag =>
        have hopens : (Block.outside line).opensTag = true := by simp [Block.opensTag, htag]
        simp [Block.segment, Line.segment_of_tag? htag, sections, ih, Block.draft?, htag,
          proseBeforeTag_of_opensTag hopens]
      | none =>
        simp [Block.segment, Line.segment_of_tag?_eq_none htag, sections, ih, Block.draft?, htag,
          proseBeforeTag_outside htag]
    | fenced block =>
      cases hname : block.region.tagName? with
      | some name =>
        have hopens : (Block.fenced block).opensTag = true := by simp [Block.opensTag, hname]
        simp [Block.segment, sections, ih, Block.draft?, hname, proseBeforeTag_of_opensTag hopens]
      | none =>
        simp [Block.segment, sections, ih, Block.draft?, hname, proseBeforeTag_fenced hname]

/-- The tag of a part comes after the tags of the parts in front of it. -/
theorem drafts_append_getElem? (before : List Block) {part : Block} {after : List Block}
    {draft : TagDraft} (h : part.draft? (proseBeforeTag after) = some draft) :
    (drafts (before ++ part :: after))[before.countP Block.opensTag]? = some draft := by
  induction before with
  | nil => simp [drafts, h]
  | cons front before ih =>
    rw [List.cons_append, drafts, List.countP_cons]
    by_cases hopens : front.opensTag = true
    · obtain ⟨first, hfirst⟩ : ∃ first,
          front.draft? (proseBeforeTag (before ++ part :: after)) = some first := by
        rw [← Option.isSome_iff_exists, Block.isSome_draft?, hopens]
      simp [hopens, hfirst, ih]
    · rw [Bool.not_eq_true] at hopens
      simp [hopens, Block.draft?_of_not_opensTag hopens, ih]

/-! ## Code -/

/-- The blocks that are code of their own. -/
def codeBlocks (parts : List Block) : List Fenced :=
  (fencedBlocks parts).filter fun block => block.region.tagName?.isNone

theorem codeRegions_eq_codeBlocks (parts : List Block) :
    codeRegions (parts.map Block.segment) = (codeBlocks parts).map Fenced.region := by
  induction parts with
  | nil => rfl
  | cons part rest ih =>
    cases part with
    | outside line =>
      have hcode : codeBlocks (.outside line :: rest) = codeBlocks rest := rfl
      rw [hcode, ← ih, List.map_cons]
      cases htag : line.tag? with
      | some tag => rw [Block.segment, Line.segment_of_tag? htag]; rfl
      | none => rw [Block.segment, Line.segment_of_tag?_eq_none htag]; rfl
    | fenced block =>
      have hfenced : fencedBlocks (.fenced block :: rest) = block :: fencedBlocks rest := rfl
      rw [codeRegions] at ih ⊢
      rw [List.map_cons, Block.segment, List.filterMap_cons, codeBlocks, hfenced]
      cases hname : block.region.tagName? with
      | some name => simpa [hname, codeBlocks] using ih
      | none => simpa [hname, codeBlocks] using ih

/-- The text that belongs to a tag in front of the parts. -/
def textBeforeTag (parts : List Block) : List Char :=
  joinProse (proseBeforeTag parts)

theorem TagDraft.description_ofRegion (name : List Char) (block : Fenced) (parts : List Block) :
    (TagDraft.ofRegion name block.region (proseBeforeTag parts)).description =
      if textBeforeTag parts = [] then block.region.text else textBeforeTag parts := by
  unfold textBeforeTag
  by_cases htext : joinProse (proseBeforeTag parts) = []
  · simp [TagDraft.description, TagDraft.ofRegion, htext]
  · simp [TagDraft.description, TagDraft.ofRegion, htext]

theorem TagDraft.says_of_finish {index : LineIndex} {draft : TagDraft} {tag : DocTag}
    (h : draft.finish index = .ok tag) :
    tag.name = String.ofList draft.tag.name ∧
      tag.description = String.ofList draft.description := by
  obtain ⟨x, -, h⟩ := bind_eq_ok_iff.1 h
  cases h
  exact ⟨rfl, rfl⟩

/-- **Code is kept unless text follows.** A comment is read. Every block that is code of its own is
kept as a fence, in order. A block that stands for a tag is kept as that tag; its code is what the
tag says, unless there is text between the block and the next tag: then the tag says this text, and
the code is lost if the text does not begin with it. -/
theorem code_kept_iff {text : String} (hsize : byteLength text.toList < UInt32.size) :
    ∃ doc, read text = .ok doc ∧
      List.Forall₂ SaysBlock doc.fences (codeBlocks (blocks (Line.ofText text.toList))) ∧
      ∀ before block after name,
        blocks (Line.ofText text.toList) = before ++ .fenced block :: after →
        block.region.tagName? = some name →
        ∃ tag, doc.tags[before.countP Block.opensTag]? = some tag ∧
          tag.name = String.ofList name ∧
          tag.description = String.ofList
            (if textBeforeTag after = [] then block.region.text else textBeforeTag after) ∧
          (block.region.text <+: tag.description.toList ↔
            textBeforeTag after = [] ∨ block.region.text <+: textBeforeTag after) := by
  obtain ⟨doc, hread, -, -, htags, hfences⟩ := exists_readFrom hsize
  rw [parts, segments_eq_map_blocks] at htags hfences
  rw [codeRegions_eq_codeBlocks, List.forall₂_map_left_iff] at hfences
  refine ⟨doc, hread, (hfences.imp fun _ _ => saysBlock_of_finish).flip, ?_⟩
  intro before block after name hblocks hname
  rw [sections_eq_drafts, hblocks] at htags
  have hdraft : (Block.fenced block).draft? (proseBeforeTag after) =
      some (.ofRegion name block.region (proseBeforeTag after)) := by
    rw [Block.draft?, hname, Option.map_some]
  obtain ⟨hindex, hget⟩ := List.getElem?_eq_some_iff.1 (drafts_append_getElem? before hdraft)
  obtain ⟨hlength, hfinish⟩ := List.forall₂_iff_get.1 htags
  have hfinish := hfinish _ hindex (hlength ▸ hindex)
  rw [List.get_eq_getElem, hget] at hfinish
  obtain ⟨hname, hdescription⟩ := TagDraft.says_of_finish hfinish
  rw [TagDraft.description_ofRegion] at hdescription
  refine ⟨_, List.getElem?_eq_getElem (hlength ▸ hindex), hname, hdescription, ?_⟩
  rw [List.get_eq_getElem] at hdescription
  rw [hdescription, String.toList_ofList]
  by_cases htext : textBeforeTag after = []
  · simp [htext]
  · simp [htext]

/-- What a comment that is read says. -/
theorem exists_read_of_any {text : String} {f : DocComment → Bool}
    (h : (read text).toOption.any f = true) : ∃ doc, read text = .ok doc ∧ f doc = true :=
  exists_eq_ok_of_any h

/-- A tag with code, a blank line and code of its own, and a tag with code and text after it. -/
def codeAndText : String :=
  "```@a\nx\n```\n\n~~~js\ny\n~~~\n```@b\nz\n```\nt"

/-- The block whose code is kept. -/
def keptBlock : Fenced :=
  ⟨"```".toList, ⟨0, "```@a".toList⟩, [⟨6, ['x']⟩], some ⟨8, "```".toList⟩⟩

/-- The block that is code of its own. -/
def ownBlock : Fenced :=
  ⟨"~~~".toList, ⟨13, "~~~js".toList⟩, [⟨19, ['y']⟩], some ⟨21, "~~~".toList⟩⟩

/-- The block with text after it. -/
def replacedBlock : Fenced :=
  ⟨"```".toList, ⟨25, "```@b".toList⟩, [⟨31, ['z']⟩], some ⟨33, "```".toList⟩⟩

theorem blocks_codeAndText :
    blocks (Line.ofText codeAndText.toList) =
      [.fenced keptBlock, .outside ⟨12, []⟩, .fenced ownBlock, .fenced replacedBlock,
        .outside ⟨37, ['t']⟩] := by
  decide +kernel

theorem code_kept_iff_codeAndText :
    byteLength codeAndText.toList < UInt32.size ∧
      ∃ doc, read codeAndText = .ok doc ∧
        List.Forall₂ SaysBlock doc.fences [ownBlock] ∧
        (∃ tag, doc.tags[0]? = some tag ∧ tag.name = "a" ∧ tag.description = "x" ∧
          keptBlock.region.text <+: tag.description.toList) ∧
        ∃ tag, doc.tags[1]? = some tag ∧ tag.name = "b" ∧ tag.description = "t" ∧
          ¬ replacedBlock.region.text <+: tag.description.toList := by
  have hsize : byteLength codeAndText.toList < UInt32.size := by decide +kernel
  obtain ⟨doc, hread, hfences, htags⟩ := code_kept_iff hsize
  rw [blocks_codeAndText] at hfences htags
  have hcode : codeBlocks [.fenced keptBlock, .outside ⟨12, []⟩, .fenced ownBlock,
      .fenced replacedBlock, .outside ⟨37, ['t']⟩] = [ownBlock] := by
    decide +kernel
  rw [hcode] at hfences
  obtain ⟨tag, htag, hname, hdescription, hkept⟩ :=
    htags [] keptBlock [.outside ⟨12, []⟩, .fenced ownBlock, .fenced replacedBlock,
      .outside ⟨37, ['t']⟩] ['a'] rfl (by decide +kernel)
  obtain ⟨tag', htag', hname', hdescription', hkept'⟩ :=
    htags [.fenced keptBlock, .outside ⟨12, []⟩, .fenced ownBlock] replacedBlock
      [.outside ⟨37, ['t']⟩] ['b'] rfl (by decide +kernel)
  refine ⟨hsize, doc, hread, hfences, ⟨tag, htag, hname, ?_, hkept.2 (.inl (by decide +kernel))⟩,
    tag', htag', hname', ?_, fun hprefix => ?_⟩
  · rw [hdescription]
    decide +kernel
  · rw [hdescription']
    decide +kernel
  · exact absurd (hkept'.1 hprefix) (by decide +kernel)

/-- A tag with code, and a line of text after it. -/
def exampleThenText : String :=
  "/**\n * ```@example\n * add(3, 4);\n * ```\n * More.\n */"

/-- The code of a tag is lost where text follows it. -/
theorem code_replaced_by_text :
    ¬ ∀ (text : String) (doc : DocComment), byteLength text.toList < UInt32.size →
      read text = .ok doc → ∀ block ∈ fencedBlocks (blocks (Line.ofText text.toList)),
        ∀ name, block.region.tagName? = some name →
          ∃ tag ∈ doc.tags, tag.name = String.ofList name ∧
            block.region.text <+: tag.description.toList := by
  intro hall
  obtain ⟨doc, hread, hdescriptions⟩ : ∃ doc, read exampleThenText = .ok doc ∧
      (doc.tags.map (·.description) == ["More."]) = true :=
    exists_read_of_any (by decide +kernel)
  obtain ⟨block, hblock, hname, hcode⟩ :
      ∃ block ∈ fencedBlocks (blocks (Line.ofText exampleThenText.toList)),
        block.region.tagName? = some "example".toList ∧
          block.region.text = "add(3, 4);".toList := by
    decide +kernel
  obtain ⟨tag, htag, -, hkept⟩ := hall _ doc (by decide +kernel) hread block hblock _ hname
  have hdescription : tag.description ∈ ["More."] :=
    beq_iff_eq.1 hdescriptions ▸ List.mem_map_of_mem htag
  rw [List.mem_singleton.1 hdescription, hcode] at hkept
  exact absurd hkept (by decide)

end Comment

end DocOutline
