import DocOutline.Proofs.CommentSpans
import Mathlib.Data.List.DropRight
import Mathlib.Data.List.TakeWhile

/-!
# Lines, blocks and tags of a comment

A comment is read line by line, with the block that is open at hand. Seen as a whole it has a plain
shape: its lines are cut into fenced blocks and the lines outside them (`blocks`), and the lines
outside the blocks are cut at the tag lines (`tagSections`). What is read is exactly what this shape
says (`read_says_blocks`), as long as no block stands for a tag.
-/

namespace DocOutline

open Text

/-! ## Trimmed text -/

namespace Text

theorem isPrefixOf?_eq (mark cs : List Char) :
    mark.isPrefixOf? cs = if mark.isPrefixOf cs then some (cs.drop mark.length) else none := by
  split
  · rename_i h
    obtain ⟨rest, rfl⟩ := List.isPrefixOf_iff_prefix.1 h
    rw [List.drop_left, List.isPrefixOf?_eq_some_iff_append_eq]
  · rename_i h
    cases hrest : mark.isPrefixOf? cs with
    | none => rfl
    | some rest =>
      have hmark : mark <+: cs := ⟨rest, List.isPrefixOf?_eq_some_iff_append_eq.1 hrest⟩
      exact absurd (List.isPrefixOf_iff_prefix.2 hmark) h

theorem isSuffix_of_splitFirst? {separator : Char} {cs before after : List Char}
    (h : splitFirst? separator cs = some (before, after)) : after <:+ cs := by
  induction cs generalizing before with
  | nil => cases h
  | cons c cs ih =>
    rw [splitFirst?] at h
    split at h
    · cases h
      exact List.suffix_cons _ _
    · obtain ⟨⟨front, rest⟩, hrest, heq⟩ := Option.map_eq_some_iff.1 h
      cases heq
      exact (ih hrest).trans (List.suffix_cons _ _)

/-- What ends a trimmed text ends with a character that is not blank. -/
theorem exists_not_isBlank_of_isSuffix {cs text : List Char} (h : cs <:+ trim text)
    (hne : cs ≠ []) : ∃ c ∈ cs, isBlank c = false := by
  have htrim : trim text ≠ [] := fun hnil => hne (List.suffix_nil.1 (hnil ▸ h))
  refine ⟨cs.getLast hne, List.getLast_mem hne, ?_⟩
  rw [h.getLast hne]
  exact Bool.eq_false_iff.2 (List.rdropWhile_last_not isBlank (trimStart text) htrim)

theorem mem_trimStart {cs : List Char} {c : Char} (hc : isBlank c = false) (h : c ∈ cs) :
    c ∈ trimStart cs := by
  rw [← List.takeWhile_append_dropWhile (p := isBlank) (l := cs)] at h
  rcases List.mem_append.1 h with h | h
  · rw [List.mem_takeWhile_imp h] at hc
    cases hc
  · exact h

theorem mem_trim {cs : List Char} {c : Char} (hc : isBlank c = false) (h : c ∈ cs) :
    c ∈ trim cs := by
  rw [trim, trimEnd, dropEndWhile, List.mem_reverse]
  exact mem_trimStart hc (List.mem_reverse.2 (mem_trimStart hc h))

theorem trim_newline_cons (cs : List Char) : trim ('\n' :: cs) = trim cs := by
  rw [trim, trimStart, List.dropWhile_cons_of_pos (by decide)]
  rfl

theorem mem_joinLines_cons {line : List Char} {c : Char} (h : c ∈ line) (rest : List (List Char)) :
    c ∈ joinLines (line :: rest) := by
  cases rest with
  | nil => exact h
  | cons next rest => exact List.mem_append_left _ h

end Text

namespace Comment

/-! ## Prose -/

/-- An empty line in front of prose adds nothing. -/
theorem joinProse_nil_cons (bodies : List (List Char)) :
    joinProse ([] :: bodies) = joinProse bodies := by
  cases bodies with
  | nil => rfl
  | cons body rest => exact trim_newline_cons _

theorem joinProse_cons_ne_nil {body : List Char} {c : Char} (hc : isBlank c = false) (h : c ∈ body)
    (bodies : List (List Char)) : joinProse (body :: bodies) ≠ [] :=
  List.ne_nil_of_mem (mem_trim hc (mem_joinLines_cons (mem_trim hc h) _))

namespace TagLine

theorem Naming.rest_read_isSuffix (cs : List Char) : (Naming.read cs).rest <:+ cs := by
  unfold Naming.read
  split
  · exact List.suffix_refl _
  · rename_i cs
    split
    · rename_i inner tail hsplit
      have htail : trimStart tail <:+ '[' :: cs := (trimStart_isSuffix tail).trans
        ((isSuffix_of_splitFirst? hsplit).trans (List.suffix_cons _ _))
      unfold Naming.ofBrackets
      split
      · exact htail
      · exact htail
    · exact List.suffix_refl _
  · exact (trimStart_isSuffix _).trans (List.dropWhile_suffix _)

theorem Naming.rest_namingOf_isSuffix (name cs : List Char) : (namingOf name cs).rest <:+ cs := by
  unfold namingOf
  split
  · exact rest_read_isSuffix cs
  · exact List.suffix_refl _

/-- What is left after the type is a trimmed text. -/
theorem exists_splitType_eq_trim (after : List Char) : ∃ text, (splitType after).2 = trim text := by
  unfold splitType
  split
  · exact ⟨_, rfl⟩
  · exact ⟨_, rfl⟩

/-- The description of a tag line is the end of a trimmed text. -/
theorem description_isSuffix {cs : List Char} {tag : TagLine} (h : read? cs = some tag) :
    ∃ text, tag.description <:+ trim text := by
  obtain ⟨⟨name, after⟩, -, h⟩ := Option.bind_eq_some_iff.1 h
  obtain ⟨-, h⟩ := Option.ite_none_right_eq_some.1 h
  cases h
  obtain ⟨text, htext⟩ := exists_splitType_eq_trim after
  exact ⟨text, htext ▸ (dropMark_isSuffix _ _).trans (Naming.rest_namingOf_isSuffix name _)⟩

end TagLine

/-- The description of a tag is the text of its line with the prose after it, also where the line
has no text of its own. -/
theorem TagDraft.description_ofLine {cs : List Char} {tag : TagLine}
    (h : TagLine.read? cs = some tag) (start stop : Nat) (prose : List (List Char)) :
    (TagDraft.ofLine tag start stop prose).description = joinProse (tag.description :: prose) := by
  by_cases hempty : tag.description = []
  · simp only [TagDraft.ofLine, TagDraft.description, hempty, List.isEmpty_nil, if_true,
      joinProse_nil_cons]
    split
    · rename_i hnil
      exact (List.isEmpty_iff.1 hnil).symm
    · rfl
  · obtain ⟨text, htext⟩ := TagLine.description_isSuffix h
    obtain ⟨c, hmem, hc⟩ := exists_not_isBlank_of_isSuffix htext hempty
    have hprose := joinProse_cons_ne_nil hc hmem prose
    simp only [TagDraft.ofLine, TagDraft.description, List.isEmpty_iff, hempty, hprose, if_false]

/-! ## Blocks -/

/-- A fenced block: the line that opens it, the lines inside and the line that closes it, if there
is one. -/
structure Fenced where
  marker : List Char
  opening : Line
  inside : List Line
  closing : Option Line
  deriving DecidableEq, Repr

/-- A line outside all fenced blocks, or a fenced block. -/
inductive Block where
  | outside (line : Line)
  | fenced (block : Fenced)
  deriving DecidableEq, Repr

/-- The fence mark with which the line begins. -/
def Line.marker? (line : Line) : Option (List Char) :=
  fenceMarkers.find? fun marker => marker.isPrefixOf line.trimmed

/-- The line does not begin with the mark of the block, so it does not close it. -/
def Line.isInside (marker : List Char) (line : Line) : Bool :=
  !marker.isPrefixOf line.trimmed

/-- The lines cut into blocks: a fenced block runs through the next line that begins with its mark,
or to the end. -/
def blocks : List Line → List Block
  | [] => []
  | line :: rest =>
    match line.marker? with
    | none => .outside line :: blocks rest
    | some marker =>
      let inside := rest.takeWhile (Line.isInside marker)
      let after := rest.dropWhile (Line.isInside marker)
      .fenced ⟨marker, line, inside, after.head?⟩ :: blocks after.tail
termination_by lines => lines.length
decreasing_by
  · exact Nat.lt_succ_self _
  · exact Nat.lt_succ_of_le ((List.tail_sublist _).trans (List.dropWhile_sublist _)).length_le

namespace Fenced

/-- What follows the mark on the opening line. -/
def info (block : Fenced) : List Char :=
  trim (block.opening.trimmed.drop block.marker.length)

/-- The byte offset at which the last line of the block ends. -/
def stop (block : Fenced) : Nat :=
  (block.closing.map Line.stop).getD ((block.inside.map Line.stop).getLastD block.opening.stop)

def region (block : Fenced) : Region where
  marker := block.marker
  info := block.info
  start := block.opening.textStart
  stop := block.stop
  code := block.inside.map Line.body

end Fenced

def Block.segment : Block → Segment
  | .outside line => line.segment
  | .fenced block => .fence block.region

theorem Line.opens?_eq (line : Line) :
    line.opens? = line.marker?.map fun marker => Fenced.region ⟨marker, line, [], none⟩ := by
  unfold opens? marker?
  generalize fenceMarkers = markers
  induction markers with
  | nil => rfl
  | cons marker markers ih =>
    rw [List.findSome?_cons, List.find?_cons, isPrefixOf?_eq]
    cases marker.isPrefixOf line.trimmed with
    | false => exact ih
    | true => rfl

/-- An open block takes all lines up to its mark. -/
theorem segments_some (region : Region) (lines : List Line) :
    segments (some region) lines =
      .fence { region with
        stop := ((lines.dropWhile (Line.isInside region.marker)).head?.map Line.stop).getD
          (((lines.takeWhile (Line.isInside region.marker)).map Line.stop).getLastD region.stop)
        code := region.code ++ (lines.takeWhile (Line.isInside region.marker)).map Line.body } ::
        segments none (lines.dropWhile (Line.isInside region.marker)).tail := by
  induction lines generalizing region with
  | nil => simp [segments]
  | cons line rest ih =>
    rw [segments]
    by_cases hmark : region.marker.isPrefixOf line.trimmed = true
    · have hinside : ¬ Line.isInside region.marker line := by simp [Line.isInside, hmark]
      simp [hmark, hinside]
    · have hinside : Line.isInside region.marker line := by simp [Line.isInside, hmark]
      simp only [hmark, hinside, Bool.false_eq_true, if_false, ih, List.takeWhile_cons_of_pos,
        List.dropWhile_cons_of_pos, List.map_cons, List.getLastD_cons, List.append_assoc,
        List.singleton_append]

/-- **Reading line by line cuts the lines into blocks.** -/
theorem segments_eq_map_blocks (lines : List Line) :
    segments none lines = (blocks lines).map Block.segment := by
  fun_induction blocks lines with
  | case1 => rfl
  | case2 line rest hmarker ih =>
    rw [segments, Line.opens?_eq, hmarker, ih]
    rfl
  | case3 line rest marker hmarker inside after ih =>
    rw [segments, Line.opens?_eq, hmarker, List.map_cons, ← ih]
    exact segments_some _ _

/-! ## Tags outside the blocks -/

/-- The lines outside the fenced blocks. -/
def outsideLines (parts : List Block) : List Line :=
  parts.filterMap fun
    | .outside line => some line
    | .fenced _ => none

def fencedBlocks (parts : List Block) : List Fenced :=
  parts.filterMap fun
    | .outside _ => none
    | .fenced block => some block

/-- The tag that stands on the line. -/
def Line.tag? (line : Line) : Option TagLine :=
  TagLine.read? line.tagText

/-- A tag line, and the lines up to the next one. -/
structure TagSection where
  line : Line
  tag : TagLine
  more : List Line
  deriving DecidableEq, Repr

def tagSections : List Line → List TagSection
  | [] => []
  | line :: rest =>
    match line.tag? with
    | some tag => ⟨line, tag, rest.takeWhile (·.tag?.isNone)⟩ :: tagSections rest
    | none => tagSections rest

def TagSection.draft (part : TagSection) : TagDraft :=
  .ofLine part.tag part.line.textStart part.line.stop (part.more.map Line.body)

theorem tag?_of_mem_tagSections {lines : List Line} {part : TagSection}
    (h : part ∈ tagSections lines) : part.line.tag? = some part.tag := by
  fun_induction tagSections lines with
  | case1 => cases h
  | case2 line rest tag htag ih =>
    rcases List.mem_cons.1 h with rfl | h
    · exact htag
    · exact ih h
  | case3 line rest htag ih => exact ih h

theorem Line.segment_of_tag? {line : Line} {tag : TagLine} (h : line.tag? = some tag) :
    line.segment = .tag tag line.textStart line.stop := by
  simp only [tag?] at h
  simp only [segment, h]

theorem Line.segment_of_tag?_eq_none {line : Line} (h : line.tag? = none) :
    line.segment = .prose line.body := by
  simp only [tag?] at h
  simp only [segment, h]

section Untagged

variable {parts : List Block}
  (h : ∀ block ∈ fencedBlocks parts, block.region.tagName? = none)

include h

/-- Where no block stands for a tag, the tags come from the lines outside the blocks. -/
theorem sections_map_segment :
    sections (parts.map Block.segment) =
      (((outsideLines parts).takeWhile (·.tag?.isNone)).map Line.body,
        (tagSections (outsideLines parts)).map TagSection.draft) := by
  induction parts with
  | nil => rfl
  | cons part rest ih =>
    cases part with
    | outside line =>
      have ih := ih h
      have houtside : outsideLines (.outside line :: rest) = line :: outsideLines rest := rfl
      cases htag : line.tag? with
      | some tag =>
        simp [Block.segment, Line.segment_of_tag? htag, sections, ih, houtside, tagSections, htag,
          TagSection.draft]
      | none =>
        simp [Block.segment, Line.segment_of_tag?_eq_none htag, sections, ih, houtside, tagSections,
          htag]
    | fenced block =>
      obtain ⟨hblock, hrest⟩ := List.forall_mem_cons.1 h
      have houtside : outsideLines (.fenced block :: rest) = outsideLines rest := rfl
      simp only [List.map_cons, Block.segment, sections, hblock, ih hrest, houtside]

/-- Where no block stands for a tag, every block is code of its own. -/
theorem codeRegions_map_segment :
    codeRegions (parts.map Block.segment) = (fencedBlocks parts).map Fenced.region := by
  induction parts with
  | nil => rfl
  | cons part rest ih =>
    cases part with
    | outside line =>
      have hfenced : fencedBlocks (.outside line :: rest) = fencedBlocks rest := rfl
      rw [hfenced, ← ih h, List.map_cons]
      cases htag : line.tag? with
      | some tag => rw [Block.segment, Line.segment_of_tag? htag]; rfl
      | none => rw [Block.segment, Line.segment_of_tag?_eq_none htag]; rfl
    | fenced block =>
      obtain ⟨hblock, hrest⟩ := List.forall_mem_cons.1 h
      have hfenced : fencedBlocks (.fenced block :: rest) = block :: fencedBlocks rest := rfl
      rw [hfenced, List.map_cons, List.map_cons, ← ih hrest, codeRegions, Block.segment,
        List.filterMap_cons]
      simp only [hblock, Option.isNone_none, if_true]
      rfl

end Untagged

/-! ## What is read -/

/-- The fence has the language and the code of the block. -/
structure SaysBlock (fence : CodeFence) (block : Fenced) : Prop where
  lang : fence.lang = if block.info = [] then none else some (String.ofList block.info)
  code : fence.code = String.ofList (joinLines (block.inside.map Line.body))

/-- The tag has the parts of its line, and the text of its line and of the lines that follow. -/
structure SaysSection (tag : DocTag) (part : TagSection) : Prop where
  name : tag.name = String.ofList part.tag.name
  typeExpr : tag.typeExpr = part.tag.typeExpr.map String.ofList
  ident : tag.ident = part.tag.ident.map String.ofList
  optional : tag.optional = part.tag.optional
  fallback : tag.fallback = part.tag.fallback.map String.ofList
  description : tag.description =
    String.ofList (joinProse (part.tag.description :: part.more.map Line.body))

theorem saysBlock_of_finish {index : LineIndex} {block : Fenced} {fence : CodeFence}
    (h : block.region.finish index = .ok fence) : SaysBlock fence block := by
  obtain ⟨x, -, h⟩ := bind_eq_ok_iff.1 h
  cases h
  exact ⟨by simp only [List.isEmpty_iff, Fenced.region], rfl⟩

theorem saysSection_of_finish {index : LineIndex} {part : TagSection} {tag : DocTag}
    (htag : part.line.tag? = some part.tag) (h : part.draft.finish index = .ok tag) :
    SaysSection tag part := by
  obtain ⟨x, -, h⟩ := bind_eq_ok_iff.1 h
  cases h
  exact ⟨rfl, rfl, rfl, rfl, rfl,
    congrArg String.ofList (TagDraft.description_ofLine htag _ _ _)⟩

theorem Fenced.tagName?_region {block : Fenced} (h : ¬ ['@'] <+: block.info) :
    block.region.tagName? = none := by
  unfold Region.tagName?
  split
  · rename_i rest hinfo
    exact absurd ⟨rest, hinfo.symm⟩ h
  · rfl

/-- **A comment says what its blocks say.** Its lines are cut into fenced blocks and lines outside
them. If no block stands for a tag, there is one fence for each block, one tag for each tag line
outside the blocks, with the text of the lines up to the next one, and the description is the text
before the first tag line. -/
theorem read_says_blocks {text : String} (hsize : byteLength text.toList < UInt32.size)
    (hinfo : ∀ block ∈ fencedBlocks (blocks (Line.ofText text.toList)), ¬ ['@'] <+: block.info) :
    ∃ doc, read text = .ok doc ∧
      List.Forall₂ SaysBlock doc.fences (fencedBlocks (blocks (Line.ofText text.toList))) ∧
      List.Forall₂ SaysSection doc.tags
        (tagSections (outsideLines (blocks (Line.ofText text.toList)))) ∧
      doc.description = String.ofList (joinProse
        (((outsideLines (blocks (Line.ofText text.toList))).takeWhile (·.tag?.isNone)).map
          Line.body)) := by
  obtain ⟨doc, hread, -, hdescription, htags, hfences⟩ := exists_readFrom hsize
  rw [parts, segments_eq_map_blocks] at hdescription htags hfences
  have huntagged := fun block hblock => Fenced.tagName?_region (hinfo block hblock)
  rw [sections_map_segment huntagged] at hdescription htags
  rw [codeRegions_map_segment huntagged] at hfences
  refine ⟨doc, hread, ?_, ?_, hdescription⟩
  · rw [List.forall₂_map_left_iff] at hfences
    exact (hfences.imp fun _ _ => saysBlock_of_finish).flip
  · rw [List.forall₂_map_left_iff] at htags
    have hsections := (List.forall₂_and_left _ _).2 ⟨fun _ => tag?_of_mem_tagSections, htags⟩
    exact (hsections.imp fun _ _ h => saysSection_of_finish h.1 h.2).flip

/-- Prose and tags around blocks: one holds the other mark and a tag, one stands between a tag and
the rest of its text, and one is not closed. -/
def aroundBlocks : String :=
  "/** I\n * ```ts\n * @x\n * ~~~\n```\n m\n@prop [n=1] - f\n~~~\n# @y\n~~~\ns\n## @r\n``` \no"

theorem read_says_blocks_aroundBlocks :
    byteLength aroundBlocks.toList < UInt32.size ∧
      (∀ block ∈ fencedBlocks (blocks (Line.ofText aroundBlocks.toList)), ¬ ['@'] <+: block.info) ∧
      ∃ doc, read aroundBlocks = .ok doc ∧
        doc.fences.map (fun fence => (fence.lang, fence.code)) =
          [(some "ts", "@x\n~~~"), (none, "# @y"), (none, "o")] ∧
        doc.tags.map (fun tag => (tag.name, tag.ident, tag.description)) =
          [("prop", some "n", "f\ns"), ("r", none, "")] ∧
        List.Forall₂ SaysBlock doc.fences
          (fencedBlocks (blocks (Line.ofText aroundBlocks.toList))) ∧
        List.Forall₂ SaysSection doc.tags
          (tagSections (outsideLines (blocks (Line.ofText aroundBlocks.toList)))) := by
  have hsize : byteLength aroundBlocks.toList < UInt32.size := by decide +kernel
  have hinfo : ∀ block ∈ fencedBlocks (blocks (Line.ofText aroundBlocks.toList)),
      ¬ ['@'] <+: block.info := by decide +kernel
  obtain ⟨doc, hread, hfences, htags, -⟩ := read_says_blocks hsize hinfo
  have hany : ((read aroundBlocks).toOption.any fun doc =>
      doc.fences.map (fun fence => (fence.lang, fence.code)) ==
          [(some "ts", "@x\n~~~"), (none, "# @y"), (none, "o")] &&
        doc.tags.map (fun tag => (tag.name, tag.ident, tag.description)) ==
          [("prop", some "n", "f\ns"), ("r", none, "")]) = true := by
    decide +kernel
  rw [hread] at hany
  obtain ⟨hfences', htags'⟩ := Bool.and_eq_true_iff.1 hany
  exact ⟨hsize, hinfo, doc, hread, beq_iff_eq.1 hfences', beq_iff_eq.1 htags', hfences, htags⟩

end Comment

end DocOutline
