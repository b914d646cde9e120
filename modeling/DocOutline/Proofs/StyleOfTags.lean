import DocOutline.Proofs.FencedCode
import DocOutline.Proofs.MarkupLines
import DocOutline.Proofs.TagGrammar

/-!
# The markup style of a comment with tags

Two parts of a comment's reading know what a tag looks like: the reader, which makes the tags, and
the markup style. The reader passes over any blanks, any number of number signs, and takes whatever
follows the at sign of a block for a name. The style wants spaces and tabs, at most six number
signs, and a letter. So a comment can have tags and yet no markup style. How far the two agree is
decided line by line: the style recognises the line of a tag if and only if the line is written
plainly (`Comment.style_of_tag`).
-/

namespace DocOutline

open Text

namespace Text

/-- The line of the text in which the byte `offset` lies. -/
def LineAt (text : List Char) (offset : Nat) (piece : List Char) : Prop :=
  ∃ before after, pieces text = before ++ piece :: after ∧ byteLength before.flatten ≤ offset ∧
    offset < byteLength before.flatten + byteLength piece

theorem LineAt.eq {text : List Char} {offset : Nat} {piece other : List Char}
    (h : LineAt text offset piece) (h' : LineAt text offset other) : piece = other := by
  obtain ⟨before, after, hpieces, hstart, hstop⟩ := h
  obtain ⟨before', after', hpieces', hstart', hstop'⟩ := h'
  have hlength : ∀ (before : List (List Char)) piece more,
      byteLength (before ++ piece :: more).flatten =
        byteLength before.flatten + byteLength piece + byteLength more.flatten := by
    simp [byteLength_append, Nat.add_assoc]
  rcases List.append_eq_append_iff.1 (hpieces.symm.trans hpieces') with
    ⟨more, rfl, hmore⟩ | ⟨more, rfl, hmore⟩
  · cases more with
    | nil => exact (List.cons.inj hmore).1
    | cons first more =>
      obtain ⟨rfl, -⟩ := List.cons.inj hmore
      rw [hlength] at hstart'
      omega
  · cases more with
    | nil => exact (List.cons.inj hmore).1.symm
    | cons first more =>
      obtain ⟨rfl, -⟩ := List.cons.inj hmore
      rw [hlength] at hstart
      omega

theorem pieces_of_mem {cs piece : List Char} (h : piece ∈ pieces cs) : pieces piece = [piece] := by
  induction cs using line_induction with
  | nil => cases h
  | last line hne hline =>
    rw [pieces_of_line hne hline] at h
    obtain rfl := List.mem_singleton.1 h
    exact pieces_of_line hne hline
  | line line rest hline ih =>
    rw [pieces_append hline] at h
    rcases List.mem_cons.1 h with rfl | h
    · exact pieces_append hline []
    · exact ih h

theorem exists_dropMark (mark cs : List Char) :
    ∃ front, (front = [] ∨ front = mark) ∧ cs = front ++ dropMark mark cs := by
  rcases dropMark_eq_iff.1 (rfl : dropMark mark cs = dropMark mark cs) with h | ⟨-, h⟩
  · exact ⟨mark, .inr rfl, h⟩
  · exact ⟨[], .inl rfl, h.symm⟩

/-- The text in front of a trimmed text is blank. -/
theorem exists_trimStart (cs : List Char) :
    ∃ blanks, (∀ c ∈ blanks, isBlank c = true) ∧ cs = blanks ++ trimStart cs := by
  obtain ⟨hcs, hblanks, -⟩ := (@cut_iff isBlank cs _ _).1 ⟨rfl, rfl⟩
  exact ⟨_, hblanks, hcs⟩

end Text

namespace Comment

/-! ## Markup of a line -/

theorem markupStyle_ne_plain_iff (text : String) :
    markupStyle text ≠ .plain ↔
      ∃ piece ∈ pieces text.toList, startsFragment piece = true ∨ startsBlock piece = true := by
  rw [markupStyle, isMarkupBlock_eq_any, isMarkupFragment_eq_any]
  by_cases hblock : (pieces text.toList).any startsBlock = true
  · obtain ⟨piece, hmem, hpiece⟩ := List.any_eq_true.1 hblock
    rw [if_pos hblock]
    exact ⟨fun _ => ⟨piece, hmem, .inr hpiece⟩, fun _ => by decide⟩
  · rw [if_neg hblock]
    by_cases hfragment : (pieces text.toList).any startsFragment = true
    · obtain ⟨piece, hmem, hpiece⟩ := List.any_eq_true.1 hfragment
      rw [if_pos hfragment]
      exact ⟨fun _ => ⟨piece, hmem, .inl hpiece⟩, fun _ => by decide⟩
    · rw [if_neg hfragment]
      refine ⟨fun hne => absurd rfl hne, ?_⟩
      rintro ⟨piece, hmem, hpiece | hpiece⟩
      · exact absurd (List.any_eq_true.2 ⟨piece, hmem, hpiece⟩) hfragment
      · exact absurd (List.any_eq_true.2 ⟨piece, hmem, hpiece⟩) hblock

theorem markupStyle_piece_ne_plain_iff {cs piece : List Char} (h : piece ∈ pieces cs) :
    markupStyle (String.ofList piece) ≠ .plain ↔
      startsFragment piece = true ∨ startsBlock piece = true := by
  rw [markupStyle_ne_plain_iff, String.toList_ofList, pieces_of_mem h]
  simp

/-! ## The gutter of a line -/

/-- The marks of a gutter. -/
def gutterMarks : List (List Char) :=
  [[], ['/', '*', '*'], ['*']]

namespace Line

theorem exists_dropOpening (line : List Char) :
    ∃ blanks mark space, (∀ c ∈ blanks, isBlank c = true) ∧ mark ∈ gutterMarks ∧
      (∀ c ∈ space, isBlank c = true) ∧ line = blanks ++ (mark ++ (space ++ dropOpening line)) := by
  obtain ⟨blanks, hblanks, hline⟩ := exists_trimStart line
  have hmark : ∃ mark ∈ gutterMarks, ∃ rest, trimStart line = mark ++ rest ∧
      dropOpening line = dropMark [' '] rest := by
    unfold dropOpening
    cases hopening : ['/', '*', '*'].isPrefixOf? (trimStart line) with
    | some more =>
      have hrest := List.isPrefixOf?_eq_some_iff_append_eq.1 hopening
      exact ⟨['/', '*', '*'], by decide, more, hrest.symm, by simp only [hopening]⟩
    | none =>
      by_cases hclosing : ['*', '/'].isPrefixOf (trimStart line) = true
      · exact ⟨[], by decide, trimStart line, rfl, by simp only [hopening, hclosing, if_true]⟩
      · obtain ⟨front, hfront, hrest⟩ := exists_dropMark ['*'] (trimStart line)
        refine ⟨front, ?_, _, hrest,
          by simp only [hopening, hclosing, Bool.false_eq_true, if_false]⟩
        rcases hfront with rfl | rfl
        · decide
        · decide
  obtain ⟨mark, hmem, rest, hrest, hopening⟩ := hmark
  obtain ⟨space, hspace, heq⟩ := exists_dropMark [' '] rest
  refine ⟨blanks, mark, space, hblanks, hmem, ?_, ?_⟩
  · rcases hspace with rfl | rfl
    · simp
    · simp; decide
  · rw [hopening, ← heq, ← hrest, ← hline]

/-- What stands in front of the trimmed body of a line: blanks, the mark of a gutter, and blanks. -/
theorem exists_gutter (offset : Nat) (piece : List Char) :
    ∃ blanks mark more tail, (∀ c ∈ blanks, isBlank c = true) ∧ mark ∈ gutterMarks ∧
      (∀ c ∈ more, isBlank c = true) ∧
      piece = blanks ++ (mark ++ (more ++ ((ofPiece offset piece).trimmed ++ tail))) := by
  obtain ⟨ends, hends⟩ := dropEndWhile_isPrefix (fun c => c == '\n' || c == '\r') piece
  obtain ⟨blanks, mark, space, hblanks, hmark, hspace, hline⟩ :=
    exists_dropOpening (dropEndWhile (fun c => c == '\n' || c == '\r') piece)
  obtain ⟨closing, hclosing⟩ := dropClosing_isPrefix
    (dropOpening (dropEndWhile (fun c => c == '\n' || c == '\r') piece))
  obtain ⟨more, hmore, hbody⟩ := exists_trimStart (ofPiece offset piece).body
  refine ⟨blanks, mark, space ++ more, closing ++ ends, hblanks, hmark, ?_, ?_⟩
  · intro c hc
    rcases List.mem_append.1 hc with hc | hc
    · exact hspace c hc
    · exact hmore c hc
  · have hopening : dropOpening (dropEndWhile (fun c => c == '\n' || c == '\r') piece) =
        more ++ ((ofPiece offset piece).trimmed ++ closing) := by
      rw [← hclosing, ← List.append_assoc]
      exact congrArg (· ++ closing) hbody
    calc
      piece = dropEndWhile (fun c => c == '\n' || c == '\r') piece ++ ends := hends.symm
      _ = blanks ++ (mark ++ (space ++ (more ++ ((ofPiece offset piece).trimmed ++ closing)))) ++
          ends := by rw [← hopening, ← hline]
      _ = _ := by simp only [List.append_assoc]

end Line

/-! ## What stands between the gutter and the at sign -/

/-- What stands in front of a tag after the gutter: nothing, number signs and blanks, or the mark of
a block and blanks. -/
inductive Lead : List Char → Prop
  | bare : Lead []
  | header (n : Nat) {b : Char} {blanks : List Char}
    (hblanks : ∀ c ∈ b :: blanks, isBlank c = true) :
    Lead (List.replicate (n + 1) '#' ++ b :: blanks)
  | fence {marker blanks : List Char} (hmarker : marker ∈ fenceMarkers)
    (hblanks : ∀ c ∈ blanks, isBlank c = true) : Lead (marker ++ blanks)

/-- The line has an at sign behind a lead, and something behind the at sign. -/
def Line.HasLead (line : Line) : Prop :=
  ∃ lead c rest, Lead lead ∧ line.trimmed = lead ++ '@' :: c :: rest

theorem Line.hasLead_of_tag? {line : Line} {tag : TagLine} (h : line.tag? = some tag) :
    line.HasLead := by
  have hat : ∀ {cs : List Char}, TagLine.read? cs = some tag → ∃ c rest, cs = '@' :: c :: rest := by
    intro cs hread
    obtain ⟨name, after, ⟨c, rest, -, rfl, -⟩, -⟩ := TagLine.read?_eq_some_iff.1 hread
    exact ⟨c, rest ++ after, rfl⟩
  simp only [tag?, tagText] at h
  split at h
  · rename_i more b header htrimmed hheader
    split at h
    · rename_i hb
      obtain ⟨c, rest, htext⟩ := hat h
      obtain ⟨hcut, hmarks, -⟩ := cut_iff.1 ⟨rfl, hheader⟩
      -- There is a number sign in front, and a blank behind the last one.
      obtain ⟨n, hreplicate⟩ :
          ∃ n, line.trimmed.takeWhile (· == '#') = List.replicate (n + 1) '#' := by
        refine ⟨(more.takeWhile (· == '#')).length, List.eq_replicate_iff.2 ⟨?_, ?_⟩⟩
        · simp [htrimmed]
        · exact fun d hd => beq_iff_eq.1 (hmarks d hd)
      obtain ⟨blanks, hblanks, heq⟩ := exists_trimStart (b :: header)
      rw [hheader] at htext
      rw [htext] at heq
      cases blanks with
      | nil =>
        cases heq
        exact absurd hb (by decide)
      | cons d blanks =>
        refine ⟨_, c, rest, .header n hblanks, ?_⟩
        rw [hcut, hreplicate, heq, List.append_assoc]
    · obtain ⟨c, rest, heq⟩ := hat h
      exact ⟨[], c, rest, .bare, heq⟩
  · obtain ⟨c, rest, heq⟩ := hat h
    exact ⟨[], c, rest, .bare, heq⟩

theorem Fenced.hasLead_of_tagName? {block : Fenced} {name : List Char}
    (hmarker : block.opening.marker? = some block.marker)
    (hname : block.region.tagName? = some name) : block.opening.HasLead := by
  have hmem : block.marker ∈ fenceMarkers := List.mem_of_find?_eq_some hmarker
  obtain ⟨after, hafter⟩ : block.marker <+: block.opening.trimmed := by
    have hprefix := List.find?_some hmarker
    exact List.isPrefixOf_iff_prefix.1 hprefix
  have hinfo : block.region.info = trim after := by
    rw [Fenced.region, Fenced.info, ← hafter, List.drop_left]
  obtain ⟨c, rest, hrest⟩ : ∃ c rest, trim after = '@' :: c :: rest := by
    rw [Region.tagName?, hinfo] at hname
    split at hname
    · rename_i rest hrest
      cases rest with
      | nil => cases hname
      | cons c rest => exact ⟨c, rest, hrest⟩
    · cases hname
  obtain ⟨blanks, hblanks, hstart⟩ := exists_trimStart after
  obtain ⟨tail, htail⟩ := trimEnd_isPrefix (trimStart after)
  refine ⟨block.marker ++ blanks, c, rest ++ tail, .fence hmem hblanks, ?_⟩
  rw [← trim, hrest] at htail
  rw [← hafter, hstart, ← htail]
  simp only [List.append_assoc, List.cons_append]

/-! ## Markup needs an at sign -/

theorem at_mem_of_startsTag {cs : List Char} (h : startsTag cs = true) : '@' ∈ cs := by
  unfold startsTag at h
  split at h
  · exact List.mem_cons_self
  · cases h

theorem afterGutter_isSuffix (cs : List Char) : afterGutter cs <:+ cs := by
  have hmark : ∀ cs, afterGutterMark cs <:+ cs := by
    intro cs
    unfold afterGutterMark
    split
    · exact (List.dropWhile_suffix _).trans ⟨['/', '*', '*'], rfl⟩
    · exact List.suffix_cons _ _
    · exact List.suffix_refl _
  rw [afterGutter]
  exact (List.dropWhile_suffix _).trans ((hmark _).trans (List.dropWhile_suffix _))

theorem isSuffix_of_afterBlockMark? {cs rest : List Char} (h : afterBlockMark? cs = some rest) :
    rest <:+ cs := by
  unfold afterBlockMark? at h
  split at h
  · cases h
    exact ⟨['`', '`', '`'], rfl⟩
  · cases h
    exact ⟨['~', '~', '~'], rfl⟩
  · split at h
    · rename_i c more hmore
      dsimp only at h
      split_ifs at h
      cases h
      exact (List.suffix_cons c rest).trans (hmore ▸ List.dropWhile_suffix _)
    · cases h

/-- Markup of either style has an at sign. -/
theorem at_mem_of_markup {cs : List Char} (h : startsFragment cs = true ∨ startsBlock cs = true) :
    '@' ∈ cs := by
  rcases h with h | h
  · exact (afterGutter_isSuffix cs).subset (at_mem_of_startsTag h)
  · obtain ⟨rest, hrest, htag⟩ := (Option.any_eq_true _ _).1 h
    exact (afterGutter_isSuffix cs).subset ((isSuffix_of_afterBlockMark? hrest).subset
      ((List.dropWhile_suffix _).subset (at_mem_of_startsTag htag)))

/-! ## Markup behind a lead -/

theorem isAlpha_of_isBlank {c : Char} (h : isBlank c = true) : c.isAlpha = false := by
  simp only [isBlank, CharSet.contains, whiteSpace, List.any_cons, List.any_nil, Bool.or_eq_true,
    Bool.and_eq_true, decide_eq_true_eq, Bool.or_false] at h
  rw [Bool.eq_false_iff]
  intro halpha
  have hletter : 65 ≤ c.toNat ∧ c.toNat ≤ 90 ∨ 97 ≤ c.toNat ∧ c.toNat ≤ 122 := by
    change (decide ('A'.val ≤ c.val ∧ c.val ≤ 'Z'.val) ||
      decide ('a'.val ≤ c.val) && decide (c.val ≤ 'z'.val)) = true at halpha
    rwa [Bool.or_eq_true, Bool.and_eq_true, decide_eq_true_eq, decide_eq_true_eq,
      decide_eq_true_eq] at halpha
  omega

theorem foreign_of_isBlank {c : Char} (hblank : isBlank c = true) (hindent : isIndent c = false) :
    Foreign c where
  indent := hindent
  letter := isAlpha_of_isBlank hblank
  mark := by
    intro hmem
    have hmarks : markChars.all (fun d => !isBlank d) = true := by decide
    have hc := List.all_eq_true.1 hmarks c hmem
    rw [hblank] at hc
    cases hc

/-- A blank that is neither a space nor a tab, in front of the at sign, hides the tag. -/
theorem isIndent_of_markup {front rest : List Char} (hfront : '@' ∉ front)
    (h : startsFragment (front ++ rest) = true ∨ startsBlock (front ++ rest) = true) :
    ∀ c ∈ front, isBlank c = true → isIndent c = true := by
  intro c hc hblank
  by_contra hindent
  have hforeign := foreign_of_isBlank hblank (Bool.eq_false_iff.2 hindent)
  obtain ⟨before, after, rfl⟩ := List.append_of_mem hc
  rw [List.append_assoc, List.cons_append, hforeign.startsFragment_append,
    hforeign.startsBlock_append] at h
  exact hfront (List.mem_append_left _ (at_mem_of_markup h))

theorem afterGutter_of_mark {mark more : List Char} {x : Char} (hmark : mark ∈ gutterMarks)
    (hmore : ∀ c ∈ more, isIndent c = true) (hx : x ∈ ['#', '`', '~', '@']) (xs : List Char) :
    afterGutter (mark ++ (more ++ x :: xs)) = x :: xs := by
  obtain ⟨hindent, hslash, hstar⟩ : isIndent x = false ∧ '/' ≠ x ∧ '*' ≠ x := by
    simp only [List.mem_cons, List.not_mem_nil, or_false] at hx
    rcases hx with rfl | rfl | rfl | rfl <;> decide
  have hrest : (more ++ x :: xs).dropWhile isIndent = x :: xs := by
    rw [List.dropWhile_append_of_pos hmore, List.dropWhile_cons_of_neg (by simp [hindent])]
  simp only [gutterMarks, List.mem_cons, List.not_mem_nil, or_false] at hmark
  rcases hmark with rfl | rfl | rfl
  · rw [List.nil_append, afterGutter, hrest, afterGutterMark_of_not_isPrefix,
      List.dropWhile_cons_of_neg (by simp [hindent])]
    · exact fun hprefix => hslash (List.cons_prefix_cons.1 hprefix).1
    · exact fun hprefix => hstar (List.cons_prefix_cons.1 hprefix).1
  · have hstars : (more ++ x :: xs).dropWhile (· == '*') = more ++ x :: xs := by
      cases more with
      | nil => exact List.dropWhile_cons_of_neg (by simp [hstar.symm])
      | cons c more =>
        have hc : c ≠ '*' := by
          rintro rfl
          exact absurd (hmore '*' List.mem_cons_self) (by decide)
        exact List.dropWhile_cons_of_neg (by simp [hc])
    change ((more ++ x :: xs).dropWhile (· == '*')).dropWhile isIndent = x :: xs
    rw [hstars, hrest]
  · exact hrest

theorem startsTag_cons_of_ne {x : Char} (hx : x ≠ '@') (xs : List Char) :
    startsTag (x :: xs) = false := by
  cases xs with
  | nil => exact startsTag_singleton x
  | cons y xs => simp [startsTag_cons_cons, hx]

theorem exists_cons_of_mem_fenceMarkers {marker : List Char} (h : marker ∈ fenceMarkers) :
    ∃ x ∈ ['`', '~'], ∃ xs, marker = x :: xs := by
  simp only [fenceMarkers, List.mem_cons, List.not_mem_nil, or_false] at h
  rcases h with rfl | rfl
  · exact ⟨'`', by decide, _, rfl⟩
  · exact ⟨'~', by decide, _, rfl⟩

theorem afterBlockMark?_signs (n : Nat) {x : Char} (hx : x ≠ '#') (xs : List Char) :
    afterBlockMark? (List.replicate (n + 1) '#' ++ x :: xs) =
      if n + 1 ≤ 6 ∧ isIndent x = true then some xs else none := by
  have hcut : (List.replicate (n + 1) '#' ++ x :: xs).takeWhile (· == '#') =
        List.replicate (n + 1) '#' ∧
      (List.replicate (n + 1) '#' ++ x :: xs).dropWhile (· == '#') = x :: xs :=
    cut_iff.2 ⟨rfl, by simp, by simp [hx]⟩
  rw [afterBlockMark?_of_not_isPrefix, hcut.1, hcut.2]
  · simp
  · intro marker hmarker hprefix
    obtain ⟨y, hy, ys, rfl⟩ := exists_cons_of_mem_fenceMarkers hmarker
    exact absurd ((List.cons_prefix_cons.1 hprefix).1 ▸ hy) (by decide)

theorem count_of_isBlank {blanks : List Char} (hblanks : ∀ c ∈ blanks, isBlank c = true) :
    blanks.count '#' = 0 :=
  List.count_eq_zero.2 fun hmem => absurd (hblanks '#' hmem) (by decide)

theorem at_not_mem_of_isBlank {blanks : List Char} (hblanks : ∀ c ∈ blanks, isBlank c = true) :
    '@' ∉ blanks :=
  fun hmem => absurd (hblanks '@' hmem) (by decide)

namespace Lead

variable {lead : List Char} (hlead : Lead lead)

include hlead

theorem at_not_mem : '@' ∉ lead := by
  cases hlead with
  | bare => exact List.not_mem_nil
  | header n hblanks =>
    rw [List.mem_append, not_or]
    refine ⟨fun hmem => ?_, at_not_mem_of_isBlank hblanks⟩
    exact absurd (List.eq_of_mem_replicate hmem) (by decide)
  | @fence marker blanks hmarker hblanks =>
    have hat : ∀ marker ∈ fenceMarkers, '@' ∉ marker := by decide
    rw [List.mem_append, not_or]
    exact ⟨hat marker hmarker, at_not_mem_of_isBlank hblanks⟩

theorem exists_cons (rest : List Char) :
    ∃ x xs, lead ++ '@' :: rest = x :: xs ∧ x ∈ ['#', '`', '~', '@'] := by
  cases hlead with
  | bare => exact ⟨'@', rest, rfl, by decide⟩
  | header n hblanks => exact ⟨'#', _, rfl, by decide⟩
  | fence hmarker hblanks =>
    obtain ⟨x, hx, xs, rfl⟩ := exists_cons_of_mem_fenceMarkers hmarker
    have hsub : ['`', '~'] ⊆ ['#', '`', '~', '@'] := by decide
    exact ⟨x, _, rfl, hsub hx⟩

/-- Behind a lead of spaces and tabs, a tag is markup if there are at most six number signs and a
letter follows the at sign. -/
theorem markup_iff (hindent : ∀ c ∈ lead, isBlank c = true → isIndent c = true) (c : Char)
    (rest : List Char) :
    startsTag (lead ++ '@' :: c :: rest) = true ∨
      (afterBlockMark? (lead ++ '@' :: c :: rest)).any
        (fun more => startsTag (more.dropWhile isIndent)) = true ↔
      lead.count '#' ≤ 6 ∧ c.isAlpha = true := by
  have hskip : ∀ blanks : List Char, (∀ c ∈ blanks, isBlank c = true) → blanks ⊆ lead →
      (blanks ++ '@' :: c :: rest).dropWhile isIndent = '@' :: c :: rest := by
    intro blanks hblanks hsub
    rw [List.dropWhile_append_of_pos fun d hd => hindent d (hsub hd) (hblanks d hd)]
    rfl
  cases hlead with
  | bare =>
    have hnone : afterBlockMark? ('@' :: c :: rest) = none := rfl
    simp [hnone, startsTag]
  | @header n b blanks hblanks =>
    have hb : b ≠ '#' := by
      rintro rfl
      exact absurd (hblanks '#' List.mem_cons_self) (by decide)
    have hbindent : isIndent b = true := hindent b (by simp) (hblanks b List.mem_cons_self)
    have hsigns : (List.replicate (n + 1) '#' ++ b :: blanks).count '#' = n + 1 := by
      rw [List.count_append, List.count_replicate_self, count_of_isBlank hblanks]
    have htag : startsTag (List.replicate (n + 1) '#' ++ b :: blanks ++ '@' :: c :: rest) = false :=
      startsTag_cons_of_ne (x := '#') (by decide) _
    have hmark := afterBlockMark?_signs n hb (blanks ++ '@' :: c :: rest)
    have hrest := hskip blanks (fun d hd => hblanks d (List.mem_cons_of_mem _ hd)) (by simp)
    rw [htag, hsigns, List.append_assoc, List.cons_append, hmark]
    by_cases hn : n + 1 ≤ 6
    · simp [hn, hbindent, hrest, startsTag]
    · simp [hn]
  | @fence marker blanks hmarker hblanks =>
    have htag : startsTag (marker ++ blanks ++ '@' :: c :: rest) = false := by
      obtain ⟨x, hx, xs, rfl⟩ := exists_cons_of_mem_fenceMarkers hmarker
      refine startsTag_cons_of_ne ?_ _
      rintro rfl
      exact absurd hx (by decide)
    have hsigns : (marker ++ blanks).count '#' = 0 := by
      have hcount : ∀ marker ∈ fenceMarkers, marker.count '#' = 0 := by decide
      rw [List.count_append, hcount marker hmarker, count_of_isBlank hblanks]
    rw [htag, hsigns, List.append_assoc, afterBlockMark?_fence hmarker, Option.any_some,
      hskip blanks hblanks (by simp)]
    simp [startsTag]

/-- So it is behind a gutter: the gutter is passed over, and the lead is left. -/
theorem markup_gutter_iff {blanks mark more : List Char}
    (hblanks : ∀ d ∈ blanks, isBlank d = true) (hmark : mark ∈ gutterMarks)
    (hmore : ∀ d ∈ more, isBlank d = true)
    (hindent : ∀ d ∈ blanks ++ (mark ++ (more ++ lead)), isBlank d = true → isIndent d = true)
    (c : Char) (rest : List Char) :
    startsFragment (blanks ++ (mark ++ (more ++ lead)) ++ '@' :: c :: rest) = true ∨
        startsBlock (blanks ++ (mark ++ (more ++ lead)) ++ '@' :: c :: rest) = true ↔
      lead.count '#' ≤ 6 ∧ c.isAlpha = true := by
  have hgutter : afterGutter (blanks ++ (mark ++ (more ++ lead)) ++ '@' :: c :: rest) =
      lead ++ '@' :: c :: rest := by
    obtain ⟨x, xs, hcons, hx⟩ := hlead.exists_cons (c :: rest)
    simp only [List.append_assoc]
    rw [afterGutter_indent fun d hd => hindent d (by simp [hd]) (hblanks d hd), hcons]
    exact afterGutter_of_mark hmark (fun d hd => hindent d (by simp [hd]) (hmore d hd)) hx xs
  rw [startsFragment, startsBlock, hgutter]
  exact hlead.markup_iff (fun d hd => hindent d (by simp [hd])) c rest

end Lead

/-! ## Plain lines -/

/-- The line is written plainly: in front of its first at sign all blanks are spaces and tabs and
there are at most six number signs, and a letter follows it. -/
structure IsPlain (piece : List Char) : Prop where
  indent : ∀ c ∈ piece.takeWhile (· != '@'), isBlank c = true → isIndent c = true
  signs : (piece.takeWhile (· != '@')).count '#' ≤ 6
  letter : startsTag (piece.dropWhile (· != '@')) = true

theorem isPlain_iff_all (piece : List Char) :
    IsPlain piece ↔
      ((piece.takeWhile (· != '@')).all fun c => decide (isBlank c = true → isIndent c = true)) =
          true ∧
        (piece.takeWhile (· != '@')).count '#' ≤ 6 ∧
        startsTag (piece.dropWhile (· != '@')) = true := by
  simp only [List.all_eq_true, decide_eq_true_eq]
  exact ⟨fun h => ⟨h.indent, h.signs, h.letter⟩, fun h => ⟨h.1, h.2.1, h.2.2⟩⟩

instance (piece : List Char) : Decidable (IsPlain piece) :=
  decidable_of_iff' _ (isPlain_iff_all piece)

theorem isPlain_append_iff {front : List Char} (hfront : '@' ∉ front) (c : Char)
    (rest : List Char) :
    IsPlain (front ++ '@' :: c :: rest) ↔
      (∀ d ∈ front, isBlank d = true → isIndent d = true) ∧ front.count '#' ≤ 6 ∧
        c.isAlpha = true := by
  have hcut : (front ++ '@' :: c :: rest).takeWhile (· != '@') = front ∧
      (front ++ '@' :: c :: rest).dropWhile (· != '@') = '@' :: c :: rest := by
    refine cut_iff.2 ⟨rfl, fun d hd => ?_, by simp⟩
    exact bne_iff_ne.2 fun heq => hfront (heq ▸ hd)
  constructor
  · rintro ⟨hindent, hsigns, hletter⟩
    rw [hcut.1] at hindent hsigns
    rw [hcut.2] at hletter
    exact ⟨hindent, hsigns, hletter⟩
  · rintro ⟨hindent, hsigns, hletter⟩
    exact ⟨hcut.1.symm ▸ hindent, hcut.1.symm ▸ hsigns, hcut.2.symm ▸ hletter⟩

/-- The markup style recognises the line of a tag if and only if the line is plain. -/
theorem markup_iff_isPlain {offset : Nat} {piece : List Char}
    (h : (Line.ofPiece offset piece).HasLead) :
    startsFragment piece = true ∨ startsBlock piece = true ↔ IsPlain piece := by
  obtain ⟨lead, c, rest, hlead, htrimmed⟩ := h
  obtain ⟨blanks, mark, more, tail, hblanks, hmark, hmore, hpiece⟩ :=
    Line.exists_gutter offset piece
  have hfront : piece = blanks ++ (mark ++ (more ++ lead)) ++ '@' :: c :: (rest ++ tail) := by
    rw [hpiece, htrimmed]
    simp only [List.append_assoc, List.cons_append]
  have hmarks : ∀ mark ∈ gutterMarks, '@' ∉ mark ∧ mark.count '#' = 0 := by decide
  have hat : '@' ∉ blanks ++ (mark ++ (more ++ lead)) := by
    simp only [List.mem_append, not_or]
    exact ⟨at_not_mem_of_isBlank hblanks, (hmarks mark hmark).1, at_not_mem_of_isBlank hmore,
      hlead.at_not_mem⟩
  have hsigns : (blanks ++ (mark ++ (more ++ lead))).count '#' = lead.count '#' := by
    simp only [List.count_append, count_of_isBlank hblanks, (hmarks mark hmark).2,
      count_of_isBlank hmore, Nat.zero_add]
  rw [hfront, isPlain_append_iff hat, hsigns]
  -- Both sides want spaces and tabs, and behind these they want the same.
  constructor
  · intro hmarkup
    have hindent := isIndent_of_markup hat hmarkup
    exact ⟨hindent, (hlead.markup_gutter_iff hblanks hmark hmore hindent c _).1 hmarkup⟩
  · rintro ⟨hindent, hplain⟩
    exact (hlead.markup_gutter_iff hblanks hmark hmore hindent c _).2 hplain

/-! ## Lines of blocks -/

/-- The line with which a part begins. -/
def Block.first : Block → Line
  | .outside line => line
  | .fenced block => block.opening

theorem first_of_mem_blocks {lines : List Line} {part : Block} (h : part ∈ blocks lines) :
    part.first ∈ lines ∧
      ∀ block, part = .fenced block → block.opening.marker? = some block.marker := by
  fun_induction blocks lines with
  | case1 => cases h
  | case2 line rest hmarker ih =>
    rcases List.mem_cons.1 h with rfl | h
    · exact ⟨List.mem_cons_self, fun block heq => by cases heq⟩
    · obtain ⟨hmem, hopening⟩ := ih h
      exact ⟨List.mem_cons_of_mem _ hmem, hopening⟩
  | case3 line rest marker hmarker inside after ih =>
    rcases List.mem_cons.1 h with rfl | h
    · refine ⟨List.mem_cons_self, fun block heq => ?_⟩
      cases heq
      exact hmarker
    · obtain ⟨hmem, hopening⟩ := ih h
      exact ⟨List.mem_cons_of_mem _
        ((List.dropWhile_sublist _).subset ((List.tail_sublist _).subset hmem)), hopening⟩

theorem exists_part_of_mem_drafts {parts : List Block} {draft : TagDraft}
    (h : draft ∈ drafts parts) : ∃ part ∈ parts, ∃ prose, part.draft? prose = some draft := by
  induction parts with
  | nil => cases h
  | cons part rest ih =>
    rw [drafts, List.mem_append, Option.mem_toList] at h
    rcases h with h | h
    · exact ⟨part, List.mem_cons_self, _, h⟩
    · obtain ⟨other, hmem, hother⟩ := ih h
      exact ⟨other, List.mem_cons_of_mem _ hmem, hother⟩

/-- Every tag starts on a line with a lead. -/
theorem exists_line_of_mem_drafts {lines : List Line} {draft : TagDraft}
    (h : draft ∈ drafts (blocks lines)) :
    ∃ line ∈ lines, line.HasLead ∧ draft.start = line.textStart := by
  obtain ⟨part, hpart, prose, hdraft⟩ := exists_part_of_mem_drafts h
  obtain ⟨hfirst, hmarker⟩ := first_of_mem_blocks hpart
  refine ⟨part.first, hfirst, ?_⟩
  cases part with
  | outside line =>
    obtain ⟨tag, htag, rfl⟩ := Option.map_eq_some_iff.1 hdraft
    exact ⟨Line.hasLead_of_tag? htag, rfl⟩
  | fenced block =>
    obtain ⟨name, hname, rfl⟩ := Option.map_eq_some_iff.1 hdraft
    exact ⟨Fenced.hasLead_of_tagName? (hmarker block rfl) hname, rfl⟩

theorem Line.exists_piece_of_mem_ofPieces {offset : Nat} {parts : List (List Char)} {line : Line}
    (h : line ∈ ofPieces offset parts) :
    ∃ before piece after, parts = before ++ piece :: after ∧
      line = ofPiece (offset + byteLength before.flatten) piece := by
  induction parts generalizing offset with
  | nil => cases h
  | cons piece parts ih =>
    rcases List.mem_cons.1 h with rfl | h
    · exact ⟨[], piece, parts, rfl, rfl⟩
    · obtain ⟨before, other, after, rfl, rfl⟩ := ih h
      refine ⟨piece :: before, other, after, rfl, ?_⟩
      rw [List.flatten_cons, byteLength_append, Nat.add_assoc]

theorem Line.textStart_lt_stop {line : Line} (h : line.HasLead) : line.textStart < line.stop := by
  obtain ⟨lead, c, rest, -, htrimmed⟩ := h
  obtain ⟨blanks, -, hbody⟩ := exists_trimStart line.body
  have hlength : byteLength line.body = byteLength blanks + byteLength line.trimmed := by
    rw [← byteLength_append]
    exact congrArg byteLength hbody
  have hpos : 0 < byteLength line.trimmed := by
    rw [htrimmed, byteLength_append, byteLength, byteLength]
    have := Char.utf8Size_pos c
    omega
  rw [textStart, stop]
  omega

/-- A line with a lead is that line of the text in which its lead stands. -/
theorem Line.exists_lineAt {text : List Char} {line : Line} (hline : line ∈ ofText text)
    (hlead : line.HasLead) :
    ∃ offset piece, line = ofPiece offset piece ∧ piece ∈ pieces text ∧
      LineAt text line.textStart piece := by
  have hlt := textStart_lt_stop hlead
  obtain ⟨before, piece, after, hpieces, rfl⟩ := exists_piece_of_mem_ofPieces hline
  obtain ⟨hstart, hstop⟩ := ofPiece_bounds (0 + byteLength before.flatten) piece
  have htext := start_le_textStart (ofPiece (0 + byteLength before.flatten) piece)
  exact ⟨_, piece, rfl, hpieces ▸ by simp, before, after, hpieces, by omega, by omega⟩

/-! ## Style of a comment -/

/-- **A plain tag gives a style.** A comment is read, and it has a markup style if and only if one
of its lines has one. Every tag starts on a line of the comment, and this line has a markup style if
and only if it is plain. So a comment with a tag on a plain line has a markup style. -/
theorem style_of_tag {text : String} (hsize : byteLength text.toList < UInt32.size) :
    ∃ doc, read text = .ok doc ∧
      (doc.style ≠ .plain ↔
        ∃ piece ∈ pieces text.toList, markupStyle (String.ofList piece) ≠ .plain) ∧
      ∀ tag ∈ doc.tags, ∃ piece, LineAt text.toList tag.extent.bytes.1 piece ∧
        (markupStyle (String.ofList piece) ≠ .plain ↔ IsPlain piece) ∧
        (IsPlain piece → doc.style ≠ .plain) := by
  obtain ⟨doc, hread, hfrom⟩ := exists_readFrom hsize
  have hstyle : doc.style ≠ .plain ↔
      ∃ piece ∈ pieces text.toList, markupStyle (String.ofList piece) ≠ .plain := by
    rw [hfrom.style, markupStyle_ne_plain_iff]
    exact exists_congr fun piece => and_congr_right fun hpiece =>
      (markupStyle_piece_ne_plain_iff hpiece).symm
  refine ⟨doc, hread, hstyle, fun tag htag => ?_⟩
  have hspan : tag.extent.bytes ∈ (sections (parts text)).2.map TagDraft.span := by
    rw [← (hfrom.bytes_tags hsize).1]
    exact List.mem_map_of_mem (List.mem_map_of_mem htag)
  obtain ⟨draft, hdraft, hbytes⟩ := List.mem_map.1 hspan
  rw [parts, segments_eq_map_blocks, sections_eq_drafts] at hdraft
  obtain ⟨line, hline, hlead, hstart⟩ := exists_line_of_mem_drafts hdraft
  obtain ⟨offset, piece, rfl, hpiece, hat⟩ := Line.exists_lineAt hline hlead
  have hplain : markupStyle (String.ofList piece) ≠ .plain ↔ IsPlain piece := by
    rw [markupStyle_piece_ne_plain_iff hpiece, markup_iff_isPlain hlead]
  refine ⟨piece, ?_, hplain, fun h => hstyle.2 ⟨piece, hpiece, hplain.2 h⟩⟩
  rw [← hbytes, TagDraft.span, hstart]
  exact hat

/-- A header with two number signs, and one with seven. -/
def twoHeaders : String :=
  "/** ## @a b\n * ####### @c */"

theorem lineAt_twoHeaders :
    LineAt twoHeaders.toList 4 "/** ## @a b\n".toList ∧
      LineAt twoHeaders.toList 15 " * ####### @c */".toList := by
  have hpieces : pieces twoHeaders.toList =
      ["/** ## @a b\n".toList, " * ####### @c */".toList] := by
    decide +kernel
  exact ⟨⟨[], _, hpieces, by decide +kernel, by decide +kernel⟩,
    ⟨["/** ## @a b\n".toList], [], hpieces, by decide +kernel, by decide +kernel⟩⟩

theorem style_of_tag_twoHeaders :
    byteLength twoHeaders.toList < UInt32.size ∧
      ∃ doc, read twoHeaders = .ok doc ∧ doc.tags.map (·.name) = ["a", "c"] ∧ doc.style ≠ .plain ∧
        IsPlain "/** ## @a b\n".toList ∧ markupStyle " * ####### @c */" = .plain := by
  have hsize : byteLength twoHeaders.toList < UInt32.size := by decide +kernel
  have hplain : IsPlain "/** ## @a b\n".toList := by decide +kernel
  obtain ⟨doc, hread, -, htags⟩ := style_of_tag hsize
  obtain ⟨doc', hread', hdoc⟩ : ∃ doc, read twoHeaders = .ok doc ∧
      (doc.tags.map (·.name) == ["a", "c"] && doc.tags.map (·.extent.bytes.1) == [4, 15]) = true :=
    exists_read_of_any (by decide +kernel)
  obtain rfl : doc = doc' := Except.ok.inj (hread.symm.trans hread')
  rw [Bool.and_eq_true, beq_iff_eq, beq_iff_eq] at hdoc
  obtain ⟨first, rest, hcons, hfirst, hrest⟩ := List.map_eq_cons_iff.1 hdoc.2
  obtain ⟨second, more, rfl, hsecond, -⟩ := List.map_eq_cons_iff.1 hrest
  obtain ⟨piece, hpiece, -, hstyle⟩ := htags first (by simp [hcons])
  obtain ⟨other, hother, hiff, -⟩ := htags second (by simp [hcons])
  rw [hfirst] at hpiece
  rw [hsecond] at hother
  obtain rfl := hpiece.eq lineAt_twoHeaders.1
  obtain rfl := hother.eq lineAt_twoHeaders.2
  refine ⟨hsize, doc, hread, hdoc.1, hstyle hplain, hplain, ?_⟩
  by_contra hne
  exact absurd (hiff.1 (String.ofList_toList.symm ▸ hne)) (by decide +kernel)

/-- A tag behind a blank that is not a space. -/
def hiddenTag : String :=
  "/**\n *\u00a0@deprecated\n */"

/-- A comment can have a tag and no markup style. -/
theorem tag_without_style :
    ¬ ∀ (text : String) (doc : DocComment), byteLength text.toList < UInt32.size →
      read text = .ok doc → doc.tags ≠ [] → doc.style ≠ .plain := by
  intro hall
  obtain ⟨doc, hread, hdoc⟩ : ∃ doc, read hiddenTag = .ok doc ∧
      (doc.style == .plain && !doc.tags.isEmpty) = true :=
    exists_read_of_any (by decide +kernel)
  obtain ⟨hstyle, htags⟩ := Bool.and_eq_true_iff.1 hdoc
  refine hall hiddenTag doc (by decide +kernel) hread ?_ (beq_iff_eq.1 hstyle)
  intro hnil
  rw [hnil] at htags
  cases htags

end Comment

end DocOutline
