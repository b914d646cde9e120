import DocOutline.Proofs.LineBlocks

/-!
# Markup line by line

The markup style of a comment looks at the starts of its lines. What it finds there depends on
nothing but the line: neither a newline nor a carriage return belongs to any pattern, so no pattern
reaches beyond the end of its line (`Foreign.startsFragment_append`, `Foreign.startsBlock_append`),
and a text has markup if one of its lines has (`isMarkupFragment_eq_any_splitOn`,
`isMarkupBlock_eq_any_splitOn`), which is to say if one of its pieces has.
-/

namespace DocOutline

open Text

/-! ## Lines of a text -/

namespace Text

theorem pieces_of_line {line : List Char} (hne : line ≠ []) (hline : '\n' ∉ line) :
    pieces line = [line] := by
  induction line with
  | nil => exact absurd rfl hne
  | cons c line ih =>
    obtain ⟨hc, hline⟩ := List.ne_and_not_mem_of_not_mem_cons hline
    rw [pieces, if_neg (Ne.symm hc)]
    cases line with
    | nil => rfl
    | cons d line => rw [ih (List.cons_ne_nil d line) hline]

theorem pieces_append {line : List Char} (hline : '\n' ∉ line) (rest : List Char) :
    pieces (line ++ '\n' :: rest) = (line ++ ['\n']) :: pieces rest := by
  induction line with
  | nil => simp [pieces]
  | cons c line ih =>
    obtain ⟨hc, hline⟩ := List.ne_and_not_mem_of_not_mem_cons hline
    rw [List.cons_append, pieces, if_neg (Ne.symm hc), ih hline]
    rfl

/-- Induction on the lines of a text: it is empty, it is a line without a newline, or a line with
its newline stands in front of a text. -/
theorem line_induction {motive : List Char → Prop} (nil : motive [])
    (last : ∀ line, line ≠ [] → '\n' ∉ line → motive line)
    (line : ∀ line rest, '\n' ∉ line → motive rest → motive (line ++ '\n' :: rest))
    (cs : List Char) : motive cs := by
  by_cases hmem : '\n' ∈ cs
  · obtain ⟨front, rest, heq, hfront⟩ := List.eq_append_cons_of_mem hmem
    rw [heq]
    exact line front rest hfront (line_induction nil last line rest)
  · by_cases hne : cs = []
    · exact hne ▸ nil
    · exact last cs hne hmem
termination_by cs.length
decreasing_by simp [heq]; omega

theorem afterSomeNewline_of_not_mem {p : List Char → Bool} {line : List Char}
    (hline : '\n' ∉ line) : afterSomeNewline p line = false := by
  induction line with
  | nil => rfl
  | cons c line ih =>
    obtain ⟨hc, hline⟩ := List.ne_and_not_mem_of_not_mem_cons hline
    simp [afterSomeNewline, Ne.symm hc, ih hline]

theorem afterSomeNewline_append {p : List Char → Bool} {line : List Char} (hline : '\n' ∉ line)
    (rest : List Char) : afterSomeNewline p (line ++ '\n' :: rest) = atSomeLine p rest := by
  induction line with
  | nil => simp [afterSomeNewline, atSomeLine]
  | cons c line ih =>
    obtain ⟨hc, hline⟩ := List.ne_and_not_mem_of_not_mem_cons hline
    simp [afterSomeNewline, Ne.symm hc, ih hline]

/-- A test that looks at one line only holds at the start of some line if it holds of some line. -/
theorem atSomeLine_eq_any_splitOn {p : List Char → Bool}
    (hline : ∀ line rest, p (line ++ '\n' :: rest) = p line) (cs : List Char) :
    atSomeLine p cs = (cs.splitOn '\n').any p := by
  induction cs using line_induction with
  | nil => simp [atSomeLine, afterSomeNewline]
  | last line hne hmem =>
    rw [atSomeLine, afterSomeNewline_of_not_mem hmem, List.splitOn_eq_singleton hmem]
    simp
  | line line rest hmem ih =>
    rw [atSomeLine, hline, afterSomeNewline_append hmem, ih,
      List.splitOn_append_cons_self_of_not_mem hmem, List.any_cons]

/-- The pieces differ from the lines by their newlines and by an empty line at the end. -/
theorem any_splitOn_eq_any_pieces {p : List Char → Bool} (hnil : p [] = false)
    (hline : ∀ line rest, p (line ++ '\n' :: rest) = p line) (cs : List Char) :
    (cs.splitOn '\n').any p = (pieces cs).any p := by
  induction cs using line_induction with
  | nil => simp [pieces, hnil]
  | last line hne hmem => rw [List.splitOn_eq_singleton hmem, pieces_of_line hne hmem]
  | line line rest hmem ih =>
    rw [List.splitOn_append_cons_self_of_not_mem hmem, pieces_append hmem, List.any_cons,
      List.any_cons, ih, hline]

theorem dropWhile_append_cons {p : Char → Bool} {c : Char} (hc : p c = false)
    (cs rest : List Char) : (cs ++ c :: rest).dropWhile p = cs.dropWhile p ++ c :: rest := by
  rw [List.dropWhile_append]
  split
  · rename_i hempty
    rw [List.isEmpty_iff.1 hempty, List.dropWhile_cons_of_neg (by simp [hc])]
    rfl
  · rfl

theorem takeWhile_append_cons {p : Char → Bool} {c : Char} (hc : p c = false)
    (cs rest : List Char) : (cs ++ c :: rest).takeWhile p = cs.takeWhile p := by
  rw [List.takeWhile_append, List.takeWhile_cons_of_neg (by simp [hc]), List.append_nil]
  split
  · rename_i hlength
    exact ((List.takeWhile_prefix p).eq_of_length hlength).symm
  · rfl

/-- A mark without the character `c` ends before it. -/
theorem isPrefix_append_cons_iff {mark : List Char} {c : Char} (hc : c ∉ mark)
    (cs rest : List Char) : mark <+: cs ++ c :: rest ↔ mark <+: cs := by
  constructor
  · intro h
    rcases List.prefix_or_prefix_of_prefix h (List.prefix_append cs (c :: rest)) with hmark | hcs
    · exact hmark
    · obtain ⟨more, rfl⟩ := hcs
      cases more with
      | nil => simp
      | cons d more =>
        have hd := List.cons_prefix_cons.1 ((List.prefix_append_right_inj cs).1 h)
        exact absurd (hd.1 ▸ by simp) hc
  · exact fun h => h.trans (List.prefix_append _ _)

end Text

namespace Comment

/-! ## Where a pattern ends -/

/-- The characters of gutters and block marks, and the at sign. -/
def markChars : List Char :=
  ['/', '*', '`', '~', '#', '@']

/-- A character that belongs to no pattern. -/
structure Foreign (c : Char) : Prop where
  indent : isIndent c = false
  letter : c.isAlpha = false
  mark : c ∉ markChars

theorem foreign_newline : Foreign '\n' :=
  ⟨rfl, rfl, by decide⟩

theorem foreign_return : Foreign '\r' :=
  ⟨rfl, rfl, by decide⟩

theorem afterGutterMark_of_not_isPrefix {cs : List Char} (hopening : ¬ ['/', '*', '*'] <+: cs)
    (hstar : ¬ ['*'] <+: cs) : afterGutterMark cs = cs := by
  unfold afterGutterMark
  split
  · exact absurd ⟨_, rfl⟩ hopening
  · exact absurd ⟨_, rfl⟩ hstar
  · rfl

section Indent

variable {indent : List Char} (hindent : ∀ c ∈ indent, isIndent c = true)

include hindent

/-- Spaces and tabs in front of a line are part of its gutter. -/
theorem afterGutter_indent (line : List Char) :
    afterGutter (indent ++ line) = afterGutter line := by
  rw [afterGutter, afterGutter, List.dropWhile_append_of_pos hindent]

theorem startsFragment_indent (line : List Char) :
    startsFragment (indent ++ line) = startsFragment line := by
  rw [startsFragment, startsFragment, afterGutter_indent hindent]

theorem startsBlock_indent (line : List Char) :
    startsBlock (indent ++ line) = startsBlock line := by
  rw [startsBlock, startsBlock, afterGutter_indent hindent]

end Indent

theorem afterBlockMark?_of_not_isPrefix {cs : List Char}
    (h : ∀ marker ∈ fenceMarkers, ¬ marker <+: cs) :
    afterBlockMark? cs =
      match cs.dropWhile (· == '#') with
      | c :: rest =>
        if 1 ≤ (cs.takeWhile (· == '#')).length ∧ (cs.takeWhile (· == '#')).length ≤ 6 ∧ isIndent c
          then some rest else none
      | [] => none := by
  unfold afterBlockMark?
  split
  · exact absurd ⟨_, rfl⟩ (h ['`', '`', '`'] (by decide))
  · exact absurd ⟨_, rfl⟩ (h ['~', '~', '~'] (by decide))
  · rfl

theorem afterBlockMark?_fence {marker : List Char} (hmarker : marker ∈ fenceMarkers)
    (rest : List Char) : afterBlockMark? (marker ++ rest) = some rest := by
  simp only [fenceMarkers, List.mem_cons, List.not_mem_nil, or_false] at hmarker
  rcases hmarker with rfl | rfl
  · rfl
  · rfl

theorem startsTag_singleton (a : Char) : startsTag [a] = false := by
  unfold startsTag
  split
  · rename_i heq
    cases heq
  · rfl

theorem startsTag_cons_cons (a b : Char) (cs : List Char) :
    startsTag (a :: b :: cs) = (a == '@' && b.isAlpha) := by
  unfold startsTag
  split
  · rename_i heq
    cases heq
    rfl
  · rename_i hne
    have ha : a ≠ '@' := fun h => hne b cs (h ▸ rfl)
    simp [ha]

namespace Foreign

variable {c : Char} (hc : Foreign c)

include hc

theorem not_mem {mark : List Char} (hmark : mark ⊆ markChars) : c ∉ mark :=
  fun h => hc.mark (hmark h)

theorem beq_false {d : Char} (hd : d ∈ markChars) : (c == d) = false :=
  beq_eq_false_iff_ne.2 fun h => hc.mark (h ▸ hd)

theorem afterGutterMark_append (cs rest : List Char) :
    afterGutterMark (cs ++ c :: rest) = afterGutterMark cs ++ c :: rest := by
  by_cases hopening : ['/', '*', '*'] <+: cs
  · obtain ⟨more, rfl⟩ := hopening
    have hstar : (c == '*') = false := hc.beq_false (by decide)
    exact dropWhile_append_cons (p := (· == '*')) hstar more rest
  · by_cases hstar : ['*'] <+: cs
    · obtain ⟨more, rfl⟩ := hstar
      rfl
    · rw [afterGutterMark_of_not_isPrefix hopening hstar, afterGutterMark_of_not_isPrefix]
      · rwa [isPrefix_append_cons_iff (hc.not_mem (by decide))]
      · rwa [isPrefix_append_cons_iff (hc.not_mem (by decide))]

theorem afterGutter_append (line rest : List Char) :
    afterGutter (line ++ c :: rest) = afterGutter line ++ c :: rest := by
  rw [afterGutter, afterGutter, dropWhile_append_cons hc.indent, hc.afterGutterMark_append,
    dropWhile_append_cons hc.indent]

theorem startsTag_append (cs rest : List Char) : startsTag (cs ++ c :: rest) = startsTag cs := by
  have hat : (c == '@') = false := hc.beq_false (by decide)
  rcases cs with _ | ⟨a, _ | ⟨b, cs⟩⟩
  · cases rest with
    | nil => exact startsTag_singleton c
    | cons d rest =>
      rw [List.nil_append, startsTag_cons_cons, hat]
      rfl
  · simp [startsTag_cons_cons, startsTag_singleton, hc.letter]
  · simp [startsTag_cons_cons]

theorem afterBlockMark?_append (cs rest : List Char) :
    afterBlockMark? (cs ++ c :: rest) = (afterBlockMark? cs).map (· ++ c :: rest) := by
  by_cases hfence : ∃ marker ∈ fenceMarkers, marker <+: cs
  · obtain ⟨marker, hmarker, more, rfl⟩ := hfence
    rw [List.append_assoc, afterBlockMark?_fence hmarker, afterBlockMark?_fence hmarker,
      Option.map_some]
  · push Not at hfence
    have hfence' : ∀ marker ∈ fenceMarkers, ¬ marker <+: cs ++ c :: rest := by
      intro marker hmem
      have hsub : marker ⊆ markChars := by revert marker; decide
      rw [isPrefix_append_cons_iff (hc.not_mem hsub)]
      exact hfence marker hmem
    have hhash : (c == '#') = false := hc.beq_false (by decide)
    rw [afterBlockMark?_of_not_isPrefix hfence, afterBlockMark?_of_not_isPrefix hfence',
      dropWhile_append_cons (p := (· == '#')) hhash, takeWhile_append_cons (p := (· == '#')) hhash]
    cases cs.dropWhile (· == '#') with
    | nil => simp [hc.indent]
    | cons d more =>
      simp only [List.cons_append]
      split_ifs
      · rfl
      · rfl

theorem startsFragment_append (line rest : List Char) :
    startsFragment (line ++ c :: rest) = startsFragment line := by
  rw [startsFragment, hc.afterGutter_append, hc.startsTag_append, startsFragment]

theorem startsBlock_append (line rest : List Char) :
    startsBlock (line ++ c :: rest) = startsBlock line := by
  rw [startsBlock, startsBlock, hc.afterGutter_append, hc.afterBlockMark?_append]
  cases afterBlockMark? (afterGutter line) with
  | none => rfl
  | some more =>
    simp only [Option.map_some, Option.any_some, dropWhile_append_cons hc.indent,
      hc.startsTag_append]

end Foreign

/-! ## Markup of a text -/

theorem isMarkupFragment_eq_any_splitOn (text : String) :
    isMarkupFragment text = (text.toList.splitOn '\n').any startsFragment :=
  atSomeLine_eq_any_splitOn foreign_newline.startsFragment_append text.toList

theorem isMarkupBlock_eq_any_splitOn (text : String) :
    isMarkupBlock text = (text.toList.splitOn '\n').any startsBlock :=
  atSomeLine_eq_any_splitOn foreign_newline.startsBlock_append text.toList

theorem isMarkupFragment_eq_any (text : String) :
    isMarkupFragment text = (pieces text.toList).any startsFragment :=
  (isMarkupFragment_eq_any_splitOn text).trans
    (any_splitOn_eq_any_pieces rfl foreign_newline.startsFragment_append text.toList)

theorem isMarkupBlock_eq_any (text : String) :
    isMarkupBlock text = (pieces text.toList).any startsBlock :=
  (isMarkupBlock_eq_any_splitOn text).trans
    (any_splitOn_eq_any_pieces rfl foreign_newline.startsBlock_append text.toList)

end Comment

end DocOutline
