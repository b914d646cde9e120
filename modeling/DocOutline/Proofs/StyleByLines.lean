import DocOutline.Proofs.StyleOfTags
import Mathlib.Order.Basic
import Mathlib.Order.Lattice

/-!
# Markup style by lines

A text has markup if a pattern is found at the start of one of its lines: a tag behind a gutter, or
a tag behind a gutter and a block mark. The patterns are given here by what is put together to write
them (`BareTag`, `MarkedTag`), and the two tests by where such a part stands (`startsFragment_iff`,
`startsBlock_iff`).

No pattern holds a newline, so a text has the markup of its lines and no other. The styles are
ordered, and the style of two texts with a newline between them is the greater of the two
(`markupStyle_by_lines`).
-/

namespace DocOutline

open Text

/-! ## Lines of a text -/

namespace Text

theorem afterSomeNewline_iff {p : List Char → Bool} {cs : List Char} :
    afterSomeNewline p cs = true ↔ ∃ front rest, cs = front ++ '\n' :: rest ∧ p rest = true := by
  induction cs with
  | nil => simp [afterSomeNewline]
  | cons c cs ih =>
    rw [afterSomeNewline, Bool.or_eq_true, Bool.and_eq_true, beq_iff_eq, ih]
    constructor
    · rintro (⟨rfl, h⟩ | ⟨front, rest, rfl, h⟩)
      · exact ⟨[], cs, rfl, h⟩
      · exact ⟨c :: front, rest, rfl, h⟩
    · rintro ⟨front, rest, heq, h⟩
      cases front with
      | nil =>
        cases heq
        exact .inl ⟨rfl, h⟩
      | cons d front =>
        cases heq
        exact .inr ⟨front, rest, rfl, h⟩

/-- What stands before the start of a line: nothing, or a text that ends with a newline. -/
def EndsLine (before : List Char) : Prop :=
  before = [] ∨ ∃ front, before = front ++ ['\n']

theorem atSomeLine_iff {p : List Char → Bool} {cs : List Char} :
    atSomeLine p cs = true ↔
      ∃ before rest, cs = before ++ rest ∧ EndsLine before ∧ p rest = true := by
  rw [atSomeLine, Bool.or_eq_true, afterSomeNewline_iff]
  constructor
  · rintro (h | ⟨front, rest, rfl, h⟩)
    · exact ⟨[], cs, rfl, .inl rfl, h⟩
    · exact ⟨front ++ ['\n'], rest, by simp, .inr ⟨front, rfl⟩, h⟩
  · rintro ⟨before, rest, rfl, rfl | ⟨front, rfl⟩, h⟩
    · exact .inl h
    · exact .inr ⟨front, rest, by simp, h⟩

theorem not_mem_of_mem_splitOn {cs line : List Char} (h : line ∈ cs.splitOn '\n') :
    '\n' ∉ line := by
  induction cs using line_induction with
  | nil =>
    rw [List.splitOn_nil] at h
    rw [List.mem_singleton.1 h]
    exact List.not_mem_nil
  | last last hne hmem =>
    rw [List.splitOn_eq_singleton hmem] at h
    rwa [List.mem_singleton.1 h]
  | line first rest hmem ih =>
    rw [List.splitOn_append_cons_self_of_not_mem hmem] at h
    rcases List.mem_cons.1 h with rfl | h
    · exact hmem
    · exact ih h

end Text

namespace Comment

/-! ## The patterns -/

/-- The mark of a gutter: nothing, a star, or the opening of a comment with any number of stars. -/
inductive GutterMark : List Char → Prop
  | bare : GutterMark []
  | star : GutterMark ['*']
  | opening (n : Nat) : GutterMark ('/' :: List.replicate (n + 2) '*')

/-- A gutter: spaces and tabs around its mark. -/
inductive Gutter : List Char → Prop
  | intro {indent mark space : List Char} (hindent : ∀ c ∈ indent, isIndent c = true)
    (hmark : GutterMark mark) (hspace : ∀ c ∈ space, isIndent c = true) :
    Gutter (indent ++ (mark ++ space))

/-- The mark of a block: a fence, or one to six number signs with spaces and tabs after them. -/
inductive BlockMark : List Char → Prop
  | fence {marker : List Char} (hmarker : marker ∈ fenceMarkers) : BlockMark marker
  | header {n : Nat} {c : Char} {space : List Char} (hn : n + 1 ≤ 6)
    (hspace : ∀ d ∈ c :: space, isIndent d = true) :
    BlockMark (List.replicate (n + 1) '#' ++ c :: space)

/-- A tag: an at sign, a letter and any other characters of a name. -/
inductive TagWord : List Char → Prop
  | intro {letter : Char} {name : List Char} (hletter : letter.isAlpha = true)
    (hname : ∀ c ∈ name, TagLine.isNameChar c = true) : TagWord ('@' :: letter :: name)

/-- The argument of a tag: nothing, or braces in the same line after spaces and tabs. -/
inductive Argument : List Char → Prop
  | absent : Argument []
  | braces {c : Char} {space inner : List Char} (hspace : ∀ d ∈ c :: space, isIndent d = true)
    (hinner : ∀ d ∈ inner, d ≠ '\x7d' ∧ d ≠ '\n') :
    Argument (c :: space ++ '\x7b' :: inner ++ ['\x7d'])

/-- A gutter, a tag and its argument. -/
inductive BareTag : List Char → Prop
  | intro {gutter tag argument : List Char} (hgutter : Gutter gutter) (htag : TagWord tag)
    (hargument : Argument argument) : BareTag (gutter ++ (tag ++ argument))

/-- A gutter, the mark of a block, spaces and tabs, and a tag. -/
inductive MarkedTag : List Char → Prop
  | intro {gutter mark space tag : List Char} (hgutter : Gutter gutter) (hmark : BlockMark mark)
    (hspace : ∀ c ∈ space, isIndent c = true) (htag : TagWord tag) :
    MarkedTag (gutter ++ (mark ++ (space ++ tag)))

/-! ## Where a pattern is found -/

/-- One letter is tag enough: the pattern may stop there. -/
theorem startsTag_iff {cs : List Char} :
    startsTag cs = true ↔ ∃ tag, TagWord tag ∧ tag <+: cs := by
  constructor
  · intro h
    unfold startsTag at h
    split at h
    · rename_i c rest
      exact ⟨['@', c], .intro h (List.forall_mem_nil _), rest, rfl⟩
    · cases h
  · rintro ⟨_, ⟨hletter, -⟩, rest, rfl⟩
    exact hletter

/-- What follows a gutter does not begin like one. -/
theorem Gutter.afterGutter_append {gutter : List Char} (h : Gutter gutter) {x : Char}
    (hx : x ∈ ['#', '`', '~', '@']) (xs : List Char) :
    afterGutter (gutter ++ x :: xs) = x :: xs := by
  obtain ⟨hindent, hmark, hspace⟩ := h
  rename_i indent mark space
  rw [List.append_assoc, List.append_assoc, afterGutter_indent hindent]
  cases hmark with
  | bare => exact afterGutter_of_mark (by decide) hspace hx xs
  | star => exact afterGutter_of_mark (by decide) hspace hx xs
  | opening n =>
    -- Further stars belong to the opening: the text goes on as after an opening with two.
    have hstars : afterGutter ('/' :: List.replicate (n + 2) '*' ++ (space ++ x :: xs)) =
        afterGutter (['/', '*', '*'] ++ (space ++ x :: xs)) := by
      show ((List.replicate n '*' ++ (space ++ x :: xs)).dropWhile (· == '*')).dropWhile isIndent =
        ((space ++ x :: xs).dropWhile (· == '*')).dropWhile isIndent
      rw [List.dropWhile_append_of_pos (by simp)]
    rw [hstars]
    exact afterGutter_of_mark (by decide) hspace hx xs

theorem exists_gutterMark (cs : List Char) :
    ∃ mark, GutterMark mark ∧ cs = mark ++ afterGutterMark cs := by
  unfold afterGutterMark
  split
  · rename_i more
    obtain ⟨hmore, hstars, -⟩ := (@cut_iff (· == '*') more _ _).1 ⟨rfl, rfl⟩
    have hreplicate : more.takeWhile (· == '*') =
        List.replicate (more.takeWhile (· == '*')).length '*' :=
      List.eq_replicate_iff.2 ⟨rfl, fun c hc => beq_iff_eq.1 (hstars c hc)⟩
    refine ⟨_, .opening (more.takeWhile (· == '*')).length, ?_⟩
    rw [List.replicate_succ, List.replicate_succ, ← hreplicate]
    show '/' :: '*' :: '*' :: more = '/' :: '*' :: '*' :: (_ ++ _)
    rw [← hmore]
  · exact ⟨['*'], .star, rfl⟩
  · exact ⟨[], .bare, rfl⟩

/-- A line is a gutter and what follows it. -/
theorem exists_gutter_append (cs : List Char) :
    ∃ gutter, Gutter gutter ∧ cs = gutter ++ afterGutter cs := by
  obtain ⟨hcs, hindent, -⟩ := (@cut_iff isIndent cs _ _).1 ⟨rfl, rfl⟩
  obtain ⟨mark, hmark, hrest⟩ := exists_gutterMark (cs.dropWhile isIndent)
  obtain ⟨hmore, hspace, -⟩ :=
    (@cut_iff isIndent (afterGutterMark (cs.dropWhile isIndent)) _ _).1 ⟨rfl, rfl⟩
  refine ⟨_, .intro hindent hmark hspace, ?_⟩
  rw [afterGutter, List.append_assoc, List.append_assoc, ← hmore, ← hrest, ← hcs]

/-- **A text begins with a bare tag** if and only if the pattern is found at its start. -/
theorem startsFragment_iff {cs : List Char} :
    startsFragment cs = true ↔ ∃ part, BareTag part ∧ part <+: cs := by
  rw [startsFragment]
  constructor
  · intro h
    obtain ⟨tag, htag, hprefix⟩ := startsTag_iff.1 h
    obtain ⟨gutter, hgutter, hcs⟩ := exists_gutter_append cs
    refine ⟨gutter ++ (tag ++ []), .intro hgutter htag .absent, ?_⟩
    rw [hcs, List.append_nil]
    exact (List.prefix_append_right_inj gutter).2 hprefix
  · rintro ⟨_, ⟨hgutter, ⟨hletter, -⟩, -⟩, rest, rfl⟩
    rw [List.append_assoc, List.append_assoc, List.cons_append,
      hgutter.afterGutter_append (by decide)]
    exact hletter

theorem exists_blockMark {cs rest : List Char} (h : afterBlockMark? cs = some rest) :
    ∃ mark, BlockMark mark ∧ cs = mark ++ rest := by
  unfold afterBlockMark? at h
  split at h
  · cases h
    exact ⟨['`', '`', '`'], .fence (by decide), rfl⟩
  · cases h
    exact ⟨['~', '~', '~'], .fence (by decide), rfl⟩
  · dsimp only at h
    split at h
    · rename_i c more hmore
      split_ifs at h with hmark
      cases h
      obtain ⟨hone, hsix, hindent⟩ := hmark
      obtain ⟨hcs, hsigns, -⟩ := cut_iff.1 ⟨rfl, hmore⟩
      obtain ⟨n, hn⟩ : ∃ n, (cs.takeWhile (· == '#')).length = n + 1 :=
        ⟨(cs.takeWhile (· == '#')).length - 1, by omega⟩
      have hreplicate : cs.takeWhile (· == '#') = List.replicate (n + 1) '#' :=
        List.eq_replicate_iff.2 ⟨hn, fun d hd => beq_iff_eq.1 (hsigns d hd)⟩
      refine ⟨List.replicate (n + 1) '#' ++ [c], .header (by omega) (by simpa using hindent), ?_⟩
      rw [hcs, hreplicate, List.append_assoc]
      rfl
    · cases h

namespace BlockMark

variable {mark : List Char} (h : BlockMark mark)

include h

theorem exists_cons (more : List Char) :
    ∃ x xs, mark ++ more = x :: xs ∧ x ∈ ['#', '`', '~', '@'] := by
  cases h with
  | fence hmarker =>
    obtain ⟨x, hx, xs, rfl⟩ := exists_cons_of_mem_fenceMarkers hmarker
    have hsub : ['`', '~'] ⊆ ['#', '`', '~', '@'] := by decide
    exact ⟨x, _, rfl, hsub hx⟩
  | header hn hspace => exact ⟨'#', _, rfl, by decide⟩

/-- Of a mark, at most spaces and tabs are left over. -/
theorem exists_afterBlockMark? (more : List Char) :
    ∃ space, (∀ c ∈ space, isIndent c = true) ∧
      afterBlockMark? (mark ++ more) = some (space ++ more) := by
  cases h with
  | fence hmarker => exact ⟨[], by simp, afterBlockMark?_fence hmarker more⟩
  | @header n c space hn hspace =>
    have hc : isIndent c = true := hspace c List.mem_cons_self
    have hsign : c ≠ '#' := by
      rintro rfl
      exact absurd hc (by decide)
    refine ⟨space, fun d hd => hspace d (List.mem_cons_of_mem c hd), ?_⟩
    rw [List.append_assoc, List.cons_append, afterBlockMark?_signs n hsign, if_pos ⟨hn, hc⟩]

end BlockMark

/-- **A text begins with a marked tag** if and only if the pattern is found at its start. -/
theorem startsBlock_iff {cs : List Char} :
    startsBlock cs = true ↔ ∃ part, MarkedTag part ∧ part <+: cs := by
  rw [startsBlock, Option.any_eq_true]
  constructor
  · rintro ⟨rest, hrest, h⟩
    obtain ⟨tag, htag, hprefix⟩ := startsTag_iff.1 h
    obtain ⟨gutter, hgutter, hcs⟩ := exists_gutter_append cs
    obtain ⟨mark, hmark, hafter⟩ := exists_blockMark hrest
    obtain ⟨hspaces, hspace, -⟩ := (@cut_iff isIndent rest _ _).1 ⟨rfl, rfl⟩
    refine ⟨_, .intro hgutter hmark hspace htag, ?_⟩
    rw [hcs, hafter, List.prefix_append_right_inj, List.prefix_append_right_inj]
    nth_rewrite 2 [hspaces]
    rwa [List.prefix_append_right_inj]
  · rintro ⟨_, @⟨gutter, mark, space, tag, hgutter, hmark, hspace, htag⟩, rest, rfl⟩
    obtain ⟨x, xs, hcons, hx⟩ := hmark.exists_cons (space ++ (tag ++ rest))
    obtain ⟨left, hleft, hafter⟩ := hmark.exists_afterBlockMark? (space ++ (tag ++ rest))
    refine ⟨left ++ (space ++ (tag ++ rest)), ?_, ?_⟩
    · rw [List.append_assoc, List.append_assoc, List.append_assoc, hcons,
        hgutter.afterGutter_append hx, ← hcons, hafter]
    · rw [List.dropWhile_append_of_pos hleft, List.dropWhile_append_of_pos hspace]
      obtain ⟨hletter, -⟩ := htag
      exact hletter

/-! ## Styles of texts -/

/-- The pattern is found in the text, at the start of one of its lines. -/
def FoundIn (Pattern : List Char → Prop) (cs : List Char) : Prop :=
  ∃ before part after, cs = before ++ (part ++ after) ∧ EndsLine before ∧ Pattern part

theorem atSomeLine_iff_foundIn {p : List Char → Bool} {Pattern : List Char → Prop}
    (h : ∀ cs, p cs = true ↔ ∃ part, Pattern part ∧ part <+: cs) (cs : List Char) :
    atSomeLine p cs = true ↔ FoundIn Pattern cs := by
  rw [atSomeLine_iff]
  constructor
  · rintro ⟨before, rest, rfl, hbefore, hrest⟩
    obtain ⟨part, hpart, after, rfl⟩ := (h rest).1 hrest
    exact ⟨before, part, after, rfl, hbefore, hpart⟩
  · rintro ⟨before, part, after, rfl, hbefore, hpart⟩
    exact ⟨before, part ++ after, rfl, hbefore, (h _).2 ⟨part, hpart, List.prefix_append _ _⟩⟩

theorem splitOn_append_newline (a b : String) :
    (a ++ "\n" ++ b).toList.splitOn '\n' = a.toList.splitOn '\n' ++ b.toList.splitOn '\n' := by
  rw [String.toList_append, String.toList_append, List.append_assoc]
  exact List.splitOn_append_cons_self a.toList b.toList

/-- A test that holds of a text if it holds of one of its lines. -/
theorem eq_true_iff_exists_line {p : String → Bool} {q : List Char → Bool}
    (h : ∀ text, p text = (text.toList.splitOn '\n').any q) (text : String) :
    p text = true ↔ ∃ line ∈ text.toList.splitOn '\n', p (.ofList line) = true := by
  have hline : ∀ line ∈ text.toList.splitOn '\n', p (.ofList line) = q line := by
    intro line hmem
    rw [h, String.toList_ofList, List.splitOn_eq_singleton (not_mem_of_mem_splitOn hmem)]
    simp
  rw [h, List.any_eq_true]
  constructor
  · rintro ⟨line, hmem, hq⟩
    exact ⟨line, hmem, by rwa [hline line hmem]⟩
  · rintro ⟨line, hmem, hp⟩
    exact ⟨line, hmem, by rwa [← hline line hmem]⟩

namespace MarkupStyle

/-- The place of a style in the order of the styles. -/
def rank : MarkupStyle → Nat
  | .plain => 0
  | .fragment => 1
  | .block => 2

theorem rank_injective : Function.Injective rank := by
  intro a b h
  cases a <;> cases b <;> simp_all [rank]

/-- Styles are ordered: plain, fragment, block. -/
instance : LinearOrder MarkupStyle :=
  LinearOrder.lift' rank rank_injective

end MarkupStyle

theorem markupStyle_append_newline (a b : String) :
    markupStyle (a ++ "\n" ++ b) = max (markupStyle a) (markupStyle b) := by
  have hblock : isMarkupBlock (a ++ "\n" ++ b) = (isMarkupBlock a || isMarkupBlock b) := by
    rw [isMarkupBlock_eq_any_splitOn, splitOn_append_newline, List.any_append,
      ← isMarkupBlock_eq_any_splitOn, ← isMarkupBlock_eq_any_splitOn]
  have hfragment : isMarkupFragment (a ++ "\n" ++ b) =
      (isMarkupFragment a || isMarkupFragment b) := by
    rw [isMarkupFragment_eq_any_splitOn, splitOn_append_newline, List.any_append,
      ← isMarkupFragment_eq_any_splitOn, ← isMarkupFragment_eq_any_splitOn]
  rw [markupStyle, markupStyle, markupStyle, hblock, hfragment]
  -- What is left is a matter of the four answers.
  cases isMarkupBlock a <;> cases isMarkupBlock b <;> cases isMarkupFragment a <;>
    cases isMarkupFragment b <;> rfl

/-- **Markup is decided line by line.** The style of two texts with a newline between them is the
greater of their styles. A text has markup of either kind if and only if one of its lines has, that
is, if and only if the pattern is found at the start of one of its lines. -/
theorem markupStyle_by_lines (a b text : String) :
    markupStyle (a ++ "\n" ++ b) = max (markupStyle a) (markupStyle b) ∧
      (isMarkupBlock text = true ↔
        ∃ line ∈ text.toList.splitOn '\n', isMarkupBlock (.ofList line) = true) ∧
      (isMarkupFragment text = true ↔
        ∃ line ∈ text.toList.splitOn '\n', isMarkupFragment (.ofList line) = true) ∧
      (isMarkupBlock text = true ↔ FoundIn MarkedTag text.toList) ∧
      (isMarkupFragment text = true ↔ FoundIn BareTag text.toList) := by
  refine ⟨markupStyle_append_newline a b, ?_, ?_, ?_, ?_⟩
  · exact eq_true_iff_exists_line isMarkupBlock_eq_any_splitOn text
  · exact eq_true_iff_exists_line isMarkupFragment_eq_any_splitOn text
  · exact atSomeLine_iff_foundIn (fun _ => startsBlock_iff) text.toList
  · exact atSomeLine_iff_foundIn (fun _ => startsFragment_iff) text.toList

end Comment

end DocOutline
