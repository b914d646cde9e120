import DocOutline.Proofs.LineStarts
import Mathlib.Data.Nat.Count

/-!
# Rows and columns by bytes

A line index is made from the characters of a text and asked for byte offsets. Here its answers are
compared with the bytes of the text alone. The byte of a newline is part of no other character
(`newline_mem_utf8EncodeChar_iff`), so the lines end just after the newline bytes
(`LineIndex.mem_newlineEnds_iff`). Hence the row of an offset is the number of newline bytes below
it, its column is counted from the last of them, and places are in the order of their offsets
(`LineIndex.point_exact`).
-/

namespace DocOutline

open Text

/-! ## Newlines among the bytes of a text -/

/-- The byte of a newline. -/
def newlineByte : UInt8 := 0x0A

/-- There is a newline at this byte of the text. -/
def isNewlineAt (text : String) (i : Nat) : Bool :=
  text.toUTF8.data[i]? == some newlineByte

theorem toList_toUTF8 (text : String) :
    text.toUTF8.data.toList = text.toList.flatMap String.utf8EncodeChar := by
  have hbytes : text.toUTF8 = text.toList.utf8Encode := by
    rw [← String.toByteArray_ofList, String.ofList_toList, String.toUTF8_eq_toByteArray]
  rw [hbytes, List.utf8Encode, List.data_toByteArray]

theorem byteLength_toList (text : String) : byteLength text.toList = text.utf8ByteSize := by
  have hlength : ∀ cs : List Char, (cs.flatMap String.utf8EncodeChar).length = byteLength cs := by
    intro cs
    induction cs with
    | nil => rfl
    | cons c cs ih =>
      rw [List.flatMap_cons, List.length_append, String.length_utf8EncodeChar, ih, byteLength]
  rw [← hlength, ← toList_toUTF8, Array.length_toList, String.toUTF8_eq_toByteArray]
  exact String.size_toByteArray

/-- No character but the newline has a byte in common with it: all bytes of longer characters are
greater. -/
theorem newline_mem_utf8EncodeChar_iff {c : Char} :
    newlineByte ∈ String.utf8EncodeChar c ↔ c = '\n' := by
  have hbyte : ∀ {n : Nat}, n < 256 → (newlineByte = UInt8.ofNat n ↔ n = 10) := by
    intro n hn
    rw [← UInt8.toNat_inj, UInt8.toNat_ofNat_of_lt' hn]
    show 10 = n ↔ n = 10
    omega
  have hchar : c = '\n' ↔ c.val.toNat = 10 := by
    rw [Char.ext_iff, ← UInt32.toNat_inj]
    rfl
  rw [hchar, String.utf8EncodeChar]
  split_ifs with h₁ h₂ h₃
  · rw [List.mem_singleton, hbyte (by omega)]
  · simp only [List.mem_cons, List.not_mem_nil, or_false]
    rw [hbyte (by omega), hbyte (by omega)]
    omega
  · simp only [List.mem_cons, List.not_mem_nil, or_false]
    rw [hbyte (by omega), hbyte (by omega), hbyte (by omega)]
    omega
  · simp only [List.mem_cons, List.not_mem_nil, or_false]
    rw [hbyte (by omega), hbyte (by omega), hbyte (by omega), hbyte (by omega)]
    omega

namespace LineIndex

/-- Lines end just after the newlines. -/
theorem mem_newlineEnds_iff {offset n : Nat} {cs : List Char} :
    n ∈ newlineEnds offset cs ↔
      ∃ i, n = offset + i + 1 ∧ (cs.flatMap String.utf8EncodeChar)[i]? = some newlineByte := by
  induction cs generalizing offset with
  | nil => simp [newlineEnds]
  | cons c cs ih =>
    have hlength := String.length_utf8EncodeChar c
    rw [newlineEnds, List.flatMap_cons]
    by_cases hc : c = '\n'
    · have hone : String.utf8EncodeChar '\n' = [newlineByte] := rfl
      rw [if_pos hc, hc, hone, List.mem_cons, ih]
      constructor
      · rintro (rfl | ⟨i, rfl, hi⟩)
        · exact ⟨0, rfl, rfl⟩
        · exact ⟨i + 1, by omega, hi⟩
      · rintro ⟨i, rfl, hi⟩
        cases i with
        | zero => exact .inl rfl
        | succ i => exact .inr ⟨i, by omega, hi⟩
    · have hnot := mt newline_mem_utf8EncodeChar_iff.1 hc
      rw [if_neg hc, ih]
      constructor
      · rintro ⟨i, rfl, hi⟩
        refine ⟨c.utf8Size + i, by omega, ?_⟩
        rw [List.getElem?_append_right (by omega), hlength, Nat.add_sub_cancel_left]
        exact hi
      · rintro ⟨j, rfl, hj⟩
        -- None of the bytes of the first character is a newline.
        have hle : c.utf8Size ≤ j := by
          by_contra hlt
          rw [List.getElem?_append_left (by omega)] at hj
          exact hnot (List.mem_of_getElem? hj)
        refine ⟨j - c.utf8Size, by omega, ?_⟩
        rwa [List.getElem?_append_right (by omega), hlength] at hj

section Bytes

variable {text : String} {offset n i : Nat}

theorem mem_endsUpTo_iff :
    n ∈ endsUpTo text.toList offset ↔ ∃ i < offset, n = i + 1 ∧ isNewlineAt text i = true := by
  have hbyte : ∀ i, isNewlineAt text i = true ↔
      (text.toList.flatMap String.utf8EncodeChar)[i]? = some newlineByte := by
    intro i
    rw [isNewlineAt, beq_iff_eq, ← toList_toUTF8, Array.getElem?_toList]
  rw [endsUpTo, List.mem_filter, mem_newlineEnds_iff, decide_eq_true_eq]
  constructor
  · rintro ⟨⟨i, rfl, hi⟩, hle⟩
    exact ⟨i, by omega, by omega, (hbyte i).2 hi⟩
  · rintro ⟨i, hlt, rfl, hi⟩
    exact ⟨⟨i, by omega, (hbyte i).1 hi⟩, by omega⟩

theorem pairwise_endsUpTo (cs : List Char) (offset : Nat) :
    (endsUpTo cs offset).Pairwise (· < ·) :=
  (pairwise_newlineEnds 0 cs).filter _

/-- As many lines end up to an offset as there are newlines below it. -/
theorem length_endsUpTo (text : String) (offset : Nat) :
    (endsUpTo text.toList offset).length =
      Nat.count (fun i => isNewlineAt text i = true) offset := by
  have hnodup : (endsUpTo text.toList offset).Nodup :=
    (pairwise_endsUpTo text.toList offset).imp Nat.ne_of_lt
  have himage : (endsUpTo text.toList offset).toFinset =
      ((Finset.range offset).filter fun i => isNewlineAt text i = true).image (· + 1) := by
    apply Finset.ext
    intro n
    rw [List.mem_toFinset, mem_endsUpTo_iff, Finset.mem_image]
    constructor
    · rintro ⟨i, hlt, rfl, hi⟩
      exact ⟨i, Finset.mem_filter.2 ⟨Finset.mem_range.2 hlt, hi⟩, rfl⟩
    · rintro ⟨i, hi, rfl⟩
      obtain ⟨hrange, hi⟩ := Finset.mem_filter.1 hi
      exact ⟨i, Finset.mem_range.1 hrange, rfl, hi⟩
  rw [← List.toFinset_card_of_nodup hnodup, himage,
    Finset.card_image_of_injective _ (add_left_injective 1), Nat.count_eq_card_filter_range]

/-- The last newline below an offset. -/
structure LastNewline (text : String) (offset i : Nat) : Prop where
  newline : isNewlineAt text i = true
  lt : i < offset
  last : ∀ j, i < j → j < offset → isNewlineAt text j = false

/-- The last line up to an offset ends just after the last newline below it. -/
theorem getLastD_of_lastNewline (h : LastNewline text offset i) :
    (endsUpTo text.toList offset).getLastD 0 = i + 1 := by
  have hmem : i + 1 ∈ endsUpTo text.toList offset :=
    mem_endsUpTo_iff.2 ⟨i, h.lt, rfl, h.newline⟩
  rcases List.eq_nil_or_concat (endsUpTo text.toList offset) with hnil | ⟨init, last, hends⟩
  · rw [hnil] at hmem
    cases hmem
  · rw [List.concat_eq_append] at hends
    have hpairwise := pairwise_endsUpTo text.toList offset
    have hlast : last ∈ endsUpTo text.toList offset := by
      rw [hends]
      exact List.mem_append_right _ List.mem_cons_self
    rw [hends] at hmem hpairwise
    rw [hends, List.getLastD_concat]
    obtain ⟨j, hlt, rfl, hj⟩ := mem_endsUpTo_iff.1 hlast
    rcases List.mem_append.1 hmem with hmem | hmem
    · have hbefore := (List.pairwise_append.1 hpairwise).2.2 _ hmem _ List.mem_cons_self
      rw [h.last j (by omega) hlt] at hj
      cases hj
    · exact (List.mem_singleton.1 hmem).symm

theorem getLastD_of_no_newline (h : ∀ i < offset, isNewlineAt text i = false) :
    (endsUpTo text.toList offset).getLastD 0 = 0 := by
  have hnil : endsUpTo text.toList offset = [] := by
    apply List.eq_nil_iff_forall_not_mem.2
    intro n hn
    obtain ⟨i, hlt, -, hi⟩ := mem_endsUpTo_iff.1 hn
    rw [h i hlt] at hi
    cases hi
  rw [hnil]
  rfl

end Bytes

/-! ## Where the row of an offset starts -/

/-- Where the lines start, the first one included. -/
def starts (index : LineIndex) : List UInt32 :=
  0 :: index.later

/-- In increasing order, the lines that end up to an offset come first. -/
theorem filter_le_eq_take {ends : List Nat} (hends : ends.Pairwise (· < ·)) (offset : Nat) :
    ends.filter (· ≤ offset) = ends.take (ends.filter (· ≤ offset)).length := by
  induction ends with
  | nil => rfl
  | cons first rest ih =>
    obtain ⟨hfirst, hrest⟩ := List.pairwise_cons.1 hends
    by_cases hle : first ≤ offset
    · rw [List.filter_cons_of_pos (by simpa using hle), List.length_cons, List.take_succ_cons,
        ← ih hrest]
    · have hnone : (first :: rest).filter (· ≤ offset) = [] := by
        apply List.filter_eq_nil_iff.2
        intro n hn
        simp only [decide_eq_true_eq]
        rcases List.mem_cons.1 hn with rfl | hn
        · exact hle
        · have := hfirst n hn
          omega
      rw [hnone]
      rfl

/-- A line that starts just after another one ends starts at the row of that many ends. -/
theorem getElem?_cons_length {ends before : List Nat} (h : before <+: ends) (first : Nat) :
    (first :: ends)[before.length]? = some (before.getLastD first) := by
  obtain ⟨rest, rfl⟩ := h
  rcases List.eq_nil_or_concat before with rfl | ⟨init, last, rfl⟩
  · rfl
  · simp

section Points

variable {text : String} (hsize : byteLength text.toList < UInt32.size)

include hsize

theorem toNat_starts : (ofText text).starts.map UInt32.toNat = 0 :: newlineEnds 0 text.toList := by
  have hfits : ∀ n ∈ newlineEnds 0 text.toList, n.toUInt32.toNat = n := by
    intro n hn
    have hle := (le_of_mem_newlineEnds hn).2
    exact UInt32.toNat_ofNat_of_lt (by omega)
  rw [starts, ofText, List.map_cons, List.map_map]
  congr 1
  exact (List.map_congr_left hfits).trans (List.map_id' _)

/-- The row of an offset starts where the last line before it ends, and this start and the column
add up to the offset. -/
theorem exists_start (offset : UInt32) :
    ∃ start, (ofText text).starts[((ofText text).point offset).line.toNat]? = some start ∧
      start.toNat + ((ofText text).point offset).col.toNat = offset.toNat := by
  obtain ⟨hline, hcol⟩ := toNat_point hsize offset
  have hends : endsUpTo text.toList offset.toNat <+: newlineEnds 0 text.toList := by
    rw [endsUpTo, filter_le_eq_take (pairwise_newlineEnds 0 text.toList)]
    exact List.take_prefix _ _
  have hstart := getElem?_cons_length hends 0
  rw [← toNat_starts hsize, List.getElem?_map, Option.map_eq_some_iff, ← hline] at hstart
  obtain ⟨start, hstart, heq⟩ := hstart
  have hle := getLastD_endsUpTo_le text.toList offset.toNat
  exact ⟨start, hstart, by omega⟩

/-- The rows up to that of an offset are those that start at or before it. -/
theorem start_le_iff {offset start : UInt32} {row : Nat}
    (hstart : (ofText text).starts[row]? = some start) :
    start ≤ offset ↔ row ≤ ((ofText text).point offset).line.toNat := by
  have hpairwise : (0 :: newlineEnds 0 text.toList).Pairwise (· < ·) :=
    List.pairwise_cons.2
      ⟨fun n hn => (le_of_mem_newlineEnds hn).1, pairwise_newlineEnds 0 text.toList⟩
  have hrow : (0 :: newlineEnds 0 text.toList)[row]? = some start.toNat := by
    rw [← toNat_starts hsize, List.getElem?_map, hstart]
    rfl
  have htake := filter_le_eq_take hpairwise offset.toNat
  rw [List.filter_cons_of_pos (by simp), ← endsUpTo, List.length_cons,
    ← (toNat_point hsize offset).1] at htake
  rw [UInt32.le_iff_toNat_le]
  constructor
  · intro hle
    have hmem : start.toNat ∈ 0 :: endsUpTo text.toList offset.toNat := by
      rcases List.mem_cons.1 (List.mem_of_getElem? hrow) with hzero | hmem
      · rw [hzero]
        exact List.mem_cons_self
      · exact List.mem_cons_of_mem _ (List.mem_filter.2 ⟨hmem, by simpa using hle⟩)
    rw [htake] at hmem
    obtain ⟨i, hi⟩ := List.mem_iff_getElem?.1 hmem
    have hlt : i < ((ofText text).point offset).line.toNat + 1 := by
      by_contra hge
      rw [List.getElem?_take, if_neg hge] at hi
      cases hi
    rw [List.getElem?_take_of_lt hlt, ← hrow] at hi
    have hnodup : (0 :: newlineEnds 0 text.toList).Nodup := hpairwise.imp Nat.ne_of_lt
    have hbound : row < (0 :: newlineEnds 0 text.toList).length :=
      (List.getElem?_eq_some_iff.1 hrow).1
    have := (List.getElem?_inj hbound hnodup).1 hi.symm
    omega
  · intro hle
    have hmem : start.toNat ∈ 0 :: endsUpTo text.toList offset.toNat := by
      rw [htake]
      apply List.mem_of_getElem? (i := row)
      rw [List.getElem?_take_of_lt (by omega), hrow]
    rcases List.mem_cons.1 hmem with hzero | hmem
    · omega
    · simpa using (List.mem_filter.1 hmem).2

/-- A greater offset has a later row, or the same row and a greater column. -/
theorem point_lt {a b : UInt32} (hab : a < b) :
    ((ofText text).point a).line < ((ofText text).point b).line ∨
      ((ofText text).point a).line = ((ofText text).point b).line ∧
        ((ofText text).point a).col < ((ofText text).point b).col := by
  rw [UInt32.lt_iff_toNat_lt] at hab
  obtain ⟨start, hstart, hadd⟩ := exists_start hsize a
  obtain ⟨start', hstart', hadd'⟩ := exists_start hsize b
  have hle : ((ofText text).point a).line.toNat ≤ ((ofText text).point b).line.toNat := by
    rw [← start_le_iff hsize hstart, UInt32.le_iff_toNat_le]
    omega
  by_cases hline : ((ofText text).point a).line = ((ofText text).point b).line
  · refine .inr ⟨hline, ?_⟩
    rw [hline, hstart'] at hstart
    cases hstart
    rw [UInt32.lt_iff_toNat_lt]
    omega
  · refine .inl ?_
    rw [UInt32.lt_iff_toNat_lt]
    have hne := mt UInt32.toNat_inj.1 hline
    omega

end Points

/-! ## Exactness -/

/-- The point is the place of an offset, as the bytes of the text tell: its line is the number of
newlines below the offset, and its column counts from the last of them, or from the start of the
text. -/
structure IsPlaceOf (text : String) (offset : UInt32) (p : Point) : Prop where
  line : p.line.toNat = Nat.count (fun i => isNewlineAt text i = true) offset.toNat
  col : ∀ i, LastNewline text offset.toNat i → p.col.toNat = offset.toNat - (i + 1)
  col_first : (∀ i < offset.toNat, isNewlineAt text i = false) → p.col = offset

/-- **A line index is exact.** For a text whose offsets fit, every offset, also past the end of the
text, gets the place that the bytes tell. The row is the last one that starts at or before the
offset, and its start and the column add up to the offset. Greater offsets have greater places. -/
theorem point_exact {text : String} (hsize : text.utf8ByteSize < UInt32.size) :
    (∀ offset : UInt32,
      IsPlaceOf text offset ((ofText text).point offset) ∧
      (∃ start, (ofText text).starts[((ofText text).point offset).line.toNat]? = some start ∧
        start.toNat + ((ofText text).point offset).col.toNat = offset.toNat) ∧
      ∀ row start, (ofText text).starts[row]? = some start →
        (start ≤ offset ↔ row ≤ ((ofText text).point offset).line.toNat)) ∧
    ∀ a b : UInt32, a < b → ((ofText text).point a).cmp ((ofText text).point b) = .lt := by
  rw [← byteLength_toList] at hsize
  constructor
  · intro offset
    obtain ⟨hline, hcol⟩ := toNat_point hsize offset
    refine ⟨⟨?_, fun i hi => ?_, fun hnone => ?_⟩, exists_start hsize offset,
      fun row start hstart => start_le_iff hsize hstart⟩
    · rw [hline, length_endsUpTo]
    · rw [hcol, getLastD_of_lastNewline hi]
    · rw [getLastD_of_no_newline hnone] at hcol
      exact UInt32.toNat_inj.1 hcol
  · intro a b hab
    rw [Point.cmp, Ordering.then_eq_lt, Std.compare_eq_lt, Std.compare_eq_lt, Std.compare_eq_iff_eq]
    exact point_lt hsize hab

/-- `a`, a character of two bytes, and `b`, each on a line of its own. -/
def threeLines : String := "a\né\nb"

/-- Offset 9 lies behind the text. The last newline below it is at byte 4, so it is in the last line
and has column 4. -/
theorem point_exact_threeLines :
    threeLines.utf8ByteSize < UInt32.size ∧ LastNewline threeLines 9 4 ∧
      IsPlaceOf threeLines 9 ((ofText threeLines).point 9) ∧
      (ofText threeLines).point 9 = ⟨2, 4⟩ ∧
      ((ofText threeLines).point 4).cmp ((ofText threeLines).point 5) = .lt := by
  have hsize : threeLines.utf8ByteSize < UInt32.size := by decide +kernel
  obtain ⟨hplace, hmono⟩ := point_exact hsize
  refine ⟨hsize, ⟨by decide +kernel, by decide, ?_⟩, (hplace 9).1, by decide +kernel,
    hmono 4 5 (by decide)⟩
  intro j hj hlt
  have hall : ((List.range 9).all fun j => !decide (4 < j) || !isNewlineAt threeLines j) =
      true := by
    decide +kernel
  have hj' := List.all_eq_true.1 hall j (List.mem_range.2 hlt)
  simpa [hj] using hj'

end LineIndex

end DocOutline
