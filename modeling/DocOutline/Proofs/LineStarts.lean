import DocOutline.LineIndex
import DocOutline.Proofs.Extents

/-!
# Rows and columns of a text

The row of an offset is the number of lines that end at or before it, and its column is counted
from the end of the last of these lines (`LineIndex.toNat_point`). So a place in a piece of a larger
text can be found in two ways: from the line index of the whole text, or from the line index of
the piece, placed where the piece starts. Both give the same (`LineIndex.placePoint_point`), for
points and for extents (`LineIndex.Holds.exists_placedIn`).
-/

namespace DocOutline

open Text

namespace LineIndex

/-! ## Ends of lines -/

theorem newlineEnds_append (offset : Nat) (a b : List Char) :
    newlineEnds offset (a ++ b) =
      newlineEnds offset a ++ newlineEnds (offset + byteLength a) b := by
  induction a generalizing offset with
  | nil => rfl
  | cons c a ih =>
    rw [List.cons_append, newlineEnds, newlineEnds, byteLength]
    split_ifs with hnewline
    · rw [ih, hnewline, ← Nat.add_assoc]
      rfl
    · rw [ih, Nat.add_assoc]

theorem newlineEnds_eq_map (offset : Nat) (cs : List Char) :
    newlineEnds offset cs = (newlineEnds 0 cs).map (offset + ·) := by
  have hmove : ∀ m, newlineEnds (offset + m) cs = (newlineEnds m cs).map (offset + ·) := by
    induction cs with
    | nil => exact fun m => rfl
    | cons c cs ih =>
      intro m
      rw [newlineEnds, newlineEnds]
      split_ifs
      · rw [List.map_cons, Nat.add_assoc, ih]
      · rw [Nat.add_assoc, ih]
  exact hmove 0

theorem le_of_mem_newlineEnds {offset n : Nat} {cs : List Char} (h : n ∈ newlineEnds offset cs) :
    offset < n ∧ n ≤ offset + byteLength cs := by
  induction cs generalizing offset with
  | nil => cases h
  | cons c cs ih =>
    have hpos := c.utf8Size_pos
    rw [newlineEnds] at h
    rw [byteLength]
    split_ifs at h with hnewline
    · rcases List.mem_cons.1 h with rfl | h
      · omega
      · have := ih h
        have hsize : c.utf8Size = 1 := by
          rw [hnewline]
          rfl
        omega
    · have := ih h
      omega

theorem pairwise_newlineEnds (offset : Nat) (cs : List Char) :
    (newlineEnds offset cs).Pairwise (· < ·) := by
  induction cs generalizing offset with
  | nil => exact List.Pairwise.nil
  | cons c cs ih =>
    rw [newlineEnds]
    split_ifs
    · exact List.pairwise_cons.2 ⟨fun n hn => (le_of_mem_newlineEnds hn).1, ih _⟩
    · exact ih _

theorem length_newlineEnds_le (offset : Nat) (cs : List Char) :
    (newlineEnds offset cs).length ≤ byteLength cs := by
  induction cs generalizing offset with
  | nil => exact Nat.le_refl 0
  | cons c cs ih =>
    have hpos := c.utf8Size_pos
    rw [newlineEnds, byteLength]
    split_ifs
    · have := ih (offset + 1)
      rw [List.length_cons]
      omega
    · have := ih (offset + c.utf8Size)
      omega

/-! ## Points of a text -/

/-- The ends of the lines that end at or before an offset. -/
def endsUpTo (cs : List Char) (offset : Nat) : List Nat :=
  (newlineEnds 0 cs).filter (· ≤ offset)

theorem locate_eq {later : List UInt32} (hlater : later.Pairwise (· < ·))
    (offset row start : UInt32) :
    locate offset row start later =
      (row + (later.filter (· ≤ offset)).length.toUInt32,
        (later.filter (· ≤ offset)).getLastD start) := by
  induction later generalizing row start with
  | nil => simp [locate]
  | cons next rest ih =>
    obtain ⟨hnext, hrest⟩ := List.pairwise_cons.1 hlater
    rw [locate]
    split_ifs with hle
    · have hcount : ∀ n : Nat, row + 1 + n.toUInt32 = row + (n + 1).toUInt32 := fun n => by
        rw [Nat.add_comm n 1, UInt32.add_assoc]
        exact congrArg (row + ·) (UInt32.ofNat_add 1 n).symm
      rw [ih hrest, List.filter_cons_of_pos (by simpa using hle), List.length_cons,
        List.getLastD_cons, hcount]
    · -- The lines after one that starts too late start too late as well.
      have hnone : (next :: rest).filter (· ≤ offset) = [] := by
        refine List.filter_eq_nil_iff.2 fun later hmem => ?_
        rcases List.mem_cons.1 hmem with rfl | hmem
        · simpa using hle
        · have hlt := hnext later hmem
          simp only [decide_eq_true_eq]
          exact fun h => hle (UInt32.le_trans (UInt32.le_of_lt hlt) h)
      rw [hnone]
      simp

/-- A line up to an offset ends there or before. -/
theorem getLastD_endsUpTo_le (cs : List Char) (offset : Nat) :
    (endsUpTo cs offset).getLastD 0 ≤ offset := by
  rw [List.getLastD_eq_getLast?]
  cases h : (endsUpTo cs offset).getLast? with
  | none => exact Nat.zero_le _
  | some last =>
    have hlast := (List.mem_filter.1 (List.mem_of_getLast? h)).2
    simpa using hlast

/-- **The row of an offset is the number of lines that end up to it**, and its column is what is
left after the last of them. -/
theorem toNat_point {text : String} (hsize : byteLength text.toList < UInt32.size)
    (offset : UInt32) :
    ((ofText text).point offset).line.toNat = (endsUpTo text.toList offset.toNat).length ∧
      ((ofText text).point offset).col.toNat =
        offset.toNat - (endsUpTo text.toList offset.toNat).getLastD 0 := by
  have hfits : ∀ n ∈ newlineEnds 0 text.toList, n < UInt32.size := fun n hn => by
    have := (le_of_mem_newlineEnds hn).2
    omega
  have htoNat : ∀ {n}, n < UInt32.size → n.toUInt32.toNat = n := fun h => UInt32.toNat_ofNat_of_lt h
  have hsorted : (ofText text).later.Pairwise (· < ·) := by
    refine List.pairwise_map.2 ((pairwise_newlineEnds 0 _).imp_of_mem fun {m n} hm hn hlt => ?_)
    rwa [UInt32.lt_iff_toNat_lt, htoNat (hfits m hm), htoNat (hfits n hn)]
  have hfilter : (ofText text).later.filter (· ≤ offset) =
      (endsUpTo text.toList offset.toNat).map Nat.toUInt32 := by
    rw [ofText, List.filter_map, endsUpTo]
    congr 1
    refine List.filter_congr fun n hn => ?_
    simp only [Function.comp_apply, UInt32.le_iff_toNat_le, htoNat (hfits n hn)]
  have hlength : (endsUpTo text.toList offset.toNat).length < UInt32.size := by
    have := length_newlineEnds_le 0 text.toList
    have := List.length_filter_le (· ≤ offset.toNat) (newlineEnds 0 text.toList)
    rw [endsUpTo]
    omega
  have hle := getLastD_endsUpTo_le text.toList offset.toNat
  have hlast : ((endsUpTo text.toList offset.toNat).map Nat.toUInt32).getLastD 0 =
      ((endsUpTo text.toList offset.toNat).getLastD 0).toUInt32 := by
    rw [List.getLastD_eq_getLast?, List.getLast?_map, List.getLastD_eq_getLast?]
    cases (endsUpTo text.toList offset.toNat).getLast? <;> rfl
  have hlastNat := htoNat (Nat.lt_of_le_of_lt hle offset.toNat_lt)
  unfold point
  rw [locate_eq hsorted, hfilter, List.length_map, hlast]
  refine ⟨?_, ?_⟩
  · show (0 + (endsUpTo text.toList offset.toNat).length.toUInt32).toNat = _
    rw [UInt32.zero_add, htoNat hlength]
  · show (offset - ((endsUpTo text.toList offset.toNat).getLastD 0).toUInt32).toNat = _
    rw [UInt32.toNat_sub_of_le, hlastNat]
    rwa [UInt32.le_iff_toNat_le, hlastNat]

/-! ## Pieces of a text -/

/-- The lines that end up to an offset of a piece are those before the piece, and those of the
piece. -/
theorem endsUpTo_append (before piece after : List Char) {offset : Nat}
    (h : offset ≤ byteLength piece) :
    endsUpTo (before ++ piece ++ after) (byteLength before + offset) =
      newlineEnds 0 before ++ (endsUpTo piece offset).map (byteLength before + ·) := by
  unfold endsUpTo
  rw [newlineEnds_append, newlineEnds_append, byteLength_append, Nat.zero_add, Nat.zero_add,
    newlineEnds_eq_map (byteLength before) piece, List.filter_append, List.filter_append]
  have hbefore : (newlineEnds 0 before).filter (· ≤ byteLength before + offset) =
      newlineEnds 0 before := by
    refine List.filter_eq_self.2 fun n hn => ?_
    have := (le_of_mem_newlineEnds hn).2
    simp only [decide_eq_true_eq]
    omega
  have hafter : (newlineEnds (byteLength before + byteLength piece) after).filter
      (· ≤ byteLength before + offset) = [] := by
    refine List.filter_eq_nil_iff.2 fun n hn => ?_
    have := (le_of_mem_newlineEnds hn).1
    simp only [decide_eq_true_eq]
    omega
  rw [hbefore, hafter, List.append_nil, List.filter_map]
  congr 2
  refine List.filter_congr fun n _ => ?_
  simp only [Function.comp_apply, Nat.add_le_add_iff_left]

/-- **A place in a piece of a text is the same place in the text**, once it is placed where the
piece starts. -/
theorem placePoint_point {text piece : String} {before after : List Char}
    (htext : text.toList = before ++ piece.toList ++ after)
    (hsize : byteLength text.toList < UInt32.size) {start offset place : UInt32}
    (hstart : start.toNat = byteLength before) (hoffset : offset.toNat ≤ byteLength piece.toList)
    (hplace : place.toNat = start.toNat + offset.toNat) :
    Extent.placePoint ((ofText text).point start) ((ofText piece).point offset) =
      .ok ((ofText text).point place) := by
  have hpiece : byteLength piece.toList < UInt32.size := by
    rw [htext, byteLength_append, byteLength_append] at hsize
    omega
  have hends : endsUpTo text.toList place.toNat = newlineEnds 0 before ++
      (endsUpTo piece.toList offset.toNat).map (byteLength before + ·) := by
    rw [htext, hplace, hstart, endsUpTo_append before piece.toList after hoffset]
  have hzero : endsUpTo text.toList start.toNat = newlineEnds 0 before := by
    have hnone := endsUpTo_append before [] (piece.toList ++ after) (Nat.le_refl 0)
    rw [htext, hstart]
    simpa [endsUpTo, newlineEnds] using hnone
  obtain ⟨hline, hcol⟩ := toNat_point hsize start
  obtain ⟨hline', hcol'⟩ := toNat_point hpiece offset
  obtain ⟨hline'', hcol''⟩ := toNat_point hsize place
  have hle := getLastD_endsUpTo_le text.toList start.toNat
  have hle' := getLastD_endsUpTo_le piece.toList offset.toNat
  rw [hzero] at hline hcol hle
  rw [hends] at hline'' hcol''
  rw [Extent.placePoint_eq_ok_iff, Extent.placedCol, hline, hline', hline'', hcol, hcol', hcol'']
  refine ⟨by rw [List.length_append, List.length_map], ?_⟩
  -- Either no line of the piece ends up to the offset, or the last one does so in both texts.
  rcases List.eq_nil_or_concat (endsUpTo piece.toList offset.toNat) with hnil | ⟨init, last, hlast⟩
  · simp only [hnil, List.map_nil, List.append_nil, List.length_nil, if_true, List.getLastD_nil]
    omega
  · rw [List.concat_eq_append] at hlast
    rw [hlast, List.getLastD_concat] at hle'
    rw [hlast, List.map_append, List.map_singleton, ← List.append_assoc, List.getLastD_concat,
      List.getLastD_concat, List.length_append, List.length_singleton, if_neg (Nat.succ_ne_zero _)]
    omega

/-! ## Extents of a piece -/

/-- The extent lies between two offsets, and the line index says where. -/
structure Holds (index : LineIndex) (low high : Nat) (x : Extent) : Prop where
  low_le : low ≤ x.position.start.toNat
  le_high : x.position.stop.toNat ≤ high
  eq_extent : x = index.extent x.position

/-- An extent of a piece can be placed where the piece starts, and is then an extent of the text. -/
theorem Holds.exists_placedIn {text piece : String} {before after : List Char}
    (htext : text.toList = before ++ piece.toList ++ after)
    (hsize : byteLength text.toList < UInt32.size) {origin : Extent}
    (hbyte : origin.position.start.toNat = byteLength before)
    (hfirst : origin.location.first = (ofText text).point origin.position.start) {x : Extent}
    (hx : (ofText piece).Holds 0 (byteLength piece.toList) x) :
    ∃ y, x.placedIn origin = .ok y ∧
      (ofText text).Holds (byteLength before) (byteLength before + byteLength piece.toList) y := by
  obtain ⟨-, hstop, hextent⟩ := hx
  have hle : x.position.start.toNat ≤ x.position.stop.toNat := x.position.start_le_stop
  have hfits : x.position.stop.toNat + origin.position.start.toNat < UInt32.size := by
    rw [htext, byteLength_append, byteLength_append] at hsize
    omega
  obtain ⟨position, hposition⟩ : ∃ position,
      x.position.shift origin.position.start = .ok position := ⟨_, dif_pos hfits⟩
  obtain ⟨hstart', hstop'⟩ := ByteRange.shift_eq_ok_iff.1 hposition
  have hplace : ∀ {offset place : UInt32}, offset.toNat ≤ byteLength piece.toList →
      place.toNat = offset.toNat + origin.position.start.toNat →
      Extent.placePoint origin.location.first ((ofText piece).point offset) =
        .ok ((ofText text).point place) := by
    intro offset place hoffset hplace
    rw [hfirst]
    exact placePoint_point htext hsize hbyte hoffset (hplace.trans (Nat.add_comm _ _))
  refine ⟨(ofText text).extent position, ?_, ?_, ?_, rfl⟩
  · rw [hextent]
    exact Extent.placedIn_eq_ok_iff.2
      ⟨hposition, hplace (Nat.le_trans hle hstop) hstart', hplace hstop hstop'⟩
  · show byteLength before ≤ position.start.toNat
    omega
  · show position.stop.toNat ≤ byteLength before + byteLength piece.toList
    omega

end LineIndex

end DocOutline
