import DocOutline.Comment.Doc
import DocOutline.Proofs.Walks
import DocOutline.Span
import Mathlib.Tactic.SplitIfs

/-!
# Extents as natural numbers

Moving an extent adds coordinates that are 32 bits wide, and faults where a sum does not fit. Here
each way to move is read as a statement about natural numbers: the result is the extent with these
sums as its coordinates, and there is one exactly if an extent with these coordinates exists. The
content of a comment is placed where all its extents are.
-/

namespace DocOutline

/-! ## Ranges -/

theorem Point.eq_iff {p q : Point} :
    p = q ↔ p.line.toNat = q.line.toNat ∧ p.col.toNat = q.col.toNat := by
  obtain ⟨line, col⟩ := p
  obtain ⟨line', col'⟩ := q
  simp only [Point.mk.injEq, UInt32.toNat_inj]

theorem ByteRange.eq_iff {r s : ByteRange} :
    r = s ↔ r.start.toNat = s.start.toNat ∧ r.stop.toNat = s.stop.toNat := by
  obtain ⟨start, stop, h⟩ := r
  obtain ⟨start', stop', h'⟩ := s
  simp only [ByteRange.mk.injEq, UInt32.toNat_inj]

theorem ByteRange.shift_eq_ok_iff {r s : ByteRange} {d : UInt32} :
    r.shift d = .ok s ↔
      s.start.toNat = r.start.toNat + d.toNat ∧ s.stop.toNat = r.stop.toNat + d.toNat := by
  have hle : r.start.toNat ≤ r.stop.toNat := r.start_le_stop
  unfold ByteRange.shift
  split
  · rename_i fits
    rw [Except.ok.injEq, ByteRange.eq_iff, UInt32.toNat_add, UInt32.toNat_add]
    simp only [UInt32.size] at fits
    omega
  · rename_i hfits
    have hlt := s.stop.toNat_lt
    simp only [UInt32.size] at hfits
    simp only [reduceCtorEq, false_iff]
    omega

theorem Span.shift_eq_ok_iff {s t : Span} {d : UInt32} :
    s.shift d = .ok t ↔
      t.start.toNat = d.toNat + s.start.toNat ∧ t.stop.toNat = d.toNat + s.stop.toNat := by
  rw [← addCoord_eq_ok_iff, ← addCoord_eq_ok_iff]
  constructor
  · intro h
    obtain ⟨start, hstart, h⟩ := bind_eq_ok_iff.1 h
    obtain ⟨stop, hstop, h⟩ := bind_eq_ok_iff.1 h
    cases h
    exact ⟨hstart, hstop⟩
  · rintro ⟨hstart, hstop⟩
    exact bind_eq_ok_iff.2 ⟨_, hstart, bind_eq_ok_iff.2 ⟨_, hstop, rfl⟩⟩

/-! ## Extents -/

namespace Extent

theorem shifted_eq_ok_iff {own origin e : Extent} :
    own.shifted origin = .ok e ↔
      own.position.shift origin.position.start = .ok e.position ∧
        own.location.row.shift origin.location.row.start = .ok e.location.row ∧
        own.location.column.shift origin.location.column.start = .ok e.location.column := by
  constructor
  · intro h
    obtain ⟨position, hposition, h⟩ := bind_eq_ok_iff.1 h
    obtain ⟨row, hrow, h⟩ := bind_eq_ok_iff.1 h
    obtain ⟨column, hcolumn, h⟩ := bind_eq_ok_iff.1 h
    cases h
    exact ⟨hposition, hrow, hcolumn⟩
  · rintro ⟨hposition, hrow, hcolumn⟩
    exact bind_eq_ok_iff.2 ⟨_, hposition, bind_eq_ok_iff.2 ⟨_, hrow, bind_eq_ok_iff.2
      ⟨_, hcolumn, rfl⟩⟩⟩

/-- The column of a point in the text that holds a piece: on the first row of the piece it is
counted from the column `col` where the piece starts. -/
def placedCol (col : Nat) (p : Point) : Nat :=
  if p.line.toNat = 0 then col + p.col.toNat else p.col.toNat

theorem placePoint_eq_ok_iff {origin p q : Point} :
    placePoint origin p = .ok q ↔
      q.line.toNat = origin.line.toNat + p.line.toNat ∧
        q.col.toNat = placedCol origin.col.toNat p := by
  have hplace : ∀ col : Except Fault UInt32, (do
      let col ← col
      let line ← addCoord origin.line p.line
      return (⟨line, col⟩ : Point)) = .ok q ↔
        addCoord origin.line p.line = .ok q.line ∧ col = .ok q.col := by
    intro col
    constructor
    · intro h
      obtain ⟨col, hcol, h⟩ := bind_eq_ok_iff.1 h
      obtain ⟨line, hline, h⟩ := bind_eq_ok_iff.1 h
      cases h
      exact ⟨hline, hcol⟩
    · rintro ⟨hline, hcol⟩
      exact bind_eq_ok_iff.2 ⟨_, hcol, bind_eq_ok_iff.2 ⟨_, hline, rfl⟩⟩
  have hzero : p.line = 0 ↔ p.line.toNat = 0 := UInt32.toNat_inj.symm
  unfold placePoint placedCol
  simp only [← hzero]
  split_ifs
  · rw [hplace, addCoord_eq_ok_iff, addCoord_eq_ok_iff]
  · rw [hplace (.ok p.col), addCoord_eq_ok_iff, Except.ok.injEq, ← UInt32.toNat_inj,
      eq_comm (a := p.col.toNat)]

theorem placedIn_eq_ok_iff {own origin e : Extent} :
    own.placedIn origin = .ok e ↔
      own.position.shift origin.position.start = .ok e.position ∧
        placePoint origin.location.first own.location.first = .ok e.location.first ∧
        placePoint origin.location.first own.location.last = .ok e.location.last := by
  constructor
  · intro h
    obtain ⟨position, hposition, h⟩ := bind_eq_ok_iff.1 h
    obtain ⟨first, hfirst, h⟩ := bind_eq_ok_iff.1 h
    obtain ⟨last, hlast, h⟩ := bind_eq_ok_iff.1 h
    cases h
    exact ⟨hposition, hfirst, hlast⟩
  · rintro ⟨hposition, hfirst, hlast⟩
    exact bind_eq_ok_iff.2 ⟨_, hposition, bind_eq_ok_iff.2 ⟨_, hfirst, bind_eq_ok_iff.2
      ⟨_, hlast, rfl⟩⟩⟩

end Extent

/-! ## Contents of comments -/

namespace DocComment

/-- Where the tags and the fences are. -/
def extents (doc : DocComment) : List Extent :=
  doc.tags.map (·.extent) ++ doc.fences.map (·.extent)

theorem forall_mem_extents {doc : DocComment} {P : Extent → Prop} :
    (∀ x ∈ doc.extents, P x) ↔
      (∀ tag ∈ doc.tags, P tag.extent) ∧ ∀ fence ∈ doc.fences, P fence.extent := by
  rw [extents, List.forall_mem_append, List.forall_mem_map, List.forall_mem_map]

variable {doc placed : DocComment} {origin : Extent}

theorem exists_of_placedIn (h : doc.placedIn origin = .ok placed) :
    ∀ x ∈ doc.extents, ∃ y, x.placedIn origin = .ok y := by
  obtain ⟨tags, htags, h⟩ := bind_eq_ok_iff.1 h
  obtain ⟨fences, hfences, -⟩ := bind_eq_ok_iff.1 h
  refine forall_mem_extents.2 ⟨fun tag htag => ?_, fun fence hfence => ?_⟩
  · obtain ⟨placed, hplaced⟩ := exists_of_mapM htags htag
    obtain ⟨extent, hextent, -⟩ := bind_eq_ok_iff.1 hplaced
    exact ⟨extent, hextent⟩
  · obtain ⟨placed, hplaced⟩ := exists_of_mapM hfences hfence
    obtain ⟨extent, hextent, -⟩ := bind_eq_ok_iff.1 hplaced
    exact ⟨extent, hextent⟩

theorem exists_placedIn {P : Extent → Prop}
    (h : ∀ x ∈ doc.extents, ∃ y, x.placedIn origin = .ok y ∧ P y) :
    ∃ placed, doc.placedIn origin = .ok placed ∧ ∀ y ∈ placed.extents, P y := by
  obtain ⟨htag, hfence⟩ := forall_mem_extents.1 h
  obtain ⟨tags, htags, hPtags⟩ := exists_mapM (P := fun tag : DocTag => P tag.extent)
      (f := fun tag : DocTag => return { tag with extent := ← tag.extent.placedIn origin })
      fun tag hmem => by
    obtain ⟨extent, hextent, hP⟩ := htag tag hmem
    exact ⟨{ tag with extent }, bind_eq_ok_iff.2 ⟨extent, hextent, rfl⟩, hP⟩
  obtain ⟨fences, hfences, hPfences⟩ := exists_mapM (P := fun fence : CodeFence => P fence.extent)
      (f := fun fence : CodeFence => return { fence with extent := ← fence.extent.placedIn origin })
      fun fence hmem => by
    obtain ⟨extent, hextent, hP⟩ := hfence fence hmem
    exact ⟨{ fence with extent }, bind_eq_ok_iff.2 ⟨extent, hextent, rfl⟩, hP⟩
  exact ⟨{ doc with tags, fences },
    bind_eq_ok_iff.2 ⟨tags, htags, bind_eq_ok_iff.2 ⟨fences, hfences, rfl⟩⟩,
    forall_mem_extents.2 ⟨hPtags, hPfences⟩⟩

end DocComment

end DocOutline
