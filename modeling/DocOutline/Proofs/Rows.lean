import DocOutline.Proofs.Places
import DocOutline.Syntax.CommentNode
import Mathlib.Tactic.SplitIfs

/-!
# Rows that correspond

Two rows of siblings correspond if they have the same nodes in the same order, except that the
first row may have some nodes besides. A search that passes over these nodes finds the same in
both rows, and whatever is taken out of the rows by such a search leaves rows that correspond.

Numbers of nodes differ between the rows. A node that is no comment is known by its rank, the
number of nodes after it that are no comments, and this is the same in both rows if only comments
are left out.
-/

namespace DocOutline

/-- Two rows with corresponding nodes, where the first may have nodes besides. -/
inductive Rows (Kept : Place → Place → Prop) (Plain : Place → Prop) :
    List Place → List Place → Prop
  | nil : Rows Kept Plain [] []
  | keep {p q : Place} {ps qs : List Place} (hkept : Kept p q) (hrest : Rows Kept Plain ps qs) :
    Rows Kept Plain (p :: ps) (q :: qs)
  | drop {p : Place} {ps qs : List Place} (hplain : Plain p) (hrest : Rows Kept Plain ps qs) :
    Rows Kept Plain (p :: ps) qs

namespace Rows

variable {Kept : Place → Place → Prop} {Plain : Place → Prop} {ps qs : List Place}
  {f g : Place → Bool}

/-- The same nodes are found, if no additional one is. -/
theorem find? (h : Rows Kept Plain ps qs) (hkept : ∀ p q, Kept p q → f p = g q)
    (hplain : ∀ p, Plain p → f p = false) :
    Option.Rel (fun p q => p ∈ ps ∧ Kept p q) (ps.find? f) (qs.find? g) := by
  have hcons : ∀ {r : Place} {ps : List Place} {a b : Option Place},
      Option.Rel (fun p q => p ∈ ps ∧ Kept p q) a b →
      Option.Rel (fun p q => p ∈ r :: ps ∧ Kept p q) a b := by
    intro r ps a b hab
    cases hab with
    | none => exact .none
    | some hpq => exact .some ⟨List.mem_cons_of_mem r hpq.1, hpq.2⟩
  induction h with
  | nil => exact .none
  | @keep p q ps qs hpq _ ih =>
    rw [List.find?_cons, List.find?_cons, ← hkept p q hpq]
    cases f p with
    | true => exact .some ⟨List.mem_cons_self, hpq⟩
    | false => exact hcons ih
  | @drop p ps qs hp _ ih =>
    rw [List.find?_cons, hplain p hp]
    exact hcons ih

theorem filter (h : Rows Kept Plain ps qs) (hkept : ∀ p q, Kept p q → f p = g q) :
    Rows Kept Plain (ps.filter f) (qs.filter g) := by
  induction h with
  | nil => exact .nil
  | @keep p q ps qs hpq _ ih =>
    rw [List.filter_cons, List.filter_cons, ← hkept p q hpq]
    split_ifs
    · exact .keep hpq ih
    · exact ih
  | @drop p ps qs hp _ ih =>
    rw [List.filter_cons]
    split_ifs
    · exact .drop hp ih
    · exact ih

theorem eraseP (h : Rows Kept Plain ps qs) (hkept : ∀ p q, Kept p q → f p = g q)
    (hplain : ∀ p, Plain p → f p = false) : Rows Kept Plain (ps.eraseP f) (qs.eraseP g) := by
  induction h with
  | nil => exact .nil
  | @keep p q ps qs hpq hrest ih =>
    rw [List.eraseP_cons, List.eraseP_cons, ← hkept p q hpq]
    cases f p with
    | true => exact hrest
    | false => exact .keep hpq ih
  | @drop p ps qs hp _ ih =>
    rw [List.eraseP_cons, hplain p hp]
    exact .drop hp ih

theorem takeWhile (h : Rows Kept Plain ps qs) (hkept : ∀ p q, Kept p q → f p = g q)
    (hplain : ∀ p, Plain p → f p = true) : Rows Kept Plain (ps.takeWhile f) (qs.takeWhile g) := by
  induction h with
  | nil => exact .nil
  | @keep p q ps qs hpq _ ih =>
    rw [List.takeWhile_cons, List.takeWhile_cons, ← hkept p q hpq]
    split_ifs
    · exact .keep hpq ih
    · exact .nil
  | @drop p ps qs hp _ ih =>
    rw [List.takeWhile_cons, hplain p hp]
    exact .drop hp ih

theorem dropWhile (h : Rows Kept Plain ps qs) (hkept : ∀ p q, Kept p q → f p = g q)
    (hplain : ∀ p, Plain p → f p = true) : Rows Kept Plain (ps.dropWhile f) (qs.dropWhile g) := by
  induction h with
  | nil => exact .nil
  | @keep p q ps qs hpq hrest ih =>
    rw [List.dropWhile_cons, List.dropWhile_cons, ← hkept p q hpq]
    split_ifs
    · exact ih
    · exact .keep hpq hrest
  | @drop p ps qs hp _ ih =>
    rw [List.dropWhile_cons, hplain p hp]
    exact ih

theorem append {ps' qs' : List Place} (h : Rows Kept Plain ps qs) (h' : Rows Kept Plain ps' qs') :
    Rows Kept Plain (ps ++ ps') (qs ++ qs') := by
  induction h with
  | nil => exact h'
  | keep hpq _ ih => exact .keep hpq ih
  | drop hp _ ih => exact .drop hp ih

theorem countP_eq (h : Rows Kept Plain ps qs) (hkept : ∀ p q, Kept p q → f p = g q)
    (hplain : ∀ p, Plain p → f p = false) : ps.countP f = qs.countP g := by
  induction h with
  | nil => rfl
  | @keep p q ps qs hpq _ ih => rw [List.countP_cons, List.countP_cons, hkept p q hpq, ih]
  | @drop p ps qs hp _ ih =>
    rw [List.countP_cons, hplain p hp, ih]
    rfl

theorem any_eq (h : Rows Kept Plain ps qs) (hkept : ∀ p q, Kept p q → f p = g q)
    (hplain : ∀ p, Plain p → f p = false) : ps.any f = qs.any g := by
  induction h with
  | nil => rfl
  | @keep p q ps qs hpq _ ih => rw [List.any_cons, List.any_cons, hkept p q hpq, ih]
  | @drop p ps qs hp _ ih => rw [List.any_cons, hplain p hp, ih, Bool.false_or]

end Rows

/-! ## Numbers in a row -/

namespace Place

/-- The number of siblings after a place that are no comments. -/
def rank (place : Place) : Nat :=
  place.after.countP fun q => !q.tree.isComment

theorem rank_lt_of_mem_after {p q : Place} (h : q ∈ p.after) (hq : q.tree.isComment = false) :
    q.rank < p.rank := by
  obtain ⟨before, hafter, -⟩ := after_eq_append h
  rw [rank, rank, hafter, List.countP_append, List.countP_cons, hq]
  simp only [Bool.not_false, if_true]
  omega

/-- Of the places of a row that are no comments, each is known by its rank. -/
theorem index_eq_iff_rank_eq {index : Nat} {trees : List Tree} {p q : Place}
    (hp : p ∈ row index trees) (hq : q ∈ row index trees) (hcp : p.tree.isComment = false)
    (hcq : q.tree.isComment = false) : p.index = q.index ↔ p.rank = q.rank := by
  constructor
  · intro h
    rw [eq_of_index_eq hp hq h]
  · intro h
    rcases Nat.lt_trichotomy p.index q.index with hlt | heq | hlt
    · have := rank_lt_of_mem_after (mem_after_of_index_lt hp hq hlt) hcq
      omega
    · exact heq
    · have := rank_lt_of_mem_after (mem_after_of_index_lt hq hp hlt) hcp
      omega

end Place

end DocOutline
