import DocOutline.Syntax.Tree
import Mathlib.Data.List.Nodup

/-!
# Rows and subtrees

The places of a row follow one another: each takes up the numbers of its own subtree, and the
next one begins after them. So a place of a row is known by its number, the rest of the row is
what comes after it (`Place.after`), and the subtrees of two places of a row have no number in
common.

Everything that a walk does at a place is determined by the children of the place and by the
places after it, and both are smaller. `Place.induction` is the induction that goes with it.
-/

namespace DocOutline.Place

/-! ## Rows -/

/-- The places of the siblings after a place. -/
def after (place : Place) : List Place :=
  row (place.index + place.tree.size) place.later

@[simp] theorem map_tree_row (index : Nat) (trees : List Tree) :
    (row index trees).map (·.tree) = trees := by
  induction trees generalizing index with
  | nil => rfl
  | cons tree later ih => rw [row, List.map_cons, ih]

theorem row_eq_append_after {index : Nat} {trees : List Tree} {p : Place}
    (h : p ∈ row index trees) : ∃ before, row index trees = before ++ p :: p.after := by
  induction trees generalizing index with
  | nil => simp [row] at h
  | cons tree later ih =>
    rcases List.mem_cons.1 h with rfl | h
    · exact ⟨[], rfl⟩
    · obtain ⟨before, hbefore⟩ := ih h
      refine ⟨⟨index, tree, later⟩ :: before, ?_⟩
      rw [row, hbefore, List.cons_append]

theorem mem_row_of_mem_after {index : Nat} {trees : List Tree} {p q : Place}
    (hp : p ∈ row index trees) (hq : q ∈ p.after) : q ∈ row index trees := by
  obtain ⟨before, hbefore⟩ := row_eq_append_after hp
  rw [hbefore]
  exact List.mem_append_right _ (List.mem_cons_of_mem _ hq)

theorem le_index_of_mem_row {index : Nat} {trees : List Tree} {p : Place}
    (h : p ∈ row index trees) : index ≤ p.index := by
  induction trees generalizing index with
  | nil => simp [row] at h
  | cons tree later ih =>
    rcases List.mem_cons.1 h with rfl | h
    · exact Nat.le_refl _
    · have := ih h
      omega

theorem end_le_of_mem_after {p q : Place} (h : q ∈ p.after) :
    p.index + p.tree.size ≤ q.index :=
  le_index_of_mem_row h

theorem lt_of_mem_after {p q : Place} (h : q ∈ p.after) : p.index < q.index := by
  have := end_le_of_mem_after h
  have := p.tree.size_pos
  omega

/-- Each place of a row ends before the next one begins. -/
theorem pairwise_row (index : Nat) (trees : List Tree) :
    (row index trees).Pairwise fun p q => p.index + p.tree.size ≤ q.index := by
  induction trees generalizing index with
  | nil => exact List.Pairwise.nil
  | cons tree later ih =>
    exact List.pairwise_cons.2 ⟨fun q hq => le_index_of_mem_row hq, ih _⟩

theorem pairwise_row_lt (index : Nat) (trees : List Tree) :
    (row index trees).Pairwise fun p q => p.index < q.index :=
  (pairwise_row index trees).imp fun {p q} h => by
    have := p.tree.size_pos
    omega

theorem nodup_index_row (index : Nat) (trees : List Tree) :
    ((row index trees).map (·.index)).Nodup :=
  List.pairwise_map.2 ((pairwise_row_lt index trees).imp Nat.ne_of_lt)

/-- A place of a row is known by its number. -/
theorem eq_of_index_eq {index : Nat} {trees : List Tree} {p q : Place}
    (hp : p ∈ row index trees) (hq : q ∈ row index trees) (h : p.index = q.index) : p = q :=
  List.inj_on_of_nodup_map (nodup_index_row index trees) hp hq h

/-- Of two places in a row the one with the greater number comes after the other. -/
theorem mem_after_of_index_lt {index : Nat} {trees : List Tree} {p q : Place}
    (hp : p ∈ row index trees) (hq : q ∈ row index trees) (h : p.index < q.index) :
    q ∈ p.after := by
  obtain ⟨before, hbefore⟩ := row_eq_append_after hp
  have hlt := pairwise_row_lt index trees
  rw [hbefore] at hq hlt
  rcases List.mem_append.1 hq with hq | hq
  · have := (List.pairwise_append.1 hlt).2.2 q hq p List.mem_cons_self
    omega
  · rcases List.mem_cons.1 hq with rfl | hq
    · omega
    · exact hq

/-! ## Subtrees -/

/-- A place and all places below it. -/
def subtree (place : Place) : List Place :=
  place :: preorderBelow place.index place.tree

theorem mem_subtree_self (p : Place) : p ∈ p.subtree :=
  List.mem_cons_self

theorem preorderRow_eq_flatMap (index : Nat) (trees : List Tree) :
    preorderRow index trees = (row index trees).flatMap subtree := by
  induction trees generalizing index with
  | nil => simp [preorderRow, row]
  | cons tree later ih => simp [preorderRow, row, subtree, ih]

theorem subtree_eq (p : Place) : p.subtree = p :: p.children.flatMap subtree := by
  obtain ⟨index, ⟨info, trees⟩, later⟩ := p
  simp only [subtree, preorderBelow, preorderRow_eq_flatMap, children, Tree.children]

theorem mem_subtree_of_child {p q n : Place} (hq : q ∈ p.children) (hn : n ∈ q.subtree) :
    n ∈ p.subtree := by
  rw [subtree_eq]
  exact List.mem_cons_of_mem _ (List.mem_flatMap.2 ⟨q, hq, hn⟩)

theorem mem_subtree_iff {p n : Place} :
    n ∈ p.subtree ↔ n = p ∨ ∃ q ∈ p.children, n ∈ q.subtree := by
  rw [subtree_eq, List.mem_cons, List.mem_flatMap]

theorem index_subtree (p : Place) :
    p.subtree.map (·.index) = List.range' p.index p.tree.size := by
  have hpos := p.tree.size_pos
  obtain ⟨n, hn⟩ : ∃ n, p.tree.size = n + 1 := ⟨p.tree.size - 1, by omega⟩
  simp only [subtree, List.map_cons, index_preorderBelow, hn, Nat.add_sub_cancel,
    List.range'_succ]

theorem index_of_mem_subtree {p n : Place} (h : n ∈ p.subtree) :
    p.index ≤ n.index ∧ n.index < p.index + p.tree.size := by
  have : n.index ∈ p.subtree.map (·.index) := List.mem_map_of_mem h
  rw [index_subtree, List.mem_range'_1] at this
  exact this

theorem index_lt_of_mem_children {p q n : Place} (hq : q ∈ p.children) (hn : n ∈ q.subtree) :
    p.index < n.index := by
  have hlower : p.index < q.index := le_index_of_mem_row hq
  have hupper := index_of_mem_subtree hn
  omega

/-- Two children of a node with a number in common below them are the same. -/
theorem eq_of_index_subtree_eq {c d e m n : Place} (hd : d ∈ c.children) (he : e ∈ c.children)
    (hm : m ∈ d.subtree) (hn : n ∈ e.subtree) (h : m.index = n.index) : d = e := by
  have hm' := index_of_mem_subtree hm
  have hn' := index_of_mem_subtree hn
  rcases Nat.lt_trichotomy d.index e.index with hlt | heq | hlt
  · have := end_le_of_mem_after (mem_after_of_index_lt hd he hlt)
    omega
  · exact eq_of_index_eq hd he heq
  · have := end_le_of_mem_after (mem_after_of_index_lt he hd hlt)
    omega

theorem preorder_eq_subtree (tree : Tree) : preorder tree = (ofRoot tree).subtree := by
  simp [preorder, preorderRow, ofRoot, subtree]

/-! ## Induction -/

/-- The number of nodes of a place and of the siblings after it. -/
def weight (place : Place) : Nat :=
  place.tree.size + Tree.sizeList place.later

theorem weight_le_of_mem_row {index : Nat} {trees : List Tree} {p : Place}
    (h : p ∈ row index trees) : p.weight ≤ Tree.sizeList trees := by
  induction trees generalizing index with
  | nil => simp [row] at h
  | cons tree later ih =>
    rw [Tree.sizeList]
    rcases List.mem_cons.1 h with rfl | h
    · exact Nat.le_refl _
    · have := ih h
      omega

theorem weight_lt_of_mem_children {p q : Place} (h : q ∈ p.children) : q.weight < p.weight := by
  obtain ⟨index, ⟨info, trees⟩, later⟩ := p
  have := weight_le_of_mem_row h
  simp only [Tree.children] at this
  simp only [weight, Tree.size] at this ⊢
  omega

theorem weight_lt_of_mem_after {p q : Place} (h : q ∈ p.after) : q.weight < p.weight := by
  have := weight_le_of_mem_row h
  have := p.tree.size_pos
  simp only [weight] at *
  omega

/-- What holds of a place whenever it holds of its children and of the places after it holds
of every place. -/
theorem induction {P : Place → Prop}
    (step : ∀ p : Place, (∀ q ∈ p.children, P q) → (∀ q ∈ p.after, P q) → P p) (p : Place) :
    P p :=
  step p (fun q _ => induction step q) (fun q _ => induction step q)
termination_by p.weight
decreasing_by
  · exact weight_lt_of_mem_children ‹_›
  · exact weight_lt_of_mem_after ‹_›

theorem mem_subtree_trans {m n : Place} (p : Place) (hn : n ∈ p.subtree) (hm : m ∈ n.subtree) :
    m ∈ p.subtree := by
  induction p using Place.induction with
  | step p ih _ =>
    rcases mem_subtree_iff.1 hn with rfl | ⟨q, hq, hnq⟩
    · exact hm
    · exact mem_subtree_of_child hq (ih q hq hnq)

/-- Below a place, the siblings of a place are below it as well. -/
theorem mem_subtree_of_mem_after (p : Place) :
    ∀ {n q m : Place}, n ∈ p.subtree → n ≠ p → q ∈ n.after → m ∈ q.subtree → m ∈ p.subtree := by
  induction p using Place.induction with
  | step p ih _ =>
    intro n q m hn hne hq hm
    rcases mem_subtree_iff.1 hn with rfl | ⟨b, hb, hnb⟩
    · exact absurd rfl hne
    · by_cases hbn : n = b
      · subst hbn
        exact mem_subtree_of_child (mem_row_of_mem_after hb hq) hm
      · exact mem_subtree_of_child hb (ih b hb hnb hbn hq hm)

theorem mem_subtree_ofRoot_of_mem_after {tree : Tree} {p q : Place}
    (hp : p ∈ (ofRoot tree).subtree) (hq : q ∈ p.after) : q ∈ (ofRoot tree).subtree := by
  refine mem_subtree_of_mem_after _ hp ?_ hq q.mem_subtree_self
  rintro rfl
  exact absurd hq List.not_mem_nil

theorem mem_subtree_of_mem_children {root p q : Place} (hp : p ∈ root.subtree)
    (hq : q ∈ p.children) : q ∈ root.subtree :=
  mem_subtree_trans root hp (mem_subtree_of_child hq q.mem_subtree_self)

/-! ## Searching a row -/

/-- A search in a row finds the place with the least number. -/
theorem index_le_of_find? {places : List Place} (hlt : places.Pairwise (·.index < ·.index))
    {f : Place → Bool} {p q : Place} (hp : places.find? f = some p) (hq : q ∈ places)
    (hf : f q = true) : p.index ≤ q.index := by
  obtain ⟨-, before, rest, rfl, hbefore⟩ := List.find?_eq_some_iff_append.1 hp
  rcases List.mem_append.1 hq with hq | hq
  · have := hbefore q hq
    rw [hf] at this
    cases this
  · rcases List.mem_cons.1 hq with rfl | hq
    · exact Nat.le_refl _
    · have hrest := (List.pairwise_append.1 hlt).2.1
      exact Nat.le_of_lt ((List.pairwise_cons.1 hrest).1 q hq)

theorem pairwise_after_lt (p : Place) : p.after.Pairwise (·.index < ·.index) :=
  pairwise_row_lt _ _

/-- A row is cut in two at any of its places. -/
theorem after_eq_append {p q : Place} (h : q ∈ p.after) :
    ∃ before, p.after = before ++ q :: q.after ∧ ∀ b ∈ before, b ∈ p.after ∧ b.index < q.index := by
  obtain ⟨before, hbefore⟩ := row_eq_append_after h
  have hafter : p.after = before ++ q :: q.after := hbefore
  refine ⟨before, hafter, fun b hb => ⟨?_, ?_⟩⟩
  · rw [hafter]
    exact List.mem_append_left _ hb
  · have hlt := p.pairwise_after_lt
    rw [hafter] at hlt
    exact (List.pairwise_append.1 hlt).2.2 b hb q List.mem_cons_self

end DocOutline.Place
