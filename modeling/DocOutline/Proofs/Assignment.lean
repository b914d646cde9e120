import DocOutline.Proofs.Reconcile
import Mathlib.Data.Set.Card

/-!
# The plan declaration by declaration

The plan is made pair by pair: all contexts are looked at for duplicates, and then the children
of one context after another claim what is still free. Here the same assignment is described
declaration by declaration, without any of this order:

* a declaration goes to the first pair that documents it (`Plan.GoesByKey`);
* a declaration that no pair documents goes to the first pair whose context has a child of the
  same kind at its position, counted among the declarations that no pair documents
  (`Plan.GoesByPosition`).

`Plan.targets_iff` says that the plan assigns exactly this, and that its two numbers count the
declarations that either rule assigns.
-/

namespace DocOutline

/-! ## Indices with a property -/

section Indices

variable {α : Type} {p : α → Prop} {l : List α}

/-- The indices at which a list has an element with a property. -/
def indicesWith (p : α → Prop) (l : List α) : Set Nat :=
  {i | ∃ a, l[i]? = some a ∧ p a}

theorem isLeast_indicesWith_iff [DecidablePred p] {j : Nat} :
    IsLeast (indicesWith p l) j ↔ l.findIdx? (fun a => decide (p a)) = some j := by
  rw [List.findIdx?_eq_some_iff_getElem]
  constructor
  · rintro ⟨⟨a, ha, hp⟩, hleast⟩
    obtain ⟨hj, rfl⟩ := List.getElem?_eq_some_iff.1 ha
    refine ⟨hj, decide_eq_true hp, fun k hk hpk => ?_⟩
    have := hleast ⟨l[k], List.getElem?_eq_getElem (by omega), of_decide_eq_true hpk⟩
    omega
  · rintro ⟨hj, hp, hbefore⟩
    refine ⟨⟨l[j], List.getElem?_eq_getElem hj, of_decide_eq_true hp⟩, ?_⟩
    rintro k ⟨a, ha, hk⟩
    by_contra hlt
    obtain ⟨hk', rfl⟩ := List.getElem?_eq_some_iff.1 ha
    exact hbefore k (by omega) (decide_eq_true hk)

theorem lt_length_of_mem_indicesWith {i : Nat} (h : i ∈ indicesWith p l) : i < l.length := by
  obtain ⟨a, ha, -⟩ := h
  exact (List.getElem?_eq_some_iff.1 ha).1

theorem finite_indicesWith : (indicesWith p l).Finite :=
  (Set.finite_lt_nat l.length).subset fun _ => lt_length_of_mem_indicesWith

theorem indicesWith_cons (x : α) :
    indicesWith p (x :: l) = {i | i = 0 ∧ p x} ∪ Nat.succ '' indicesWith p l := by
  ext i
  cases i <;> simp [indicesWith]

theorem ncard_indicesWith [DecidablePred p] : (indicesWith p l).ncard = l.countP (p ·) := by
  induction l with
  | nil => simp [indicesWith]
  | cons x l ih =>
    have htail : (Nat.succ '' indicesWith p l).ncard = l.countP (p ·) := by
      rw [Set.ncard_image_of_injective _ Nat.succ_injective, ih]
    rw [indicesWith_cons]
    by_cases hx : p x
    · have hzero : 0 ∉ Nat.succ '' indicesWith p l := by simp
      simp only [hx, and_true, Set.ofPred_eq_eq_singleton, Set.singleton_union]
      rw [Set.ncard_insert_of_notMem hzero (finite_indicesWith.image _), htail]
      simp [hx]
    · simp [hx, htail]

end Indices

/-! ## The two rules -/

/-- The pair documents the declaration: its context starts where the declaration starts. -/
def Entry.Documents (pair decl : Entry) : Prop :=
  ∃ context, pair.context = some context ∧ context.key = decl.key

/-- The context of the pair has a child of the kind of the declaration at a position. -/
def Entry.Offers (pair : Entry) (position : Nat) (decl : Entry) : Prop :=
  ∃ context child, pair.context = some context ∧ context.children[position]? = some child ∧
    child.kind = decl.kind

theorem documents_iff (pair decl : Entry) :
    pair.Documents decl ↔ pair.context.any (·.key == decl.key) = true := by
  simp [Entry.Documents, Option.any_eq_true]

theorem offers_iff (pair : Entry) (position : Nat) (decl : Entry) :
    pair.Offers position decl ↔
      (Claim.claimants pair)[position]?.any (·.kind == decl.kind) = true := by
  unfold Entry.Offers Claim.claimants
  cases pair.context <;> simp [Option.any_eq_true]

instance (pair decl : Entry) : Decidable (pair.Documents decl) :=
  decidable_of_iff _ (documents_iff pair decl).symm

instance (pair : Entry) (position : Nat) (decl : Entry) :
    Decidable (pair.Offers position decl) :=
  decidable_of_iff _ (offers_iff pair position decl).symm

/-- No pair documents the declaration. -/
def Undocumented (pairs : List Entry) (decl : Entry) : Prop :=
  ∀ pair ∈ pairs, ¬ pair.Documents decl

instance (pairs : List Entry) (decl : Entry) : Decidable (Undocumented pairs decl) :=
  inferInstanceAs (Decidable (∀ pair ∈ pairs, ¬ pair.Documents decl))

theorem duplicateOf?_eq_some_iff {pairs : List Entry} {decl : Entry} {j : Nat} :
    duplicateOf? pairs decl = some j ↔ IsLeast (indicesWith (·.Documents decl) pairs) j := by
  rw [isLeast_indicesWith_iff, duplicateOf?_eq_findIdx?]
  simp only [documents_iff, Bool.decide_eq_true]

theorem matchOf?_eq_some_iff {pairs : List Entry} {position : Nat} {decl : Entry} {j : Nat} :
    matchOf? pairs position decl = some j ↔
      IsLeast (indicesWith (·.Offers position decl) pairs) j := by
  rw [isLeast_indicesWith_iff, matchOf?]
  simp only [offers_iff, Bool.decide_eq_true]

theorem duplicateOf?_eq_none_iff {pairs : List Entry} {decl : Entry} :
    duplicateOf? pairs decl = none ↔ Undocumented pairs decl := by
  simp [duplicateOf?_eq_findIdx?, Undocumented, documents_iff]

namespace Plan

/-- The declaration at index `i` goes to pair `j` because that is the first pair that documents
it. -/
def GoesByKey (pairs decls : List Entry) (i j : Nat) : Prop :=
  ∃ decl, decls[i]? = some decl ∧ IsLeast (indicesWith (·.Documents decl) pairs) j

/-- The number of declarations before index `i` that no pair documents. -/
noncomputable def positionOf (pairs decls : List Entry) (i : Nat) : Nat :=
  (indicesWith (Undocumented pairs) (decls.take i)).ncard

/-- The declaration at index `i` goes to pair `j` because no pair documents it, and that is the
first pair whose context has a child of its kind at its position. -/
def GoesByPosition (pairs decls : List Entry) (i j : Nat) : Prop :=
  ∃ decl, decls[i]? = some decl ∧ Undocumented pairs decl ∧
    IsLeast (indicesWith (·.Offers (positionOf pairs decls i) decl) pairs) j

theorem positionOf_eq_rank (pairs decls : List Entry) (i : Nat) :
    positionOf pairs decls i = rank pairs decls i := by
  rw [positionOf, ncard_indicesWith, rank]
  congr 1
  funext decl
  rw [Bool.eq_iff_iff, decide_eq_true_iff, Option.isNone_iff_eq_none, duplicateOf?_eq_none_iff]

/-! ## The numbers of the plan -/

theorem length_sweep (owner : Nat) (children : List Entry) (claims : List Claim) :
    (Claim.sweep owner children claims).length = claims.length := by
  fun_induction Claim.sweep owner children claims with
  | case1 child children claim claims ih => simp [ih]
  | case2 => rfl

theorem length_sweepAll (owner : Nat) (pairs : List Entry) (claims : List Claim) :
    (Claim.sweepAll owner pairs claims).length = claims.length := by
  induction pairs generalizing owner claims with
  | nil => rfl
  | cons pair pairs ih => rw [Claim.sweepAll, ih, length_sweep]

/-- With a claim for each free place, the filled places are those of the duplicates and those of
the claims with an owner. -/
theorem countP_isSome_fill {targets : List (Option Nat)} {claims : List Claim}
    (h : claims.length = targets.countP Option.isNone) :
    (fill targets claims).countP Option.isSome =
      targets.countP Option.isSome + claims.countP (·.owner.isSome) := by
  fun_induction fill targets claims with
  | case1 claims => simp_all
  | case2 target targets claims ih =>
    simp_all
    omega
  | case3 targets claim claims ih =>
    simp_all [List.countP_cons]
    omega
  | case4 targets ih => simp_all

theorem countP_isSome_targets (pairs decls : List Entry) :
    (make pairs decls).targets.countP Option.isSome =
      (make pairs decls).duplicates + (make pairs decls).matched := by
  apply countP_isSome_fill
  rw [length_sweepAll, openClaims, List.length_map, List.countP_map, List.countP_eq_length_filter]
  rfl

/-! ## The assignment -/

theorem goesByKey_iff {pairs decls : List Entry} {i j : Nat} :
    GoesByKey pairs decls i j ↔ (decls[i]?.bind (duplicateOf? pairs)) = some j := by
  simp only [GoesByKey, Option.bind_eq_some_iff, duplicateOf?_eq_some_iff]

theorem goesByPosition_iff {pairs decls : List Entry} {i j : Nat} :
    GoesByPosition pairs decls i j ↔ ∃ decl, decls[i]? = some decl ∧
      duplicateOf? pairs decl = none ∧ matchOf? pairs (rank pairs decls i) decl = some j := by
  simp only [GoesByPosition, positionOf_eq_rank, duplicateOf?_eq_none_iff, matchOf?_eq_some_iff]

theorem target_iff (pairs decls : List Entry) (i j : Nat) :
    (make pairs decls).targets[i]? = some (some j) ↔
      GoesByKey pairs decls i j ∨ GoesByPosition pairs decls i j := by
  rw [getElem?_targets, goesByKey_iff, goesByPosition_iff]
  cases decls[i]? with
  | none => simp
  | some decl => cases hdup : duplicateOf? pairs decl <;> simp [hdup]

theorem duplicates_eq_ncard (pairs decls : List Entry) :
    (make pairs decls).duplicates = {i | ∃ j, GoesByKey pairs decls i j}.ncard := by
  have hset : {i | ∃ j, GoesByKey pairs decls i j} =
      indicesWith (fun decl => (duplicateOf? pairs decl).isSome = true) decls := by
    ext i
    simp only [goesByKey_iff, indicesWith, Set.mem_ofPred_eq, Option.bind_eq_some_iff,
      Option.isSome_iff_exists]
    constructor
    · rintro ⟨j, decl, hdecl, hj⟩
      exact ⟨decl, hdecl, j, hj⟩
    · rintro ⟨decl, hdecl, j, hj⟩
      exact ⟨j, decl, hdecl, hj⟩
  rw [hset, ncard_indicesWith]
  simp only [make, List.countP_map, Bool.decide_eq_true]
  rfl

/-- What has a target is a duplicate or a match, and not both. -/
theorem matched_eq_ncard (pairs decls : List Entry) :
    (make pairs decls).matched = {i | ∃ j, GoesByPosition pairs decls i j}.ncard := by
  have hset : indicesWith (fun target => target.isSome = true) (make pairs decls).targets =
      {i | ∃ j, GoesByKey pairs decls i j} ∪ {i | ∃ j, GoesByPosition pairs decls i j} := by
    ext i
    simp only [indicesWith, Set.mem_ofPred_eq, Set.mem_union, ← exists_or, ← target_iff]
    constructor
    · rintro ⟨target, htarget, hsome⟩
      obtain ⟨j, rfl⟩ := Option.isSome_iff_exists.1 hsome
      exact ⟨j, htarget⟩
    · rintro ⟨j, htarget⟩
      exact ⟨some j, htarget, rfl⟩
  have hdisjoint : Disjoint {i | ∃ j, GoesByKey pairs decls i j}
      {i | ∃ j, GoesByPosition pairs decls i j} := by
    rw [Set.disjoint_left]
    rintro i ⟨j, hkey⟩ ⟨k, hposition⟩
    obtain ⟨decl, hdecl, hnone, -⟩ := goesByPosition_iff.1 hposition
    rw [goesByKey_iff, hdecl, Option.bind_some, hnone] at hkey
    cases hkey
  have hfinite := finite_indicesWith.subset (hset ▸ Set.subset_union_left)
  have hfinite' := finite_indicesWith.subset (hset ▸ Set.subset_union_right)
  have htotal := countP_isSome_targets pairs decls
  have hcard := Set.ncard_union_eq hdisjoint hfinite hfinite'
  simp only [← hset, ncard_indicesWith, Bool.decide_eq_true] at hcard
  change List.countP Option.isSome _ = _ at hcard
  rw [duplicates_eq_ncard] at htotal
  omega

/-- The plan has a target for each declaration: the first pair that documents it, or, where no
pair does, the first pair that has a child of its kind at its position; all others have no
target. It counts the declarations of the first and of the second sort. -/
theorem targets_iff (pairs decls : List Entry) :
    (make pairs decls).targets.length = decls.length ∧
      (∀ i j, (make pairs decls).targets[i]? = some (some j) ↔
        GoesByKey pairs decls i j ∨ GoesByPosition pairs decls i j) ∧
      (make pairs decls).duplicates = {i | ∃ j, GoesByKey pairs decls i j}.ncard ∧
      (make pairs decls).matched = {i | ∃ j, GoesByPosition pairs decls i j}.ncard :=
  ⟨length_targets pairs decls, target_iff pairs decls, duplicates_eq_ncard pairs decls,
    matched_eq_ncard pairs decls⟩

end Plan

end DocOutline
