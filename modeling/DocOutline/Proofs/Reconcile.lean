import DocOutline.Walk.Reconcile
import Mathlib.Data.List.Basic
import Mathlib.Tactic.SplitIfs

/-!
# What the plan assigns

Entering the contexts of the pairs is a race, and so are the sweeps of the pairs over the open
claims: the first pair wins. So a point belongs to the first pair whose context starts there
(`ContextMap.lookup_enterAll`), and the owner of a claim is the first pair whose context has a
fitting child at the position of the claim (`Claim.getElem?_sweepAll`). The target of a declaration
is the first pair that documents it, or else the first that matches it by position
(`Plan.getElem?_targets`).

Applying the plan changes nothing of a pair but the properties of its context.
-/

namespace DocOutline

/-- Numbers from `owner + 1` on are numbers from `owner` on, each moved by one. -/
theorem map_add_succ (found : Option Nat) (owner : Nat) :
    (found.map (· + 1)).map (· + owner) = found.map (· + (owner + 1)) := by
  cases found with
  | none => rfl
  | some n => exact congrArg some (Nat.add_right_comm n 1 owner)

/-! ## Claims -/

/-- The first pair whose context has a child of the kind of the declaration at a position. -/
def matchOf? (pairs : List Entry) (position : Nat) (decl : Entry) : Option Nat :=
  pairs.findIdx? fun pair => (Claim.claimants pair)[position]?.any (·.kind == decl.kind)

theorem matchOf?_cons (pair : Entry) (pairs : List Entry) (position : Nat) (decl : Entry) :
    matchOf? (pair :: pairs) position decl =
      if (Claim.claimants pair)[position]?.any (·.kind == decl.kind) then some 0
      else (matchOf? pairs position decl).map (· + 1) := by
  rw [matchOf?, List.findIdx?_cons]
  rfl

namespace Claim

theorem getElem?_sweep (owner : Nat) (children : List Entry) (claims : List Claim) (r : Nat) :
    (sweep owner children claims)[r]? = claims[r]?.map fun claim =>
      if children[r]?.any claim.fits then { claim with owner := some owner } else claim := by
  induction children generalizing claims r with
  | nil =>
    have hsweep : sweep owner [] claims = claims := by cases claims <;> rfl
    rw [hsweep]
    cases claims[r]? <;> rfl
  | cons child children ih =>
    cases claims with
    | nil => simp [sweep]
    | cons claim claims =>
      cases r with
      | zero => simp [sweep]
      | succ r => simp [sweep, ih]

/-- A claim that has an owner keeps it, and any other goes to the first pair that fits. -/
theorem getElem?_sweepAll (owner : Nat) (pairs : List Entry) (claims : List Claim) (r : Nat) :
    (sweepAll owner pairs claims)[r]? = claims[r]?.map fun claim =>
      if claim.owner.isSome then claim
      else { claim with owner := (matchOf? pairs r claim.decl).map (· + owner) } := by
  induction pairs generalizing owner claims with
  | nil =>
    rw [sweepAll]
    cases claims[r]? with
    | none => rfl
    | some claim =>
      obtain ⟨decl, owner?⟩ := claim
      cases owner? <;> simp [matchOf?]
  | cons pair pairs ih =>
    rw [sweepAll, ih, getElem?_sweep]
    cases claims[r]? with
    | none => rfl
    | some claim =>
      obtain ⟨decl, owner?⟩ := claim
      simp only [Option.map_some, Option.some.injEq]
      cases owner? with
      | some taken =>
        have hno : (claimants pair)[r]?.any (fits ⟨decl, some taken⟩) = false := by
          cases (claimants pair)[r]? <;> simp [fits]
        simp [hno]
      | none =>
        have hfits : (claimants pair)[r]?.any (fits ⟨decl, none⟩) =
            (claimants pair)[r]?.any (·.kind == decl.kind) := by
          cases (claimants pair)[r]? <;> simp [fits]
        rw [hfits, matchOf?_cons]
        cases (claimants pair)[r]?.any (·.kind == decl.kind) with
        | true => simp
        | false =>
          simp only [Bool.false_eq_true, if_false, Option.isSome_none, map_add_succ]

end Claim

/-! ## Duplicates -/

namespace ContextMap

theorem lookup_insertNew (contexts : ContextMap) (point other : Point) (owner : Nat) :
    (contexts.insertNew other owner).lookup point =
      (contexts.lookup point).or (if other == point then some owner else none) := by
  unfold insertNew
  by_cases hsame : other = point
  · subst hsame
    cases hlookup : contexts.lookup other with
    | none => simp
    | some first => simp [hlookup]
  · have hbeq : (point == other) = false := beq_eq_false_iff_ne.2 (Ne.symm hsame)
    simp only [beq_iff_eq, hsame, if_false, Option.or_none]
    split
    · rfl
    · rw [List.lookup_cons, hbeq]

theorem lookup_enter (owner : Nat) (pair : Entry) (contexts : ContextMap) (point : Point) :
    (enter owner pair contexts).lookup point =
      (contexts.lookup point).or
        (if pair.context.any (·.key == point) then some owner else none) := by
  unfold enter
  cases pair.context with
  | none => simp
  | some context => exact lookup_insertNew contexts point context.key owner

/-- A point that has a number keeps it, and any other gets that of the first pair whose context
starts there. -/
theorem lookup_enterAll (owner : Nat) (pairs : List Entry) (contexts : ContextMap)
    (point : Point) :
    (enterAll owner pairs contexts).lookup point =
      (contexts.lookup point).or
        ((pairs.findIdx? fun pair => pair.context.any (·.key == point)).map (· + owner)) := by
  induction pairs generalizing owner contexts with
  | nil => simp [enterAll]
  | cons pair pairs ih =>
    rw [enterAll, ih, lookup_enter, List.findIdx?_cons, Option.or_assoc]
    congr 1
    by_cases hstarts : pair.context.any (·.key == point) = true
    · simp [hstarts]
    · simp only [hstarts, Bool.false_eq_true, if_false, Option.none_or, map_add_succ]

end ContextMap

/-- A duplicate goes to the first pair whose context starts where it starts. -/
theorem duplicateOf?_eq_findIdx? (pairs : List Entry) (decl : Entry) :
    duplicateOf? pairs decl = pairs.findIdx? fun pair => pair.context.any (·.key == decl.key) := by
  rw [duplicateOf?, ContextMap.lookup_enterAll]
  simp

/-! ## Targets -/

theorem duplicateOf?_eq_some {pairs : List Entry} {decl : Entry} {j : Nat}
    (h : duplicateOf? pairs decl = some j) :
    ∃ pair context, pairs[j]? = some pair ∧ pair.context = some context ∧
      context.key = decl.key := by
  rw [duplicateOf?_eq_findIdx?] at h
  obtain ⟨hlt, hpair, -⟩ := List.findIdx?_eq_some_iff_getElem.1 h
  obtain ⟨context, hcontext, hkey⟩ := (Option.any_eq_true _ _).1 hpair
  exact ⟨pairs[j], context, List.getElem?_eq_getElem hlt, hcontext, beq_iff_eq.1 hkey⟩

theorem matchOf?_eq_some {pairs : List Entry} {position : Nat} {decl : Entry} {j : Nat}
    (h : matchOf? pairs position decl = some j) :
    ∃ pair child, pairs[j]? = some pair ∧ (Claim.claimants pair)[position]? = some child ∧
      child.kind = decl.kind := by
  obtain ⟨hlt, hpair, -⟩ := List.findIdx?_eq_some_iff_getElem.1 h
  obtain ⟨child, hchild, hkind⟩ := (Option.any_eq_true _ _).1 hpair
  exact ⟨pairs[j], child, List.getElem?_eq_getElem hlt, hchild, beq_iff_eq.1 hkind⟩

/-- The entry at index `i` is found in a filtered list behind those before it that pass. -/
theorem getElem?_filter_countP {α : Type} {p : α → Bool} {l : List α} {i : Nat} {a : α}
    (hi : l[i]? = some a) (ha : p a = true) :
    (l.filter p)[(l.take i).countP p]? = some a := by
  induction l generalizing i with
  | nil => simp at hi
  | cons b l ih =>
    cases i with
    | zero =>
      obtain rfl : b = a := by simpa using hi
      simp [ha]
    | succ i =>
      have hl := ih (by simpa using hi)
      by_cases hb : p b = true <;> simp [hb, hl]

namespace Plan

theorem getElem?_fill (targets : List (Option Nat)) (claims : List Claim) (i : Nat) :
    (fill targets claims)[i]? = targets[i]?.map fun target =>
      target.or (claims[(targets.take i).countP Option.isNone]?.bind (·.owner)) := by
  induction targets generalizing claims i with
  | nil => simp [fill]
  | cons target targets ih =>
    cases target with
    | some j =>
      cases i with
      | zero => simp [fill]
      | succ i => simp [fill, ih]
    | none =>
      cases claims with
      | nil =>
        cases i with
        | zero => simp [fill]
        | succ i => simp [fill, ih]
      | cons claim claims =>
        cases i with
        | zero => simp [fill]
        | succ i => simp [fill, ih]

/-- The number of declarations before index `i` that no pair documents. -/
def rank (pairs decls : List Entry) (i : Nat) : Nat :=
  (decls.take i).countP fun decl => (duplicateOf? pairs decl).isNone

/-- The target of a declaration: the first pair that documents it, or else the first pair that
matches it by its position among the declarations that no pair documents. -/
theorem getElem?_targets (pairs decls : List Entry) (i : Nat) :
    (make pairs decls).targets[i]? = decls[i]?.map fun decl =>
      (duplicateOf? pairs decl).or (matchOf? pairs (rank pairs decls i) decl) := by
  simp only [make, getElem?_fill, List.getElem?_map, ← List.map_take, List.countP_map]
  cases hi : decls[i]? with
  | none => rfl
  | some decl =>
    simp only [Option.map_some, Option.some.injEq]
    cases hdup : duplicateOf? pairs decl with
    | some j => rfl
    | none =>
      -- A declaration that no pair documents has its claim behind those of the ones before it.
      have hclaim : (openClaims pairs decls)[rank pairs decls i]? = some ⟨decl, none⟩ := by
        rw [openClaims, List.getElem?_map, rank,
          getElem?_filter_countP hi (by rw [hdup]; rfl)]
        rfl
      have howner := Claim.getElem?_sweepAll 0 pairs (openClaims pairs decls) (rank pairs decls i)
      rw [hclaim] at howner
      simp only [Option.none_or]
      show ((Claim.sweepAll 0 pairs (openClaims pairs decls))[rank pairs decls i]?).bind _ = _
      rw [howner]
      simp

theorem length_targets (pairs decls : List Entry) :
    (make pairs decls).targets.length = decls.length := by
  apply Nat.le_antisymm
  · rw [← List.getElem?_eq_none_iff, getElem?_targets]
    simp
  · rw [← List.getElem?_eq_none_iff]
    have := getElem?_targets pairs decls (make pairs decls).targets.length
    simpa using this.symm

/-! ## Applying the plan -/

/-- The pairs with what they take in. -/
def taken (plan : Plan) (pairs decls : List Entry) : List Entry :=
  (decls.zip plan.targets).foldl takeIn pairs

/-- The declarations that no pair takes in. -/
def left (plan : Plan) (pairs decls : List Entry) : List Entry :=
  ((decls.zip plan.targets).filter fun (_, target) => isUnclaimed pairs.length target).map (·.1)

theorem apply_eq (plan : Plan) (pairs decls : List Entry) :
    plan.apply pairs decls = plan.taken pairs decls ++ plan.left pairs decls := rfl

/-- Whatever does not depend on the properties of contexts is the same after taking in. -/
theorem map_taken {β : Type} {f : Entry → β} (hf : ∀ decl pair, f (absorb decl pair) = f pair)
    (plan : Plan) (pairs decls : List Entry) :
    (plan.taken pairs decls).map f = pairs.map f := by
  unfold taken
  generalize decls.zip plan.targets = aimed
  induction aimed generalizing pairs with
  | nil => rfl
  | cons aim aimed ih =>
    rw [List.foldl_cons, ih]
    obtain ⟨decl, target⟩ := aim
    cases target with
    | none => rfl
    | some j =>
      refine List.ext_getElem? fun i => ?_
      simp only [takeIn, List.getElem?_map, List.getElem?_modify]
      by_cases hij : j = i
      · simp only [hij, if_true]
        cases pairs[i]? <;> simp [hf]
      · simp only [if_neg hij]
        cases pairs[i]? <;> rfl

theorem map_key_absorb (decl pair : Entry) :
    (absorb decl pair).context.map (·.key) = pair.context.map (·.key) := by
  unfold absorb
  split
  · rename_i context properties hcontext hproperties
    simp only [hcontext, Option.map_some, Option.some.injEq]
    unfold Entry.mergeProperties
    split_ifs <;> rfl
  · rfl

theorem claimants_absorb (decl pair : Entry) :
    Claim.claimants (absorb decl pair) = Claim.claimants pair := by
  unfold absorb
  split
  · rename_i context properties hcontext hproperties
    simp only [Claim.claimants, hcontext, Option.map_some, Option.getD_some]
    unfold Entry.mergeProperties
    split_ifs <;> rfl
  · rfl

/-- The declarations that are left come in their order. -/
theorem left_sublist (pairs decls : List Entry) :
    ((make pairs decls).left pairs decls).Sublist decls := by
  have hzip : (decls.zip (make pairs decls).targets).map (·.1) = decls :=
    List.map_fst_zip (Nat.le_of_eq (length_targets pairs decls).symm)
  rw [left]
  conv_rhs => rw [← hzip]
  exact List.filter_sublist.map _

theorem mem_left_iff {pairs decls : List Entry} {decl : Entry} :
    decl ∈ (make pairs decls).left pairs decls ↔
      ∃ i, decls[i]? = some decl ∧ duplicateOf? pairs decl = none ∧
        matchOf? pairs (rank pairs decls i) decl = none := by
  -- Every target is the number of a pair, so what is left has no target.
  have hunclaimed : ∀ i, isUnclaimed pairs.length
      ((duplicateOf? pairs decl).or (matchOf? pairs (rank pairs decls i) decl)) = true ↔
        duplicateOf? pairs decl = none ∧ matchOf? pairs (rank pairs decls i) decl = none := by
    intro i
    cases hdup : duplicateOf? pairs decl with
    | some j =>
      obtain ⟨pair, -, hpair, -⟩ := duplicateOf?_eq_some hdup
      simp [isUnclaimed, (List.getElem?_eq_some_iff.1 hpair).1]
    | none =>
      cases hmatch : matchOf? pairs (rank pairs decls i) decl with
      | some j =>
        obtain ⟨pair, -, hpair, -⟩ := matchOf?_eq_some hmatch
        simp [isUnclaimed, (List.getElem?_eq_some_iff.1 hpair).1]
      | none => simp [isUnclaimed]
  constructor
  · intro h
    obtain ⟨aim, hmem, rfl⟩ := List.mem_map.1 h
    obtain ⟨hzip, hopen⟩ := List.mem_filter.1 hmem
    obtain ⟨i, hi⟩ := List.mem_iff_getElem?.1 hzip
    obtain ⟨hdecl, htarget⟩ := List.getElem?_zip_eq_some.1 hi
    rw [getElem?_targets, hdecl, Option.map_some, Option.some.injEq] at htarget
    exact ⟨i, hdecl, (hunclaimed i).1 (htarget ▸ hopen)⟩
  · rintro ⟨i, hdecl, hopen⟩
    refine List.mem_map.2 ⟨(decl, _), List.mem_filter.2 ⟨?_, (hunclaimed i).2 hopen⟩, rfl⟩
    refine List.mem_iff_getElem?.2 ⟨i, List.getElem?_zip_eq_some.2 ⟨hdecl, ?_⟩⟩
    rw [getElem?_targets, hdecl, Option.map_some]

end Plan

end DocOutline
