import DocOutline.Walk.Basic
import Mathlib.Data.List.Forall2

/-!
# What a walk returns and what it reports

A walk that returns has passed every step, and a walk that faults has reported only what came
before the fault.
-/

namespace DocOutline

variable {α β : Type}

theorem bind_eq_ok_iff {ε : Type} {x : Except ε α} {f : α → Except ε β} {b : β} :
    (x >>= f) = .ok b ↔ ∃ a, x = .ok a ∧ f a = .ok b := by
  cases x with
  | error e =>
    constructor
    · intro h; cases h
    · rintro ⟨a, ha, -⟩; cases ha
  | ok a =>
    constructor
    · intro h; exact ⟨a, rfl, h⟩
    · rintro ⟨a', ha, h⟩
      cases ha
      exact h

/-- What a computation that is run returns. -/
theorem exists_eq_ok_of_any {ε : Type} {x : Except ε α} {f : α → Bool}
    (h : x.toOption.any f = true) : ∃ a, x = .ok a ∧ f a = true := by
  cases x with
  | error e => cases h
  | ok a => exact ⟨a, rfl, h⟩

/-! ## Computations over a list -/

section Lists

variable {ε : Type} {f : α → Except ε β} {l : List α} {bs : List β}

theorem mapM_eq_ok_iff : l.mapM f = .ok bs ↔ List.Forall₂ (fun a b => f a = .ok b) l bs := by
  induction l generalizing bs with
  | nil =>
    rw [List.mapM_nil, List.forall₂_nil_left_iff]
    exact ⟨fun h => (Except.ok.inj h).symm, fun h => congrArg _ h.symm⟩
  | cons a l ih =>
    rw [List.mapM_cons, bind_eq_ok_iff, List.forall₂_cons_left_iff]
    simp only [bind_eq_ok_iff, ih]
    constructor
    · rintro ⟨b, hb, rest, hrest, h⟩
      exact ⟨b, rest, hb, hrest, (Except.ok.inj h).symm⟩
    · rintro ⟨b, rest, hb, hrest, rfl⟩
      exact ⟨b, hb, rest, hrest, rfl⟩

theorem exists_mapM {P : β → Prop} (h : ∀ a ∈ l, ∃ b, f a = .ok b ∧ P b) :
    ∃ bs, l.mapM f = .ok bs ∧ ∀ b ∈ bs, P b := by
  induction l with
  | nil => exact ⟨[], rfl, List.forall_mem_nil _⟩
  | cons a l ih =>
    obtain ⟨b, hb, hP⟩ := h a List.mem_cons_self
    obtain ⟨bs, hbs, hPs⟩ := ih fun a ha => h a (List.mem_cons_of_mem _ ha)
    exact ⟨b :: bs, mapM_eq_ok_iff.2 (.cons hb (mapM_eq_ok_iff.1 hbs)),
      List.forall_mem_cons.2 ⟨hP, hPs⟩⟩

theorem exists_of_mapM (h : l.mapM f = .ok bs) {a : α} (ha : a ∈ l) : ∃ b, f a = .ok b := by
  induction mapM_eq_ok_iff.1 h with
  | nil => cases ha
  | cons hb hrest ih =>
    rcases List.mem_cons.1 ha with rfl | ha
    · exact ⟨_, hb⟩
    · exact ih (mapM_eq_ok_iff.2 hrest) ha

theorem getElem?_of_mapM (h : l.mapM f = .ok bs) {k : Nat} {a : α} (ha : l[k]? = some a) :
    ∃ b, bs[k]? = some b ∧ f a = .ok b := by
  induction mapM_eq_ok_iff.1 h generalizing k with
  | nil => cases ha
  | cons hb hrest ih =>
    cases k with
    | zero =>
      cases ha
      exact ⟨_, rfl, hb⟩
    | succ k => exact ih (mapM_eq_ok_iff.2 hrest) ha

end Lists

namespace Walk

/-! ## Outcomes -/

/-- The walk ends without a fault. -/
def Returns (walk : Walk α) : Prop :=
  ∃ a, walk.outcome = .ok a

/-- What a walk that is run returns. -/
theorem exists_ok_of_any {walk : Walk α} {f : α → Bool}
    (h : walk.outcome.toOption.any f = true) : ∃ a, walk.outcome = .ok a ∧ f a = true :=
  exists_eq_ok_of_any h

@[simp] theorem outcome_pure (a : α) : (pure a : Walk α).outcome = .ok a := rfl

@[simp] theorem outcome_lift (x : Except Fault α) : (liftM x : Walk α).outcome = x := rfl

/-- A walk that returns has returned from its first part. -/
theorem outcome_bind_eq_ok_iff {walk : Walk α} {next : α → Walk β} {b : β} :
    (walk >>= next).outcome = .ok b ↔
      ∃ a, walk.outcome = .ok a ∧ (next a).outcome = .ok b := by
  rw [outcome_bind, bind_eq_ok_iff]

/-! ## Diagnostics -/

theorem diagnostics_bind_ok {walk : Walk α} {a : α} (h : walk.outcome = .ok a)
    (next : α → Walk β) :
    (walk >>= next).diagnostics = walk.diagnostics ++ (next a).diagnostics := by
  simp only [diagnostics, notes_bind_ok h, List.filterMap_append]

theorem diagnostics_bind_error {walk : Walk α} {fault : Fault} (h : walk.outcome = .error fault)
    (next : α → Walk β) : (walk >>= next).diagnostics = walk.diagnostics := by
  show (Walk.bind walk next).diagnostics = _
  unfold Walk.bind
  rw [h]
  rfl

end Walk

end DocOutline
