import DocOutline.Proofs.Walks

/-!
# Walks that are alike

Two walks are compared step by step. They are alike if what they return is related and they
report the same. A fault stands against the same fault; where the comparison is not that strict,
a tolerance says which of the two walks may fault by itself, and then nothing more is said.

Being alike is kept by everything that a walk is put together from, so two walks over different
trees, or with different walkers, are compared by comparing their parts.
-/

namespace DocOutline

variable {α β γ δ : Type}

/-- Which of two walks may fault where the other one returns. -/
structure Tolerance where
  first : Prop
  second : Prop

/-- Both walks fault, or none does. -/
def Tolerance.strict : Tolerance :=
  ⟨False, False⟩

/-! ## Outcomes -/

/-- Two values are related; two faults are the same, unless one of them is tolerated. -/
def Agree (tol : Tolerance) (r : α → β → Prop) : Except Fault α → Except Fault β → Prop
  | .ok a, .ok b => r a b
  | .error fault, .error fault' => tol.first ∨ tol.second ∨ fault = fault'
  | .error _, .ok _ => tol.first
  | .ok _, .error _ => tol.second

namespace Agree

variable {tol : Tolerance} {r : α → β → Prop} {s : γ → δ → Prop}

theorem refl {r : α → α → Prop} (hr : ∀ a, r a a) (x : Except Fault α) : Agree tol r x x := by
  cases x with
  | error fault => exact .inr (.inr rfl)
  | ok a => exact hr a

theorem bind {x : Except Fault α} {y : Except Fault β} {f : α → Except Fault γ}
    {g : β → Except Fault δ} (h : Agree tol r x y)
    (hnext : ∀ a b, x = .ok a → y = .ok b → r a b → Agree tol s (f a) (g b)) :
    Agree tol s (x >>= f) (y >>= g) := by
  cases x with
  | error fault =>
    cases y with
    | error fault' => exact h
    | ok b =>
      show Agree tol s (.error fault) (g b)
      cases g b with
      | error fault' => exact .inl h
      | ok d => exact h
  | ok a =>
    cases y with
    | error fault =>
      show Agree tol s (f a) (.error fault)
      cases f a with
      | error fault' => exact .inr (.inl h)
      | ok c => exact h
    | ok b => exact hnext a b rfl rfl h

theorem mono {r' : α → β → Prop} {x : Except Fault α} {y : Except Fault β} (h : Agree tol r x y)
    (hr : ∀ a b, x = .ok a → y = .ok b → r a b → r' a b) : Agree tol r' x y := by
  cases x with
  | error fault => cases y <;> exact h
  | ok a =>
    cases y with
    | error fault => exact h
    | ok b => exact hr a b rfl rfl h

end Agree

/-! ## Walks -/

namespace Walk

/-- The outcomes agree, and the walks report the same unless a fault was tolerated. -/
structure Alike (tol : Tolerance) (r : α → β → Prop) (x : Walk α) (y : Walk β) : Prop where
  outcome : Agree tol r x.outcome y.outcome
  diagnostics : x.Returns ∧ y.Returns ∨ ¬ tol.first ∧ ¬ tol.second → x.diagnostics = y.diagnostics

namespace Alike

variable {tol : Tolerance} {r : α → β → Prop} {s : γ → δ → Prop}

theorem pure {a : α} {b : β} (h : r a b) : Alike tol r (pure a) (pure b) :=
  ⟨h, fun _ => rfl⟩

theorem lift {x : Except Fault α} {y : Except Fault β} (h : Agree tol r x y) :
    Alike tol r (liftM x : Walk α) (liftM y) :=
  ⟨h, fun _ => rfl⟩

theorem leave (notes : List Note) : Alike tol (fun _ _ => True) (leave notes) (leave notes) :=
  ⟨trivial, fun _ => rfl⟩

theorem mono {r' : α → β → Prop} {x : Walk α} {y : Walk β} (h : Alike tol r x y)
    (hr : ∀ a b, r a b → r' a b) : Alike tol r' x y :=
  ⟨h.outcome.mono fun a b _ _ => hr a b, h.diagnostics⟩

theorem returns_of_bind {walk : Walk α} {next : α → Walk γ} (h : (walk >>= next).Returns) :
    ∃ a, walk.outcome = .ok a ∧ (next a).Returns := by
  obtain ⟨c, hc⟩ := h
  obtain ⟨a, ha, hnext⟩ := outcome_bind_eq_ok_iff.1 hc
  exact ⟨a, ha, c, hnext⟩

theorem bind {x : Walk α} {y : Walk β} {f : α → Walk γ} {g : β → Walk δ} (h : Alike tol r x y)
    (hnext : ∀ a b, x.outcome = .ok a → y.outcome = .ok b → r a b → Alike tol s (f a) (g b)) :
    Alike tol s (x >>= f) (y >>= g) := by
  refine ⟨?_, fun hstrict => ?_⟩
  · rw [outcome_bind, outcome_bind]
    exact h.outcome.bind fun a b ha hb hab => (hnext a b ha hb hab).outcome
  have hparts : x.Returns ∧ y.Returns ∨ ¬ tol.first ∧ ¬ tol.second :=
    hstrict.imp_left fun ⟨hx, hy⟩ =>
      ⟨(returns_of_bind hx).imp fun a ha => ha.1, (returns_of_bind hy).imp fun b hb => hb.1⟩
  have houtcome := h.outcome
  cases hx : x.outcome with
  | error fault =>
    cases hy : y.outcome with
    | error fault' =>
      rw [diagnostics_bind_error hx, diagnostics_bind_error hy, h.diagnostics hparts]
    | ok b =>
      rw [hx, hy] at houtcome
      rcases hparts with ⟨⟨a, ha⟩, -⟩ | ⟨hfirst, -⟩
      · rw [hx] at ha
        cases ha
      · exact absurd houtcome hfirst
  | ok a =>
    cases hy : y.outcome with
    | error fault =>
      rw [hx, hy] at houtcome
      rcases hparts with ⟨-, ⟨b, hb⟩⟩ | ⟨-, hsecond⟩
      · rw [hy] at hb
        cases hb
      · exact absurd houtcome hsecond
    | ok b =>
      rw [hx, hy] at houtcome
      rw [diagnostics_bind_ok hx, diagnostics_bind_ok hy, h.diagnostics hparts]
      congr 1
      refine (hnext a b hx hy houtcome).diagnostics (hstrict.imp_left fun ⟨hf, hg⟩ => ⟨?_, ?_⟩)
      · obtain ⟨a', ha, hf⟩ := returns_of_bind hf
        rw [hx] at ha
        cases ha
        exact hf
      · obtain ⟨b', hb, hg⟩ := returns_of_bind hg
        rw [hy] at hb
        cases hb
        exact hg

/-- A step of the first walk that reports nothing has no counterpart in the second. -/
theorem silent_left {x : Walk γ} {c : γ} {f : γ → Walk α} {y : Walk β} (hx : x.outcome = .ok c)
    (hsilent : x.diagnostics = []) (h : Alike tol r (f c) y) : Alike tol r (x >>= f) y := by
  have houtcome : (x >>= f).outcome = (f c).outcome := by
    rw [outcome_bind, hx]
    rfl
  refine ⟨houtcome ▸ h.outcome, fun hstrict => ?_⟩
  rw [diagnostics_bind_ok hx, hsilent, List.nil_append]
  exact h.diagnostics (hstrict.imp_left fun ⟨⟨a, ha⟩, hy⟩ => ⟨⟨a, houtcome ▸ ha⟩, hy⟩)

/-- Walks that are alike without tolerance return the same and report the same. -/
theorem eq_of_strict {x y : Walk α} (h : Alike .strict Eq x y) :
    x.outcome = y.outcome ∧ x.diagnostics = y.diagnostics := by
  refine ⟨?_, h.diagnostics (.inr ⟨id, id⟩)⟩
  have houtcome := h.outcome
  cases hx : x.outcome with
  | error fault =>
    cases hy : y.outcome with
    | error fault' =>
      rw [hx, hy] at houtcome
      rcases houtcome with hfalse | hfalse | rfl
      · exact hfalse.elim
      · exact hfalse.elim
      · rfl
    | ok b =>
      rw [hx, hy] at houtcome
      exact houtcome.elim
  | ok a =>
    cases hy : y.outcome with
    | error fault =>
      rw [hx, hy] at houtcome
      exact houtcome.elim
    | ok b =>
      rw [hx, hy] at houtcome
      exact congrArg Except.ok houtcome

end Alike

end Walk

end DocOutline
