import DocOutline.Diagnostic
import DocOutline.Syntax.Table

/-!
# Walks

A walk over a syntax tree has an outcome, which is a value or a fault, and leaves notes on the
way, in order. Notes that were left before a fault stay. Diagnostics are the notes of one kind;
the others tell what the walk did.
-/

namespace DocOutline

/-- What a walk notes on its way. -/
inductive Note where
  /-- A node was left out. -/
  | reported (diagnostic : Diagnostic)
  /-- A node of a kind was dispatched to its bucket. -/
  | dispatched (kind : String) (bucket : Option Bucket)
  /-- A documented or exported node was dispatched to its role. -/
  | contextDispatched (kind : String) (role : Role)
  /-- The child of this number was dropped as a legal header. -/
  | headerStripped (index : Nat)
  /-- A declaration is the context of some pair as well. -/
  | duplicateFound (key : Point) (kind : String)
  /-- A declaration was matched by its position and its kind. -/
  | matchFound (position : Nat) (kind : String)
  /-- A program was outlined. -/
  | programVisited (path language : String) (pairs declarations duplicates matched output : Nat)
  deriving DecidableEq, Repr

/-- The diagnostic of a note that is one. -/
def Note.diagnostic? : Note → Option Diagnostic
  | .reported diagnostic => some diagnostic
  | _ => none

/-- A computation that leaves notes and may end in a fault. -/
structure Walk (α : Type) where
  notes : List Note
  outcome : Except Fault α

namespace Walk

variable {α β : Type}

protected def pure (a : α) : Walk α :=
  ⟨[], .ok a⟩

/-- One walk after another. The second does not happen after a fault. -/
protected def bind (walk : Walk α) (next : α → Walk β) : Walk β :=
  match walk.outcome with
  | .ok a =>
    let after := next a
    ⟨walk.notes ++ after.notes, after.outcome⟩
  | .error fault => ⟨walk.notes, .error fault⟩

instance : Monad Walk where
  pure := Walk.pure
  bind := Walk.bind

theorem notes_bind_ok {walk : Walk α} {a : α} (h : walk.outcome = .ok a) (next : α → Walk β) :
    (walk >>= next).notes = walk.notes ++ (next a).notes := by
  show (Walk.bind walk next).notes = _
  simp [Walk.bind, h]

theorem outcome_bind (walk : Walk α) (next : α → Walk β) :
    (walk >>= next).outcome = walk.outcome >>= fun a => (next a).outcome := by
  show (Walk.bind walk next).outcome = _
  unfold Walk.bind
  cases walk.outcome <;> rfl

instance : LawfulMonad Walk := LawfulMonad.mk' Walk
  (by
    intro α x
    show Walk.bind x (fun a => Walk.pure a) = x
    obtain ⟨notes, outcome⟩ := x
    cases outcome <;> simp [Walk.bind, Walk.pure])
  (by
    intro α β a f
    show Walk.bind (Walk.pure a) f = f a
    simp [Walk.bind, Walk.pure])
  (by
    intro α β γ x f g
    show Walk.bind (Walk.bind x f) g = Walk.bind x fun a => Walk.bind (f a) g
    obtain ⟨notes, outcome⟩ := x
    cases outcome with
    | error fault => rfl
    | ok a =>
      simp only [Walk.bind]
      cases (f a).outcome <;> simp)

/-- A computation without notes. -/
def ofExcept (outcome : Except Fault α) : Walk α :=
  ⟨[], outcome⟩

instance : MonadLift (Except Fault) Walk where
  monadLift := ofExcept

/-- Leaves notes and does nothing else. -/
def leave (notes : List Note) : Walk Unit :=
  ⟨notes, .ok ()⟩

/-- The diagnostics among the notes. -/
def diagnostics (walk : Walk α) : List Diagnostic :=
  walk.notes.filterMap Note.diagnostic?

end Walk

end DocOutline
