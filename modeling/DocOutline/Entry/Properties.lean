/-!
# Properties of declarations

What is known of a declaration beyond its text: how it is exported, what it inherits from, and
whether it is a namespace or a module. Properties are found piece by piece and merged; merging
never clears a flag.
-/

namespace DocOutline

/-- How a declaration is exported. -/
structure Exports where
  isExported : Bool
  isDefault : Bool
  deriving DecidableEq, Repr

/-- How a declaration inherits. -/
structure Inheritance where
  extending : Bool
  implementing : Bool
  deriving DecidableEq, Repr

structure Properties where
  exports : Option Exports := none
  inheritance : Option Inheritance := none
  nameSpace : Option Bool := none
  ambientModule : Option Bool := none
  deriving DecidableEq, Repr

namespace Properties

/-- Nothing is known. -/
def empty : Properties :=
  {}

def isEmpty (p : Properties) : Bool :=
  p == empty

/-- The properties, unless they are empty. -/
def nonEmpty? (p : Properties) : Option Properties :=
  if p.isEmpty then none else some p

/-- What an `export` statement says, with or without `default`. -/
def exported (isDefault : Bool) : Properties :=
  { exports := some ⟨true, isDefault⟩ }

/-- Both values where both are known, else the one that is. -/
def mergeWith {α : Type} (f : α → α → α) : Option α → Option α → Option α
  | some a, some b => some (f a b)
  | some a, none => some a
  | none, b => b

/-- The flags of both. -/
def merge (p q : Properties) : Properties where
  exports := mergeWith
    (fun a b => ⟨a.isExported || b.isExported, a.isDefault || b.isDefault⟩) p.exports q.exports
  inheritance := mergeWith
    (fun a b => ⟨a.extending || b.extending, a.implementing || b.implementing⟩)
    p.inheritance q.inheritance
  nameSpace := mergeWith (· || ·) p.nameSpace q.nameSpace
  ambientModule := mergeWith (· || ·) p.ambientModule q.ambientModule

end Properties

end DocOutline
