/-!
# JSON values

Members of an object keep their order. Numbers that are natural numbers written plainly are
told apart from all others, which are kept as they are written: coordinates are natural numbers,
and `1.0` is none.

Lists and objects are containers. The nesting of a value is the greatest number of containers
around one another, the value itself included.
-/

namespace DocOutline

inductive Json where
  | null
  | bool (value : Bool)
  | nat (value : Nat)
  /-- A number with a sign, a fraction or an exponent, as it is written. -/
  | real (written : String)
  | str (value : String)
  | arr (items : List Json)
  | obj (members : List (String × Json))
  deriving Repr

namespace Json

/-- A number of 32 bits. -/
def ofUInt32 (n : UInt32) : Json :=
  .nat n.toNat

/-- A string, or `null` for none. -/
def ofText? : Option String → Json
  | some s => .str s
  | none => .null

/-- The value of the first member of a name. -/
def member? (json : Json) (name : String) : Option Json :=
  match json with
  | .obj members => members.lookup name
  | _ => none

def isNull : Json → Bool
  | .null => true
  | _ => false

def toUInt32? : Json → Option UInt32
  | .nat n => if n < UInt32.size then some n.toUInt32 else none
  | _ => none

def toText? : Json → Option String
  | .str s => some s
  | _ => none

def toBool? : Json → Option Bool
  | .bool b => some b
  | _ => none

/-! ## Nesting -/

mutual

/-- How deep lists and objects are nested. -/
def nesting : Json → Nat
  | .arr items => itemsNesting items + 1
  | .obj members => membersNesting members + 1
  | _ => 0

def itemsNesting : List Json → Nat
  | [] => 0
  | item :: items => max item.nesting (itemsNesting items)

def membersNesting : List (String × Json) → Nat
  | [] => 0
  | (_, value) :: members => max value.nesting (membersNesting members)

end

end Json

end DocOutline
