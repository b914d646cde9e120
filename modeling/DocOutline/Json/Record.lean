import DocOutline.Json.Basic

/-!
# Records in JSON

A record is written as an object, with its fields by name in any order, or as a list of its
fields in their own order. Members of other names are passed over; a list has no room for more
than the fields. A case without content is written as its name, or as an object whose one member
has that name and is `null`.

`record?` brings both forms of a record to members, and `need?` and `want?` read fields from them.
-/

namespace DocOutline.Json

/-- The members of a record. An object must not have a field twice. A list has all the fields of
`firm`, and may stop anywhere in those of `loose`, which follow. -/
def record? (firm loose : List String) : Json → Option (List (String × Json))
  | .obj members =>
    if (firm ++ loose).all fun name => (members.filter (·.1 == name)).length ≤ 1 then some members
    else none
  | .arr items =>
    if firm.length ≤ items.length ∧ items.length ≤ firm.length + loose.length then
      some ((firm ++ loose).zip items)
    else none
  | _ => none

/-- A field that must be there. -/
def need? {α : Type} (members : List (String × Json)) (name : String) (decode : Json → Option α) :
    Option α :=
  (members.lookup name).bind decode

/-- A field that may be left out or be `null`. -/
def want? {α : Type} (members : List (String × Json)) (name : String) (decode : Json → Option α) :
    Option (Option α) :=
  match members.lookup name with
  | none => some none
  | some .null => some none
  | some value => (decode value).map some

/-- A list of values that all decode. -/
def list? {α : Type} (decode : Json → Option α) : Json → Option (List α)
  | .arr items => items.mapM decode
  | _ => none

/-- The name of a case without content. -/
def caseName? : Json → Option String
  | .str name => some name
  | .obj [(name, .null)] => some name
  | _ => none

end DocOutline.Json
