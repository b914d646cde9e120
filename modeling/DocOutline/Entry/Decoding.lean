import DocOutline.Entry.Basic
import DocOutline.Json.Record

/-!
# Entries from JSON

Reads what `Entry.toJson` writes, and a little more: every record is read in both its forms, as an
object and as a list of its fields, and what may be left out may also be `null`. Children may be
left out, but not be `null`.

In a list only fields at the end can be left out. Of an entry these are the children and what
follows them, of properties all fields; the other records have no such fields. In an object the
parts of a tag that may be `null` may be left out as well.
-/

namespace DocOutline

open Json (need? want? list? record?)

def Span.ofJson? (json : Json) : Option Span := do
  let members ← record? ["start", "end"] [] json
  return ⟨← need? members "start" Json.toUInt32?, ← need? members "end" Json.toUInt32?⟩

def ByteRange.ofJson? : Json → Option ByteRange
  | .arr [start, stop] => do
    match ByteRange.between (← start.toUInt32?) (← stop.toUInt32?) with
    | .ok range => some range
    | .error _ => none
  | _ => none

def Location.ofJson? (json : Json) : Option Location := do
  let members ← record? ["row", "column"] [] json
  return ⟨← need? members "row" Span.ofJson?, ← need? members "column" Span.ofJson?⟩

def Extent.ofJson? (json : Json) : Option Extent := do
  let members ← record? ["position", "location"] [] json
  return ⟨← need? members "position" ByteRange.ofJson?,
    ← need? members "location" Location.ofJson?⟩

def Exports.ofJson? (json : Json) : Option Exports := do
  let members ← record? ["export", "default"] [] json
  return ⟨← need? members "export" Json.toBool?, ← need? members "default" Json.toBool?⟩

def Inheritance.ofJson? (json : Json) : Option Inheritance := do
  let members ← record? ["extends", "implements"] [] json
  return ⟨← need? members "extends" Json.toBool?, ← need? members "implements" Json.toBool?⟩

def Properties.ofJson? (json : Json) : Option Properties := do
  let members ← record? [] ["exports", "inheritance", "namespace", "module"] json
  return {
    exports := ← want? members "exports" Exports.ofJson?
    inheritance := ← want? members "inheritance" Inheritance.ofJson?
    nameSpace := ← want? members "namespace" Json.toBool?
    ambientModule := ← want? members "module" Json.toBool? }

def Comment.MarkupStyle.ofJson? (json : Json) : Option Comment.MarkupStyle := do
  let name ← json.caseName?
  [.plain, .fragment, .block].find? (·.name == name)

def DocTag.ofJson? (json : Json) : Option DocTag := do
  let members ← record?
    ["name", "type_expr", "ident", "optional", "default", "description", "ranges"] [] json
  return {
    name := ← need? members "name" Json.toText?
    typeExpr := ← want? members "type_expr" Json.toText?
    ident := ← want? members "ident" Json.toText?
    optional := ← need? members "optional" Json.toBool?
    fallback := ← want? members "default" Json.toText?
    description := ← need? members "description" Json.toText?
    extent := ← need? members "ranges" Extent.ofJson? }

def CodeFence.ofJson? (json : Json) : Option CodeFence := do
  let members ← record? ["lang", "code", "ranges"] [] json
  return {
    lang := ← want? members "lang" Json.toText?
    code := ← need? members "code" Json.toText?
    extent := ← need? members "ranges" Extent.ofJson? }

def DocComment.ofJson? (json : Json) : Option DocComment := do
  let members ← record? ["markup", "description", "tags", "fences"] [] json
  return {
    style := ← need? members "markup" Comment.MarkupStyle.ofJson?
    description := ← need? members "description" Json.toText?
    tags := ← need? members "tags" (list? DocTag.ofJson?)
    fences := ← need? members "fences" (list? CodeFence.ofJson?) }

namespace Entry

/-- The fields that every entry has. -/
def firmFields : List String :=
  ["kind", "text", "position", "location"]

/-- The fields that an entry may leave out. -/
def looseFields : List String :=
  ["children", "context", "properties", "comment"]

/-- An entry of decoded children and context. -/
def ofMembers? (members : List (String × Json)) (children : List Entry) (context : Option Entry) :
    Option Entry := do
  return {
    kind := ← need? members "kind" Json.toText?
    text := ← need? members "text" Json.toText?
    position := ← need? members "position" ByteRange.ofJson?
    location := ← need? members "location" Location.ofJson?
    children, context
    properties := ← want? members "properties" Properties.ofJson?
    comment := ← want? members "comment" DocComment.ofJson? }

mutual

def ofJson? : Json → Option Entry
  | .obj members => do
    let fields ← record? firmFields looseFields (.obj members)
    ofMembers? fields (← childrenOf? members) (← contextOf? members)
  | .arr items => do
    let fields ← record? firmFields looseFields (.arr items)
    let names := firmFields ++ looseFields
    ofMembers? fields (← childrenIn? names items) (← contextIn? names items)
  | _ => none

/-- The children among the members of an object. -/
def childrenOf? : List (String × Json) → Option (List Entry)
  | [] => some []
  | (name, value) :: rest => if name = "children" then itemsOf? value else childrenOf? rest

/-- The children among the items of a list, which are the fields of the given names. -/
def childrenIn? : List String → List Json → Option (List Entry)
  | name :: names, value :: rest =>
    if name = "children" then itemsOf? value else childrenIn? names rest
  | _, _ => some []

/-- The context among the members of an object. -/
def contextOf? : List (String × Json) → Option (Option Entry)
  | [] => some none
  | (name, value) :: rest =>
    if name = "context" then
      if value.isNull then some none else (ofJson? value).map some
    else contextOf? rest

/-- The context among the items of a list, which are the fields of the given names. -/
def contextIn? : List String → List Json → Option (Option Entry)
  | name :: names, value :: rest =>
    if name = "context" then
      if value.isNull then some none else (ofJson? value).map some
    else contextIn? names rest
  | _, _ => some none

/-- The entries of a list. -/
def itemsOf? : Json → Option (List Entry)
  | .arr items => listOf? items
  | _ => none

def listOf? : List Json → Option (List Entry)
  | [] => some []
  | item :: rest => do return (← ofJson? item) :: (← listOf? rest)

end

end Entry

end DocOutline
