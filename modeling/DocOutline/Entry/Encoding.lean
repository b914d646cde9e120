import DocOutline.Entry.Basic
import DocOutline.Json.Printer

/-!
# Entries as JSON

The members come in a fixed order. An entry leaves out what it does not have; a tag and a fence
write `null` instead.
-/

namespace DocOutline

def Point.toJson (p : Point) : Json :=
  .obj [("line", .ofUInt32 p.line), ("col", .ofUInt32 p.col)]

def Span.toJson (s : Span) : Json :=
  .obj [("start", .ofUInt32 s.start), ("end", .ofUInt32 s.stop)]

def ByteRange.toJson (r : ByteRange) : Json :=
  .arr [.ofUInt32 r.start, .ofUInt32 r.stop]

def Location.toJson (l : Location) : Json :=
  .obj [("row", l.row.toJson), ("column", l.column.toJson)]

def Extent.toJson (e : Extent) : Json :=
  .obj [("position", e.position.toJson), ("location", e.location.toJson)]

/-- A member, if there is a value for it. -/
def Json.optionalMember {α : Type} (name : String) (encode : α → Json) :
    Option α → List (String × Json)
  | some a => [(name, encode a)]
  | none => []

def Exports.toJson (e : Exports) : Json :=
  .obj [("export", .bool e.isExported), ("default", .bool e.isDefault)]

def Inheritance.toJson (i : Inheritance) : Json :=
  .obj [("extends", .bool i.extending), ("implements", .bool i.implementing)]

def Properties.toJson (p : Properties) : Json :=
  .obj (Json.optionalMember "exports" Exports.toJson p.exports ++
    Json.optionalMember "inheritance" Inheritance.toJson p.inheritance ++
    Json.optionalMember "namespace" Json.bool p.nameSpace ++
    Json.optionalMember "module" Json.bool p.ambientModule)

def DocTag.toJson (tag : DocTag) : Json :=
  .obj [
    ("name", .str tag.name),
    ("type_expr", .ofText? tag.typeExpr),
    ("ident", .ofText? tag.ident),
    ("optional", .bool tag.optional),
    ("default", .ofText? tag.fallback),
    ("description", .str tag.description),
    ("ranges", tag.extent.toJson)]

def CodeFence.toJson (fence : CodeFence) : Json :=
  .obj [
    ("lang", .ofText? fence.lang),
    ("code", .str fence.code),
    ("ranges", fence.extent.toJson)]

def DocComment.toJson (doc : DocComment) : Json :=
  .obj [
    ("markup", .str doc.style.name),
    ("description", .str doc.description),
    ("tags", .arr (doc.tags.map DocTag.toJson)),
    ("fences", .arr (doc.fences.map CodeFence.toJson))]

namespace Entry

mutual

def toJson : Entry → Json
  | ⟨kind, text, position, location, children, context, properties, comment⟩ =>
    .obj ([("kind", .str kind), ("text", .str text), ("position", position.toJson),
        ("location", location.toJson)] ++
      childrenMember children ++ contextMember context ++
      Json.optionalMember "properties" Properties.toJson properties ++
      Json.optionalMember "comment" DocComment.toJson comment)

/-- No children are left out. -/
def childrenMember : List Entry → List (String × Json)
  | [] => []
  | entry :: rest => [("children", .arr (entry.toJson :: listToJson rest))]

def listToJson : List Entry → List Json
  | [] => []
  | entry :: rest => entry.toJson :: listToJson rest

def contextMember : Option Entry → List (String × Json)
  | none => []
  | some entry => [("context", entry.toJson)]

end

end Entry

end DocOutline
