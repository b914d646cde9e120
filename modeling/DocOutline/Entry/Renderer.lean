import DocOutline.Entry.Basic
import DocOutline.Syntax.Tree

/-!
# Rendering a syntax node

A renderer makes entries out of the syntax nodes of one source: it copies text and place, moves
the place by an offset if it has one, and adds what the walk has found, the payload.
-/

namespace DocOutline

/-- What an entry gets besides its node. -/
inductive Payload where
  | leaf
  | properties (properties : Properties)
  | children (children : List Entry)
  | declaration (children : List Entry) (properties : Properties)
  /-- A documentation comment with what it documents. Its text is read as markup. -/
  | documented (context : Option Entry)

/-- Makes entries out of the nodes of one source. -/
structure Renderer where
  source : Source
  /-- Where the source begins in a larger document. -/
  offset : Option Extent := none
  /-- How comments are read; without it they have no content. -/
  markup : Option MarkupReader := none

namespace Renderer

/-- The place of a node, moved by the offset. -/
def extent (offset : Option Extent) (tree : Tree) : Except Fault Extent := do
  let own ← tree.extent
  match offset with
  | some origin => own.shifted origin
  | none => return own

/-- The content of a comment that stands at `origin`. -/
def content (renderer : Renderer) (text : String) (origin : Extent) :
    Except Fault (Option DocComment) :=
  match renderer.markup with
  | none => return none
  | some read => do
    let doc ← read text
    return some (← doc.placedIn origin)

/-- The entry of a node, under a kind of choice. -/
def renderAs (renderer : Renderer) (tree : Tree) (kind : String) (payload : Payload) :
    Except Fault Entry := do
  let extent ← extent renderer.offset tree
  let text ← tree.text renderer.source
  let entry : Entry := { kind, text, position := extent.position, location := extent.location }
  match payload with
  | .leaf => return entry
  | .properties properties => return { entry with properties := properties.nonEmpty? }
  | .children children => return { entry with children }
  | .declaration children properties =>
    return { entry with children, properties := properties.nonEmpty? }
  | .documented context =>
    let comment ← renderer.content text extent
    return { entry with context, comment }

/-- The entry of a node, under its own kind. -/
def render (renderer : Renderer) (tree : Tree) (payload : Payload) : Except Fault Entry :=
  renderer.renderAs tree tree.kind payload

end Renderer

end DocOutline
