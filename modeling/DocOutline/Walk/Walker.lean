import DocOutline.Entry.Renderer
import DocOutline.Syntax.CommentNode
import DocOutline.Walk.Basic

/-!
# Walkers and sites

A walker holds what a walk works with. A site is a node with everything the walk can do at it;
this module looks around at sites and takes the steps that need no knowledge of how sites are
made.

A documentation comment documents the first sibling after it that is no plain comment. If that
is a documentation comment again, the two form a chain, and what the chain documents in the end
is the first sibling that is no comment.
-/

namespace DocOutline

/-- What a walk works with. -/
structure Walker where
  renderer : Renderer
  table : Table
  /-- A legal comment at the head of a program is dropped. -/
  stripHeader : Bool := true

/-- A node and what happens when the walk comes to it. -/
structure Site where
  /-- The number of the node in preorder. -/
  index : Nat
  tree : Tree
  /-- The siblings after the node. -/
  later : List Site
  /-- Ordinary dispatch. -/
  visit : Walk (Option Entry)
  /-- Context dispatch, with the properties that statements around the node have given it. -/
  context : Properties → Walk (Option Entry)
  /-- The node as a documentation comment with what it documents. -/
  comment : Walk (Option Entry)

def Site.kind (site : Site) : String :=
  site.tree.kind

namespace Walker

def source (w : Walker) : Source :=
  w.renderer.source

/-! ## What a comment documents -/

/-- The first of the sites that is no plain comment. -/
def documented? (w : Walker) : List Site → Except Fault (Option Site)
  | [] => return none
  | site :: later => do
    if site.tree.isComment then
      if ← site.tree.isDocumentation w.source then return some site else w.documented? later
    else return some site

/-- The first of the sites that is no comment. The text of every comment on the way is read. -/
def declared? (w : Walker) : List Site → Except Fault (Option Site)
  | [] => return none
  | site :: later => do
    if site.tree.isComment then
      let _ ← site.tree.isDocumentation w.source
      w.declared? later
    else return some site

/-! ## Steps -/

/-- Leaves a node out. -/
def report (w : Walker) (tree : Tree) (kind : DiagnosticKind) : Walk Unit := do
  let diagnostic ← Diagnostic.forNode w.source tree kind
  Walk.leave [.reported diagnostic]

/-- Makes the entry of a node. -/
def make (w : Walker) (tree : Tree) (payload : Payload) : Walk (Option Entry) := do
  let entry ← w.renderer.render tree payload
  return some entry

/-- Visits the children of a container in order. Noise is passed over, and so is a node that a
comment before it has taken as its context: `paired` is the number of that node. -/
def visitSites (w : Walker) (paired : Option Nat) : List Site → Walk (List Entry)
  | [] => return []
  | site :: rest => do
    if !site.tree.missing && isNoise site.kind then w.visitSites paired rest
    else if paired = some site.index then w.visitSites paired rest
    else
      let paired ←
        if ← site.tree.isDocumentation w.source then
          pure ((← w.declared? site.later).map (·.index))
        else pure paired
      let entry ← site.visit
      let entries ← w.visitSites paired rest
      return entry.toList ++ entries

end Walker

end DocOutline
