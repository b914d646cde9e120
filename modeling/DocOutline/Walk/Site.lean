import DocOutline.Walk.Dispatch

/-!
# The walk over a syntax tree

What happens at a node depends on its children and on the siblings after it. So the sites of a
row of siblings are made from right to left, each from the sites of its children and from the
later ones; this is the only recursion over the tree. The functions at the end start a walk at a
place.
-/

namespace DocOutline.Walker

/-- The site of a node, given the sites of its children and of the siblings after it. -/
def siteOf (w : Walker) (index : Nat) (tree : Tree) (children later : List Site) : Site :=
  let comment := w.commentAt tree later
  let visit := w.visitAt tree children comment
  { index, tree, later, visit, comment
    context := w.contextAt tree children visit comment }

mutual

/-- The sites of a row of siblings that begins with number `index`. -/
def sites (w : Walker) (index : Nat) : List Tree → List Site
  | [] => []
  | tree :: rest =>
    let later := w.sites (index + tree.size) rest
    w.siteOf index tree (w.sitesBelow index tree) later :: later

/-- The sites of the children of a node that has number `index`. -/
def sitesBelow (w : Walker) (index : Nat) : Tree → List Site
  | .node _ children => w.sites (index + 1) children

end

/-- The site of a place. -/
def site (w : Walker) (place : Place) : Site :=
  w.siteOf place.index place.tree (w.sitesBelow place.index place.tree)
    (w.sites (place.index + place.tree.size) place.later)

theorem sitesBelow_eq (w : Walker) (index : Nat) (tree : Tree) :
    w.sitesBelow index tree = w.sites (index + 1) tree.children := by
  cases tree
  simp [sitesBelow, Tree.children]

/-- The sites of a row are the sites of its places. -/
theorem sites_eq_map_row (w : Walker) (index : Nat) (trees : List Tree) :
    w.sites index trees = (Place.row index trees).map w.site := by
  induction trees generalizing index with
  | nil => simp [sites, Place.row]
  | cons tree later ih =>
    simp only [sites, Place.row, List.map_cons, ← ih]
    rfl

/-! ## Walks from a place -/

/-- Ordinary dispatch on a node. -/
def visit (w : Walker) (place : Place) : Walk (Option Entry) :=
  (w.site place).visit

/-- Context dispatch on a node. -/
def visitContext (w : Walker) (place : Place) (inherited : Properties) : Walk (Option Entry) :=
  (w.site place).context inherited

/-- A documentation comment with what it documents. -/
def visitComment (w : Walker) (place : Place) : Walk (Option Entry) :=
  (w.site place).comment

/-- A list of nodes as the children of a container. -/
def visitChildren (w : Walker) (places : List Place) : Walk (List Entry) :=
  w.visitSites none (places.map w.site)

/-- A node as a program. -/
def visitProgram (w : Walker) (place : Place) : Walk (List Entry) :=
  w.program (w.sitesBelow place.index place.tree)

/-- The entries of a whole tree: those of the program, or of the node if it is none. -/
def visitRoot (w : Walker) (place : Place) : Walk (List Entry) :=
  match w.table.bucket? place.tree.kind with
  | some .root => w.visitProgram place
  | _ => return (← w.visit place).toList

end DocOutline.Walker
