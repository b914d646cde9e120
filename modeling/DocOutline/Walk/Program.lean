import DocOutline.Walk.Reconcile
import DocOutline.Walk.Walker

/-!
# Programs

The children of a program give two lists, pairs and declarations, which are then reconciled. A
pair is a documentation comment that documents something. A declaration stands at the top level
by itself: an exporting statement, or a namespace, bare or inside a statement around it.

Errors among the children are reported; all other children leave no trace.
-/

namespace DocOutline

/-- The node stands at the top level by itself. A statement around a namespace counts if the
namespace is its first node apart from noise and keywords. -/
def Table.isTopLevel (table : Table) (tree : Tree) : Bool :=
  table.isExporter tree.kind || table.isNameSpace tree.kind ||
    match table.rule? tree.kind with
    | some rule =>
      rule.role == .wrapper &&
        (tree.children.find? fun child => !isNoise child.kind && !rule.isKeyword child.kind).any
          (table.isNameSpace ·.kind)
    | none => false

namespace Walker

/-- The pairs and the declarations of a program. The node and the context of the latest pair are
kept in `latest`: a declaration that was built as that context is not built again. -/
def collect (w : Walker) (latest : Option (Nat × Entry)) :
    List Site → Walk (List Entry × List Entry)
  | [] => return ([], [])
  | site :: rest => do
    if site.tree.missing || w.table.bucket? site.kind == some .error then
      w.report site.tree .underlyingParseError
      w.collect latest rest
    else if site.tree.isComment then
      let pair ← site.comment
      match pair, pair.bind (·.context) with
      | some pair, some context =>
        let next ← w.documented? site.later
        let (pairs, decls) ← w.collect (next.map fun next => (next.index, context)) rest
        return (pair :: pairs, decls)
      | _, _ => w.collect latest rest
    else if w.table.isTopLevel site.tree then
      let decl ←
        match latest.filter (·.1 == site.index) with
        | some (_, context) => pure (some context)
        | none => site.context .empty
      let (pairs, decls) ← w.collect latest rest
      return (pairs, decl.toList ++ decls)
    else w.collect latest rest

/-- The children of a program without a legal comment at its head. A line that names the
interpreter may stand before it. -/
def withoutHeader (w : Walker) (sites : List Site) : Walk (List Site) := do
  let index := sites.findIdx (·.kind != hashBangKind)
  match sites[index]? with
  | none => return sites
  | some site =>
    if ← site.tree.isLegal w.source then
      Walk.leave [.headerStripped index]
      return sites.eraseIdx index
    else return sites

/-- The entries of a program: its pairs, and the declarations that no pair takes in. -/
def program (w : Walker) (children : List Site) : Walk (List Entry) := do
  let sites ← if w.stripHeader then w.withoutHeader children else pure children
  let (pairs, decls) ← w.collect none sites
  let plan := Plan.make pairs decls
  let output := plan.apply pairs decls
  Walk.leave (Plan.makeNotes pairs decls)
  Walk.leave [.programVisited w.source.path w.table.name pairs.length decls.length
    plan.duplicates plan.matched output.length]
  return output

end Walker

end DocOutline
