import DocOutline.Walk.Program

/-!
# Dispatch

Every node can be reached in two ways. Ordinary dispatch looks at the bucket of its kind: a
container becomes an entry with the entries of its children, a token becomes a leaf, an error or
an unknown kind is reported and left out. Context dispatch is for nodes that a comment documents
or a statement exports: it looks at the rule of the kind, passes through exporting and wrapping
statements, and builds declarations with their properties.

What happens at a node depends on the sites of its children and of the siblings after it, which
are given here.
-/

namespace DocOutline

/-! ## Inheritance -/

mutual

/-- The first keyword of inheritance in a node, looking into heritage clauses only. -/
def Table.inheritance? (table : Table) : Tree → Option Inheritance
  | .node info children =>
    if info.kind = extendsKind then some ⟨true, false⟩
    else if info.kind = implementsKind then some ⟨false, true⟩
    else if table.isHeritage info.kind then table.inheritanceIn? children
    else none

def Table.inheritanceIn? (table : Table) : List Tree → Option Inheritance
  | [] => none
  | tree :: rest =>
    match table.inheritance? tree with
    | some inheritance => some inheritance
    | none => table.inheritanceIn? rest

end

namespace Walker

/-! ## Ordinary dispatch -/

/-- A documentation comment with what it documents; nothing for any other node. -/
def commentAt (w : Walker) (tree : Tree) (later : List Site) : Walk (Option Entry) := do
  if ← tree.isDocumentation w.source then
    let context ←
      match ← w.documented? later with
      | some next => next.context .empty
      | none => pure none
    w.make tree (.documented context)
  else return none

/-- Ordinary dispatch; `comment` is the node as a documentation comment. -/
def visitAt (w : Walker) (tree : Tree) (children : List Site) (comment : Walk (Option Entry)) :
    Walk (Option Entry) := do
  if tree.missing then
    w.report tree .underlyingParseError
    return none
  else
    let bucket := w.table.bucket? tree.kind
    Walk.leave [.dispatched tree.kind bucket]
    match bucket with
    | some .root => w.make tree (.children (← w.program children))
    | some .comment => comment
    | some .error =>
      w.report tree .underlyingParseError
      return none
    | some .nonTerminal => w.make tree (.children (← w.visitSites none children))
    | some .terminal => w.make tree .leaf
    | none =>
      w.report tree .unsupportedNodeKind
      return none

/-! ## Exporting and wrapping statements -/

/-- The tokens of an exporting statement that are no part of what it exports. -/
def isExportToken (site : Site) : Bool :=
  site.kind == exportKind || site.kind == defaultKind

/-- The declaration inside an exporting statement. Decorators may stand before it. -/
def isExported (w : Walker) (site : Site) : Bool :=
  !isExportToken site && site.kind != decoratorKind && w.table.isDeclaration site.kind

/-- What the tokens before the declaration say about its export. -/
def exportsOf (before : List Site) : Exports :=
  ⟨before.any (·.kind == exportKind), before.any (·.kind == defaultKind)⟩

/-- An exporting statement: its declaration, which is exported, or without one the statement
itself. -/
def exporterAt (w : Walker) (tree : Tree) (children : List Site) (inherited : Properties) :
    Walk (Option Entry) := do
  let before := children.takeWhile fun site => !w.isExported site
  let properties := inherited.merge { exports := some (exportsOf before) }
  match children.find? w.isExported with
  | some inner => inner.context properties
  | none =>
    let entries ← w.visitSites none (children.filter fun site => !isExportToken site)
    w.make tree (.declaration entries properties)

/-- A statement around a declaration: the declaration, or without one the statement itself. -/
def wrapperAt (w : Walker) (rule : Rule) (children : List Site) (inherited : Properties)
    (visit : Walk (Option Entry)) : Walk (Option Entry) :=
  let inner? := children.find? fun site =>
    !rule.isKeyword site.kind && w.table.isDeclaration site.kind
  match inner? with
  | some inner => inner.context inherited
  | none => visit

/-! ## Declarations -/

/-- The properties that a declaration has by itself. -/
def ownProperties (table : Table) (rule : Rule) (children : List Tree) : Properties where
  inheritance := table.inheritanceIn? children
  nameSpace := if rule.role = .nameSpace then some true else none
  ambientModule := if rule.role = .ambientModule then some true else none

/-- A declaration without the first of its keywords. -/
def declarationAt (w : Walker) (tree : Tree) (rule : Rule) (children : List Site)
    (inherited : Properties) : Walk (Option Entry) := do
  let children := children.eraseP fun site => rule.isKeyword site.kind
  let properties := inherited.merge (ownProperties w.table rule (children.map (·.tree)))
  let entries ← w.visitSites none children
  let entry ← w.renderer.renderAs tree rule.entryKind (.declaration entries properties)
  return some entry

/-! ## Context dispatch -/

/-- Context dispatch; `visit` and `comment` are ordinary dispatch and the node as a
documentation comment. -/
def contextAt (w : Walker) (tree : Tree) (children : List Site)
    (visit comment : Walk (Option Entry)) (inherited : Properties) : Walk (Option Entry) := do
  if !tree.missing && isNoise tree.kind then return none
  else
    match w.table.rule? tree.kind with
    | none => visit
    | some rule =>
      Walk.leave [.contextDispatched rule.kind rule.role]
      match rule.role with
      | .comment => comment
      | .exporter => w.exporterAt tree children inherited
      | .wrapper => w.wrapperAt rule children inherited visit
      | .declaration | .nameSpace | .ambientModule =>
        w.declarationAt tree rule children inherited

end Walker

end DocOutline
