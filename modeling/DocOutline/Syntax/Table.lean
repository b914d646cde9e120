import DocOutline.Text.Word

/-!
# Kinds and tables

The nodes of a syntax tree are told apart by their kind, a word of the grammar. A table says
what a walk does with each kind: `Table.bucket?` for ordinary nodes, and `Table.rule?` for the
nodes that a comment documents or a statement exports.
-/

namespace DocOutline

/-! ## Kinds with a meaning of their own -/

def rootKind : String := "program"
def commentKind : String := "comment"
def errorKind : String := "ERROR"
def exportKind : String := "export"
def defaultKind : String := "default"
def decoratorKind : String := "decorator"
def extendsKind : String := "extends"
def implementsKind : String := "implements"
def hashBangKind : String := "hash_bang_line"

/-- Tokens without content: the ellipsis, and any single character that is neither a letter nor
a number nor an underscore. -/
def isNoise (kind : String) : Bool :=
  kind == "..." || match kind.toList with
    | [c] => !(Text.isAlphanumeric c || c == '_')
    | _ => false

/-! ## Tables -/

/-- What ordinary dispatch does with a kind. -/
inductive Bucket where
  | root
  | comment
  | error
  | nonTerminal
  | terminal
  deriving DecidableEq, Repr

def Bucket.name : Bucket → String
  | .root => "Root"
  | .comment => "Comment"
  | .error => "Error"
  | .nonTerminal => "NonTerminal"
  | .terminal => "Terminal"

/-- What context dispatch does with a kind. -/
inductive Role where
  | declaration
  /-- A declaration that is marked as a namespace. -/
  | nameSpace
  /-- A declaration that is marked as a module. -/
  | ambientModule
  /-- A statement that exports a declaration. -/
  | exporter
  /-- A statement around a declaration. -/
  | wrapper
  | comment
  deriving DecidableEq, Repr

def Role.name : Role → String
  | .declaration => "Declaration"
  | .nameSpace => "Namespace"
  | .ambientModule => "Module"
  | .exporter => "Export"
  | .wrapper => "Wrapper"
  | .comment => "Comment"

/-- How a documented or exported node of a kind is built. -/
structure Rule where
  kind : String
  role : Role
  /-- The kind of the built entry, where it is another one. -/
  rename : Option String := none
  /-- Tokens that only introduce the node. -/
  keywords : List String := []
  deriving DecidableEq, Repr

def Rule.isKeyword (rule : Rule) (kind : String) : Bool :=
  rule.keywords.contains kind

/-- The kind of the entry that a rule builds. -/
def Rule.entryKind (rule : Rule) : String :=
  rule.rename.getD rule.kind

/-- What a walk does with each kind. -/
structure Table where
  name : String
  nonTerminals : List String
  terminals : List String
  rules : List Rule
  /-- Kinds that hold the keywords of inheritance. -/
  heritage : List String
  exporters : List String
  nameSpaces : List String
  deriving DecidableEq, Repr

namespace Table

/-- The bucket of a kind. The root, comments and errors come before all lists, and a kind that
is both a node and a token counts as a node. -/
def bucket? (table : Table) (kind : String) : Option Bucket :=
  if kind = errorKind then some .error
  else if kind = commentKind then some .comment
  else if kind = rootKind then some .root
  else if table.nonTerminals.contains kind then some .nonTerminal
  else if table.terminals.contains kind then some .terminal
  else none

def rule? (table : Table) (kind : String) : Option Rule :=
  table.rules.find? (·.kind == kind)

def isHeritage (table : Table) (kind : String) : Bool :=
  table.heritage.contains kind

def isExporter (table : Table) (kind : String) : Bool :=
  table.exporters.contains kind

def isNameSpace (table : Table) (kind : String) : Bool :=
  table.nameSpaces.contains kind

/-- The kind has a rule, and is no comment. -/
def isDeclaration (table : Table) (kind : String) : Bool :=
  (table.rule? kind).any (·.role != .comment)

end Table

end DocOutline
