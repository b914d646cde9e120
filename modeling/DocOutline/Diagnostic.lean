import DocOutline.Entry.Encoding
import DocOutline.Json.Record
import DocOutline.Syntax.Tree

/-!
# Diagnostics

A diagnostic says which node a walk left out, and why. Diagnostics never change what a walk
does.
-/

namespace DocOutline

/-- Why a node is left out. -/
inductive DiagnosticKind where
  /-- No table knows the kind of the node. -/
  | unsupportedNodeKind
  /-- The node is an error or stands for a missing token. -/
  | underlyingParseError
  deriving DecidableEq, Repr

inductive Severity where
  | error
  | warning
  deriving DecidableEq, Repr

def Severity.name : Severity → String
  | .error => "Error"
  | .warning => "Warning"

namespace DiagnosticKind

def name : DiagnosticKind → String
  | .unsupportedNodeKind => "UnsupportedNodeKind"
  | .underlyingParseError => "UnderlyingParseError"

def ofName? (name : String) : Option DiagnosticKind :=
  [.unsupportedNodeKind, .underlyingParseError].find? (·.name == name)

def ofJson? (json : Json) : Option DiagnosticKind :=
  json.caseName?.bind ofName?

def severity : DiagnosticKind → Severity
  | .unsupportedNodeKind => .warning
  | .underlyingParseError => .error

def code : DiagnosticKind → String
  | .unsupportedNodeKind => "W0001"
  | .underlyingParseError => "E0001"

end DiagnosticKind

/-- A report on one node. -/
structure Diagnostic where
  file : FileId
  path : String
  kind : DiagnosticKind
  /-- The kind of the node. -/
  nodeKind : String
  start : Point
  stop : Point
  message : String
  deriving DecidableEq, Repr

namespace Diagnostic

def severity (d : Diagnostic) : Severity :=
  d.kind.severity

def code (d : Diagnostic) : String :=
  d.kind.code

/-- The longest text that a message quotes, in characters. -/
def quoteLimit : Nat := 40

/-- What is wrong with a node. Only a syntax error quotes the text. -/
def messageFor (source : Source) (tree : Tree) : DiagnosticKind → Except Fault String
  | .unsupportedNodeKind => return "unsupported node kind '" ++ tree.kind ++ "'"
  | .underlyingParseError =>
    if tree.missing then return "missing '" ++ tree.kind ++ "'"
    else do
      let text ← tree.text source
      return "syntax error: '" ++ String.ofList (text.toList.take quoteLimit) ++ "'"

/-- The report on a node. -/
def forNode (source : Source) (tree : Tree) (kind : DiagnosticKind) : Except Fault Diagnostic := do
  let message ← messageFor source tree kind
  return {
    file := source.file
    path := source.path
    kind
    nodeKind := tree.kind
    start := tree.info.startPoint
    stop := tree.info.endPoint
    message }

def toJson (d : Diagnostic) : Json :=
  .obj [
    ("file", .ofUInt32 d.file.index),
    ("path", .str d.path),
    ("kind", .str d.kind.name),
    ("node_kind", .str d.nodeKind),
    ("start", d.start.toJson),
    ("end", d.stop.toJson),
    ("severity", .str d.severity.name),
    ("code", .str d.code),
    ("message", .str d.message)]

end Diagnostic

/-! ## Collections -/

/-- Diagnostics in the order in which they were reported. -/
structure Diagnostics where
  items : List Diagnostic
  deriving DecidableEq, Repr

namespace Diagnostics

def empty : Diagnostics :=
  ⟨[]⟩

def report (all : Diagnostics) (d : Diagnostic) : Diagnostics :=
  ⟨all.items ++ [d]⟩

def size (all : Diagnostics) : Nat :=
  all.items.length

def isEmpty (all : Diagnostics) : Bool :=
  all.items.isEmpty

def ofKind (all : Diagnostics) (kind : DiagnosticKind) : List Diagnostic :=
  all.items.filter (·.kind == kind)

def forFile (all : Diagnostics) (file : FileId) : List Diagnostic :=
  all.items.filter (·.file == file)

def errorCount (all : Diagnostics) : Nat :=
  all.items.countP (·.severity == .error)

def warningCount (all : Diagnostics) : Nat :=
  all.items.countP (·.severity == .warning)

def hasErrors (all : Diagnostics) : Bool :=
  all.items.any (·.severity == .error)

end Diagnostics

end DocOutline
