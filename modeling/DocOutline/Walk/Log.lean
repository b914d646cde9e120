import DocOutline.Walk.Basic

/-!
# Logs

The notes of a walk as events: a level, a message and named fields. A log of a level has the
events of that level and of all more severe ones.
-/

namespace DocOutline

/-- How much an event matters, the most severe first. -/
inductive Level where
  | warn
  | debug
  | trace
  deriving DecidableEq, Repr

namespace Level

def name : Level → String
  | .warn => "WARN"
  | .debug => "DEBUG"
  | .trace => "TRACE"

def verbosity : Level → Nat
  | .warn => 0
  | .debug => 1
  | .trace => 2

end Level

/-- One line of a log. -/
structure Event where
  level : Level
  message : String
  fields : List (String × Json)

namespace Event

def toJson (event : Event) : Json :=
  .obj [
    ("level", .str event.level.name),
    ("message", .str event.message),
    ("fields", .obj event.fields)]

end Event

/-- The bucket of a kind, or the word for none. -/
def bucketText : Option Bucket → String
  | some bucket => "Some(" ++ bucket.name ++ ")"
  | none => "None"

/-- The event that reports a diagnostic. Its line and column count from one. -/
def Diagnostic.event (d : Diagnostic) : Event where
  level := .warn
  message := d.message
  fields := [
    ("path", .str d.path),
    ("code", .str d.code),
    ("kind", .str d.kind.name),
    ("node_kind", .str d.nodeKind),
    ("line", .nat (d.start.line.toNat + 1)),
    ("column", .nat (d.start.col.toNat + 1))]

/-- The event of a note. -/
def Note.event : Note → Event
  | .reported diagnostic => diagnostic.event
  | .dispatched kind bucket =>
    ⟨.trace, "dispatch", [("kind", .str kind), ("bucket", .str (bucketText bucket))]⟩
  | .contextDispatched kind role =>
    ⟨.trace, "context dispatch", [("kind", .str kind), ("role", .str role.name)]⟩
  | .headerStripped index => ⟨.trace, "stripped legal header", [("index", .nat index)]⟩
  | .duplicateFound key kind =>
    ⟨.trace, "duplicate declaration", [("key", .str key.key), ("kind", .str kind)]⟩
  | .matchFound position kind =>
    ⟨.trace, "matched declaration", [("position", .nat position), ("kind", .str kind)]⟩
  | .programVisited path language pairs declarations duplicates matched output =>
    ⟨.debug, "visited program", [
      ("path", .str path),
      ("language", .str language),
      ("pairs", .nat pairs),
      ("declarations", .nat declarations),
      ("duplicates", .nat duplicates),
      ("matched", .nat matched),
      ("output", .nat output)]⟩

/-- The log of a level. -/
def logOf (level : Level) (notes : List Note) : List Event :=
  (notes.map Note.event).filter fun event => event.level.verbosity ≤ level.verbosity

/-- The log of a level without the diagnostics. -/
def logOfSteps (level : Level) (notes : List Note) : List Event :=
  logOf level (notes.filter (·.diagnostic?.isNone))

end DocOutline
