import DocOutline.Span
import DocOutline.Text.Bytes
import DocOutline.Text.Trim

/-!
# Sources

A source is one document: its name, its path and its text. A source set numbers the sources
that are outlined together in the order in which they come.
-/

namespace DocOutline

/-- The number of a source in its set. -/
structure FileId where
  index : UInt32
  deriving DecidableEq, Repr

namespace FileId

def display (file : FileId) : String :=
  "file#" ++ Nat.repr file.index.toNat

/-- The number with the name of its type. -/
def inWords (file : FileId) : String :=
  "FileId(" ++ Nat.repr file.index.toNat ++ ")"

end FileId

/-- One document. -/
structure Source where
  /-- Zero until a set numbers the source. -/
  file : FileId := ⟨0⟩
  name : String
  path : String
  text : String
  deriving DecidableEq, Repr

namespace Source

/-- The characters that separate the components of a path. -/
def isSeparator (c : Char) : Bool :=
  c == '/' || c == '\\'

/-- The last component of a path. -/
def lastComponent (path : String) : List Char :=
  Text.afterLast isSeparator path.toList

/-- A source that is named for the last component of its path. -/
def ofPath (path text : String) : Source :=
  { name := String.ofList (lastComponent path), path, text }

/-- The text between two byte offsets, and nothing where they are no boundaries in order. -/
def slice (source : Source) (start stop : Nat) : String :=
  String.ofList ((Text.slice? source.text.toList start stop).getD [])

end Source

/-! ## Source sets -/

/-- Sources under their numbers, in the order in which the numbers came. -/
structure SourceSet where
  files : List (FileId × Source)
  deriving DecidableEq, Repr

namespace SourceSet

def empty : SourceSet :=
  ⟨[]⟩

def size (set : SourceSet) : Nat :=
  set.files.length

def isEmpty (set : SourceSet) : Bool :=
  set.files.isEmpty

/-- The sources in the order of the set. -/
def sources (set : SourceSet) : List Source :=
  set.files.map (·.2)

/-- Keeps a source under a number: in the place of the source that had the number, or else after
all others. -/
def put (file : FileId) (source : Source) : List (FileId × Source) → List (FileId × Source)
  | [] => [(file, source)]
  | entry :: rest =>
    if entry.1 = file then (file, source) :: rest else entry :: put file source rest

/-- The number that the next source gets. -/
def nextId (set : SourceSet) : FileId :=
  ⟨set.size.toUInt32⟩

/-- One source more, and the number it gets. Whatever number it had before is lost. -/
def insert (set : SourceSet) (source : Source) : FileId × SourceSet :=
  (set.nextId, ⟨put set.nextId { source with file := set.nextId } set.files⟩)

/-- The source that is kept under a number. -/
def get? (set : SourceSet) (file : FileId) : Option Source :=
  (set.files.find? (·.1 == file)).map (·.2)

def path? (set : SourceSet) (file : FileId) : Option String :=
  (set.get? file).map (·.path)

end SourceSet

end DocOutline
