import DocOutline.Comment.Reader
import DocOutline.Outline.Options
import DocOutline.Syntax.Language
import DocOutline.Walk.Site

/-!
# Outlines

An outliner makes the outline of a source out of its syntax tree: the entries of the tree and
the diagnostics of the walk. A whole set of sources is outlined file by file; there the path of
a file tells its language.
-/

namespace DocOutline

/-! ## Outlines of one file -/

/-- The outline of one file. -/
structure FileOutline where
  file : FileId
  path : String
  entries : List Entry
  diagnostics : List Diagnostic

namespace FileOutline

def hasErrors (outline : FileOutline) : Bool :=
  outline.diagnostics.any (·.severity == .error)

/-- The members of the outline as JSON. -/
def members (outline : FileOutline) : List (String × Json) :=
  [("file", .ofUInt32 outline.file.index),
    ("path", .str outline.path),
    ("nodes", .arr (outline.entries.map Entry.toJson)),
    ("diagnostics", .arr (outline.diagnostics.map Diagnostic.toJson))]

/-- The outline as indented text. -/
def pretty (outline : FileOutline) : String :=
  (Json.obj outline.members).pretty

end FileOutline

/-- Outlines sources of one language. -/
structure Outliner where
  language : Language
  options : Options := {}
  markup : MarkupReader := Comment.read

namespace Outliner

/-- The walker for one source. -/
def walker (outliner : Outliner) (source : Source) : Walker where
  renderer := {
    source
    offset := outliner.options.offset
    markup := if outliner.options.parseMarkup then some outliner.markup else none }
  table := outliner.language.table
  stripHeader := outliner.options.stripLegalHeader

/-- The walk over the tree of a source. -/
def walk (outliner : Outliner) (source : Source) (tree : Tree) : Walk (List Entry) :=
  (outliner.walker source).visitRoot (.ofRoot tree)

/-- The outline of a source. -/
def outline (outliner : Outliner) (source : Source) (tree : Tree) : Except Fault FileOutline := do
  let walk := outliner.walk source tree
  let entries ← walk.outcome
  return { file := source.file, path := source.path, entries, diagnostics := walk.diagnostics }

/-- The settings in words; how markup is read is not told. -/
def inWords (outliner : Outliner) : String :=
  openRecordText "Parser" [
    ("language", outliner.language.inWords),
    ("options", outliner.options.inWords)]

end Outliner

/-! ## Sets of sources -/

/-- Why a file of a set has no outline. -/
inductive OutlineError where
  /-- The path tells no language. -/
  | unknownLanguage (path : String)
  /-- There is no syntax tree for the file. -/
  | noTree (path : String)
  deriving DecidableEq, Repr

def OutlineError.message : OutlineError → String
  | .unknownLanguage path => "no supported language for " ++ path
  | .noTree path => "the syntax tree provider produced no tree for " ++ path

/-- The outline of one source of a set. -/
def outlineSource (options : Options) (tree? : Source → Option Tree) (source : Source) :
    Except Fault (Except OutlineError FileOutline) :=
  match Language.ofPath? source.path, tree? source with
  | none, _ => return .error (.unknownLanguage source.path)
  | some _, none => return .error (.noTree source.path)
  | some language, some tree => do
    let outline ← Outliner.outline { language, options } source tree
    return .ok outline

/-- The outlines of a set of sources, in the order of the set. -/
def outlineSet (options : Options) (tree? : Source → Option Tree) (set : SourceSet) :
    Except Fault (List (Except OutlineError FileOutline)) :=
  set.sources.mapM (outlineSource options tree?)

end DocOutline
