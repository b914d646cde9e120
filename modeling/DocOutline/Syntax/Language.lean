import DocOutline.Source
import DocOutline.Syntax.Vocabulary

/-!
# Languages

The languages that can be outlined, and how a path tells its language.
-/

namespace DocOutline

inductive Language where
  | javaScript
  | typeScript
  /-- TypeScript with JSX. -/
  | tsx
  deriving DecidableEq, Repr

namespace Language

def table : Language → Table
  | .javaScript => javaScriptTable
  | .typeScript => typeScriptTable
  | .tsx => tsxTable

def name : Language → String
  | .javaScript => "javascript"
  | .typeScript => "typescript"
  | .tsx => "tsx"

/-- The language in words. -/
def inWords : Language → String
  | .javaScript => "JavaScript"
  | .typeScript => "TypeScript"
  | .tsx => "Tsx"

/-- The language of a name. -/
def ofName? (name : String) : Option Language :=
  [.javaScript, .typeScript, .tsx].find? (·.name == name)

/-- File name extensions, in lower case. -/
def extensions : Language → List String
  | .javaScript => ["js", "mjs", "cjs", "jsx"]
  | .typeScript => ["ts", "mts", "cts"]
  | .tsx => ["tsx"]

/-- The language of a file name extension in either case, without its dot. -/
def ofExtension? (ext : String) : Option Language :=
  let lower := String.ofList (ext.toList.map Char.toLower)
  [.javaScript, .typeScript, .tsx].find? (·.extensions.contains lower)

/-- The language of a path: what follows the last dot of its last component. -/
def ofPath? (path : String) : Option Language :=
  let name := Source.lastComponent path
  if name.contains '.' then ofExtension? (String.ofList (Text.afterLast (· == '.') name))
  else none

end Language

end DocOutline
