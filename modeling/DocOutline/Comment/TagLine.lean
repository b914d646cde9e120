import DocOutline.Text.Trim
import DocOutline.Text.Word

/-!
# Tag lines

A tag line is an at sign, a name, and then nothing or a blank and more: an optional type in
braces, and the rest. Of a tag that names something, such as a parameter, the rest begins with
the name, which brackets mark as optional, with or without a default value.
-/

namespace DocOutline.Comment

open Text

/-- A tag line taken apart. -/
structure TagLine where
  name : List Char
  /-- The type in braces. -/
  typeExpr : Option (List Char)
  /-- What the tag names. -/
  ident : Option (List Char)
  /-- The name stands in brackets. -/
  optional : Bool
  /-- The default value of an optional name. -/
  fallback : Option (List Char)
  description : List Char
  deriving DecidableEq, Repr

namespace TagLine

/-- A character of a tag name after its first letter. -/
def isNameChar (c : Char) : Bool :=
  isWord c || c == '-'

/-- The tag name and what follows it. -/
def name? : List Char → Option (List Char × List Char)
  | '@' :: c :: cs =>
    if c.isAlpha then some (c :: cs.takeWhile isNameChar, cs.dropWhile isNameChar) else none
  | _ => none

/-- Nothing, or a blank and more. -/
def isApart : List Char → Bool
  | [] => true
  | c :: _ => isBlank c

/-- The type in braces and what follows it. A brace closes the type only at the end of a word. -/
def type? (cs : List Char) : Option (List Char × List Char) :=
  match trimStart cs with
  | '\x7b' :: more =>
    (splitFirst? '\x7d' more).bind fun (type, rest) =>
      if isApart rest then some (type, rest) else none
  | _ => none

/-- The type after the name of a tag, and the rest. -/
def splitType (after : List Char) : Option (List Char) × List Char :=
  match type? after with
  | some (type, rest) => (some (trim type), trim rest)
  | none => (none, trim after)

/-! ## What a tag names -/

/-- Tags whose rest begins with a name. -/
def namingTags : List String :=
  ["param", "arg", "argument", "prop", "property", "typedef", "callback", "template", "member"]

/-- The name at the front of a rest, and what follows. -/
structure Naming where
  ident : Option (List Char)
  optional : Bool
  fallback : Option (List Char)
  rest : List Char
  deriving DecidableEq, Repr

/-- No name is read. -/
def Naming.unread (rest : List Char) : Naming :=
  ⟨none, false, none, rest⟩

/-- The name between brackets, with its default value after an equals sign. -/
def Naming.ofBrackets (inner tail : List Char) : Naming :=
  match splitFirst? '=' inner with
  | some (ident, value) => ⟨some (trim ident), true, some (trim value), trimStart tail⟩
  | none => ⟨some (trim inner), true, none, trimStart tail⟩

/-- The name of a rest: in brackets, or the first word. An opening bracket that is never closed
names nothing. -/
def Naming.read : List Char → Naming
  | [] => .unread []
  | '[' :: cs =>
    match splitFirst? ']' cs with
    | some (inner, tail) => .ofBrackets inner tail
    | none => .unread ('[' :: cs)
  | cs =>
    ⟨some (cs.takeWhile fun c => !isBlank c), false, none,
      trimStart (cs.dropWhile fun c => !isBlank c)⟩

/-- What a tag of this name names, and what is left of the rest. -/
def namingOf (name rest : List Char) : Naming :=
  if String.ofList name ∈ namingTags then Naming.read rest else Naming.unread rest

/-! ## The whole line -/

/-- The tag line of a name and of what follows it. A dash before the description is dropped. -/
def ofParts (name after : List Char) : TagLine :=
  let (typeExpr, rest) := splitType after
  let naming := namingOf name rest
  { name, typeExpr
    ident := naming.ident
    optional := naming.optional
    fallback := naming.fallback
    description := dropMark ['-', ' '] naming.rest }

/-- The tag line, if the text is one. -/
def read? (line : List Char) : Option TagLine :=
  (name? line).bind fun (name, after) =>
    if isApart after then some (ofParts name after) else none

end TagLine

end DocOutline.Comment
