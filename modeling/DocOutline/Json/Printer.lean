import DocOutline.Json.Basic

/-!
# Printing JSON

One printer, given a layout: the blanks between the tokens. `Layout.compact` writes none,
`Layout.pretty` puts each item on a line of its own, indented by two spaces a level. An empty
list or object has nothing between its brackets in either.

Of the characters of a string only the quote, the backslash and the control characters are
escaped.
-/

namespace DocOutline.Json

/-! ## Strings -/

/-- The digit of a number below sixteen, in lower case. -/
def hexDigit (n : Nat) : Char :=
  if n < 10 then Char.ofNat (48 + n) else Char.ofNat (87 + n)

/-- A character inside a string. -/
def escapeChar (c : Char) : List Char :=
  if c = '"' then ['\\', '"']
  else if c = '\\' then ['\\', '\\']
  else if c = '\x08' then ['\\', 'b']
  else if c = '\x0c' then ['\\', 'f']
  else if c = '\n' then ['\\', 'n']
  else if c = '\r' then ['\\', 'r']
  else if c = '\t' then ['\\', 't']
  else if c.toNat < 32 then
    ['\\', 'u', '0', '0', hexDigit (c.toNat / 16), hexDigit (c.toNat % 16)]
  else [c]

/-- A string in quotes. -/
def quote (s : String) : List Char :=
  '"' :: s.toList.flatMap escapeChar ++ ['"']

/-! ## Values -/

/-- The blanks between the tokens of a value. -/
structure Layout where
  /-- What stands before an item and before a closing bracket at a depth. -/
  lineBreak : Nat → List Char
  /-- What follows the colon of a member. -/
  afterColon : List Char

/-- No blanks at all. -/
def Layout.compact : Layout where
  lineBreak _ := []
  afterColon := []

/-- One item a line, two spaces a level. -/
def Layout.pretty : Layout where
  lineBreak depth := '\n' :: List.replicate (2 * depth) ' '
  afterColon := [' ']

mutual

/-- A value whose brackets stand at `depth`. -/
def print (layout : Layout) (depth : Nat) : Json → List Char
  | .null => ['n', 'u', 'l', 'l']
  | .bool true => ['t', 'r', 'u', 'e']
  | .bool false => ['f', 'a', 'l', 's', 'e']
  | .nat n => Nat.toDigits 10 n
  | .real written => written.toList
  | .str s => quote s
  | .arr [] => ['[', ']']
  | .arr (item :: items) =>
    '[' :: (layout.lineBreak (depth + 1) ++ print layout (depth + 1) item ++
      printItems layout (depth + 1) items ++ layout.lineBreak depth ++ [']'])
  | .obj [] => ['\x7b', '\x7d']
  | .obj ((name, value) :: members) =>
    '\x7b' :: (layout.lineBreak (depth + 1) ++ quote name ++ ':' :: layout.afterColon ++
      print layout (depth + 1) value ++
      printMembers layout (depth + 1) members ++ layout.lineBreak depth ++ ['\x7d'])

/-- The items after the first. -/
def printItems (layout : Layout) (depth : Nat) : List Json → List Char
  | [] => []
  | item :: items =>
    ',' :: (layout.lineBreak depth ++ print layout depth item ++ printItems layout depth items)

/-- The members after the first. -/
def printMembers (layout : Layout) (depth : Nat) : List (String × Json) → List Char
  | [] => []
  | (name, value) :: members =>
    ',' :: (layout.lineBreak depth ++ quote name ++ ':' :: layout.afterColon ++
      print layout depth value ++ printMembers layout depth members)

end

def compact (json : Json) : String :=
  String.ofList (print .compact 0 json)

def pretty (json : Json) : String :=
  String.ofList (print .pretty 0 json)

end DocOutline.Json
