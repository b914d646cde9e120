import DocOutline.Span

/-!
# Options

What can be chosen for an outline, and the options in words. A structure in words is its name
and its fields in braces.
-/

namespace DocOutline

/-- What can be chosen for an outline. -/
structure Options where
  /-- A legal comment at the head of the file is dropped. -/
  stripLegalHeader : Bool := true
  /-- The content of documentation comments is read. -/
  parseMarkup : Bool := true
  /-- Where the text begins in a larger document. -/
  offset : Option Extent := none
  deriving DecidableEq, Repr

/-! ## In words -/

/-- Named fields, separated by commas. -/
def fieldsText (fields : List (String × String)) : String :=
  String.intercalate ", " (fields.map fun (name, text) => name ++ ": " ++ text)

/-- A structure in words. -/
def recordText (name : String) (fields : List (String × String)) : String :=
  name ++ " \x7b " ++ fieldsText fields ++ " \x7d"

/-- A structure in words that does not tell all its fields. -/
def openRecordText (name : String) (fields : List (String × String)) : String :=
  name ++ " \x7b " ++ fieldsText fields ++ ", .. \x7d"

def boolText : Bool → String
  | true => "true"
  | false => "false"

def Span.inWords (s : Span) : String :=
  recordText "Span" [("start", Nat.repr s.start.toNat), ("end", Nat.repr s.stop.toNat)]

def Location.inWords (l : Location) : String :=
  recordText "Location" [("row", l.row.inWords), ("column", l.column.inWords)]

def ByteRange.inWords (r : ByteRange) : String :=
  Nat.repr r.start.toNat ++ ".." ++ Nat.repr r.stop.toNat

def Extent.inWords (e : Extent) : String :=
  recordText "Ranges" [("position", e.position.inWords), ("location", e.location.inWords)]

def Options.inWords (options : Options) : String :=
  let offset := match options.offset with
    | some extent => "Some(" ++ extent.inWords ++ ")"
    | none => "None"
  recordText "ParseOptions" [
    ("strip_legal_header", boolText options.stripLegalHeader),
    ("parse_markup", boolText options.parseMarkup),
    ("offset", offset)]

end DocOutline
