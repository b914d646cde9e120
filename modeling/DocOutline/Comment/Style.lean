import DocOutline.Text.Lines
import DocOutline.Text.Trim

/-!
# What kind of comment a text is

A documentation comment is a block comment with exactly two stars at its start. A legal
comment mentions licensing. The markup style says whether tags stand bare on their lines
(`fragment`) or behind a code fence or a header (`block`).

The markup style looks at line starts only. Before a tag may stand a gutter: spaces and tabs,
then nothing, the opening of the comment or a single star, then spaces and tabs again.
-/

namespace DocOutline.Comment

open Text

/-- `/** ... */`, but neither `/**/` nor a banner of stars. -/
def isDocumentation (text : String) : Bool :=
  match text.toList with
  | '/' :: '*' :: '*' :: c :: rest => c != '*' && c != '/' && ['*', '/'].isSuffixOf rest
  | _ => false

/-! ## Legal comments -/

/-- Phrases of licences and copyright notices. -/
def legalPhrases : List String :=
  ["copyright", "license", "licence", "all rights reserved", "terms and conditions",
    "spdx-license-identifier", "@preserve"]

/-- Some legal phrase occurs in the text, in whatever case. Only ASCII letters are brought to
lower case: no other letter has a lower case form that could be part of one of the phrases. -/
def isLegal (text : String) : Bool :=
  let lower := text.toList.map Char.toLower
  legalPhrases.any fun phrase => hasPart phrase.toList lower

/-! ## Markup style -/

/-- How the tags of a comment are introduced. -/
inductive MarkupStyle where
  /-- There are none. -/
  | plain
  /-- Bare tags. -/
  | fragment
  /-- Tags behind a fence or a header mark. -/
  | block
  deriving DecidableEq, Repr

def MarkupStyle.name : MarkupStyle → String
  | .plain => "None"
  | .fragment => "Fragment"
  | .block => "Block"

/-- What follows the mark of a gutter: the opening of the comment, a single star or nothing. -/
def afterGutterMark (cs : List Char) : List Char :=
  match cs with
  | '/' :: '*' :: '*' :: more => more.dropWhile (· == '*')
  | '*' :: more => more
  | _ => cs

/-- What follows the gutter of a line. -/
def afterGutter (line : List Char) : List Char :=
  (afterGutterMark (line.dropWhile isIndent)).dropWhile isIndent

/-- An at sign and an ASCII letter. -/
def startsTag : List Char → Bool
  | '@' :: c :: _ => c.isAlpha
  | _ => false

/-- What follows a fence mark, or one to six number signs and a space or a tab. -/
def afterBlockMark? : List Char → Option (List Char)
  | '`' :: '`' :: '`' :: rest => some rest
  | '~' :: '~' :: '~' :: rest => some rest
  | cs =>
    let marks := cs.takeWhile (· == '#')
    match cs.dropWhile (· == '#') with
    | c :: rest => if 1 ≤ marks.length ∧ marks.length ≤ 6 ∧ isIndent c then some rest else none
    | [] => none

/-- The text begins with a bare tag behind a gutter. -/
def startsFragment (cs : List Char) : Bool :=
  startsTag (afterGutter cs)

/-- The text begins with a tag behind a gutter and a block mark. -/
def startsBlock (cs : List Char) : Bool :=
  (afterBlockMark? (afterGutter cs)).any fun rest => startsTag (rest.dropWhile isIndent)

def isMarkupFragment (text : String) : Bool :=
  atSomeLine startsFragment text.toList

def isMarkupBlock (text : String) : Bool :=
  atSomeLine startsBlock text.toList

def markupStyle (text : String) : MarkupStyle :=
  if isMarkupBlock text then .block
  else if isMarkupFragment text then .fragment
  else .plain

end DocOutline.Comment
