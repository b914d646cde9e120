import DocOutline.Comment.Doc
import DocOutline.Entry.Properties

/-!
# Entries

An entry is one node of an outline: the text and the place of a syntax node, the entries of its
children, and for a documentation comment the declaration that it documents (its context) and
its parsed content.

`Entry.preorder` lists an entry and everything below it: the entry, then what its children give
in order, then what its context gives. `Descendants` walks the same entries one at a time, with
a stack of what is still to come.
-/

namespace DocOutline

/-- One node of an outline. -/
structure Entry where
  kind : String
  text : String
  position : ByteRange
  location : Location
  children : List Entry := []
  /-- The declaration that a comment documents. -/
  context : Option Entry := none
  properties : Option Properties := none
  /-- The content of a comment. -/
  comment : Option DocComment := none

namespace Entry

def extent (entry : Entry) : Extent :=
  ⟨entry.position, entry.location⟩

def start (entry : Entry) : Point :=
  entry.location.first

/-- What tells a declaration from all others: where it starts. -/
def key (entry : Entry) : Point :=
  entry.start

/-- The first child of a kind. -/
def child? (entry : Entry) (kind : String) : Option Entry :=
  entry.children.find? (·.kind == kind)

/-- The entry with more properties. Empty ones change nothing. -/
def mergeProperties (entry : Entry) (more : Properties) : Entry :=
  if more.isEmpty then entry
  else { entry with properties := some ((entry.properties.getD .empty).merge more) }

/-! ## Preorder -/

mutual

/-- The number of entries. -/
def size : Entry → Nat
  | ⟨_, _, _, _, children, context, _, _⟩ => sizeList children + sizeContext context + 1

def sizeList : List Entry → Nat
  | [] => 0
  | entry :: rest => entry.size + sizeList rest

def sizeContext : Option Entry → Nat
  | none => 0
  | some entry => entry.size

end

mutual

/-- The entry and everything below it. -/
def preorder (entry : Entry) : List Entry :=
  match entry with
  | ⟨_, _, _, _, children, context, _, _⟩ =>
    entry :: (preorderList children ++ preorderContext context)

def preorderList : List Entry → List Entry
  | [] => []
  | entry :: rest => entry.preorder ++ preorderList rest

def preorderContext : Option Entry → List Entry
  | none => []
  | some entry => entry.preorder

end

theorem preorderList_eq_flatMap (entries : List Entry) :
    preorderList entries = entries.flatMap preorder := by
  induction entries with
  | nil => simp [preorderList]
  | cons e entries ih => simp [preorderList, ih]

theorem preorder_eq (e : Entry) :
    e.preorder = e :: (e.children ++ e.context.toList).flatMap preorder := by
  obtain ⟨kind, text, position, location, children, context, properties, comment⟩ := e
  rw [preorder, preorderList_eq_flatMap, List.flatMap_append]
  cases context <;> simp [preorderContext]

/-! ## Induction -/

theorem size_eq (entry : Entry) :
    entry.size = sizeList entry.children + sizeContext entry.context + 1 := by
  cases entry; simp [size]

theorem size_le_sizeList {entry : Entry} {entries : List Entry} (h : entry ∈ entries) :
    entry.size ≤ sizeList entries := by
  induction entries with
  | nil => cases h
  | cons first rest ih =>
    rw [sizeList]
    rcases List.mem_cons.1 h with rfl | h
    · omega
    · have := ih h
      omega

/-- What holds of an entry whenever it holds of its children and of its context holds of every
entry. -/
theorem induction {P : Entry → Prop}
    (step : ∀ e : Entry, (∀ child ∈ e.children, P child) → (∀ context ∈ e.context, P context) → P e)
    (e : Entry) : P e :=
  step e (fun child _ => induction step child) (fun context _ => induction step context)
termination_by e.size
decreasing_by
  · have := size_le_sizeList ‹_›
    rw [size_eq e]
    omega
  · rename_i hcontext
    rw [size_eq e, Option.mem_def.1 hcontext, sizeContext]
    omega

end Entry

/-! ## Walking one entry at a time -/

/-- The entries still to come, the next one last. -/
structure Descendants where
  stack : Array Entry

namespace Descendants

def ofEntry (entry : Entry) : Descendants :=
  ⟨#[entry]⟩

/-- The next entry, off the end of the stack, and the walk after it. The context of the entry is
put on the stack first and its children above it, the last one first. -/
def next? (walk : Descendants) : Option (Entry × Descendants) :=
  walk.stack.back?.map fun entry =>
    (entry, ⟨walk.stack.pop ++ entry.context.toList ++ entry.children.reverse⟩)

theorem next?_eq_some_iff {walk rest : Descendants} {entry : Entry} :
    walk.next? = some (entry, rest) ↔ ∃ stack : Array Entry, walk.stack = stack.push entry ∧
      rest.stack = stack ++ entry.context.toList ++ entry.children.reverse := by
  obtain ⟨stack⟩ := walk
  obtain ⟨stack'⟩ := rest
  simp only [next?, Option.map_eq_some_iff, Prod.mk.injEq, mk.injEq]
  constructor
  · rintro ⟨entry, hback, rfl, rfl⟩
    obtain ⟨below, rfl⟩ := Array.back?_eq_some_iff.1 hback
    exact ⟨below, rfl, by rw [Array.pop_push]⟩
  · rintro ⟨below, rfl, rfl⟩
    exact ⟨entry, Array.back?_push, rfl, by rw [Array.pop_push]⟩

theorem sizeList_append (xs ys : List Entry) :
    Entry.sizeList (xs ++ ys) = Entry.sizeList xs + Entry.sizeList ys := by
  induction xs with
  | nil => simp [Entry.sizeList]
  | cons x xs ih => simp only [List.cons_append, Entry.sizeList, ih]; omega

theorem sizeList_reverse (xs : List Entry) :
    Entry.sizeList xs.reverse = Entry.sizeList xs := by
  induction xs with
  | nil => rfl
  | cons x xs ih => simp only [List.reverse_cons, sizeList_append, Entry.sizeList, ih]; omega

theorem sizeList_toList (context : Option Entry) :
    Entry.sizeList context.toList = Entry.sizeContext context := by
  cases context <;> simp [Entry.sizeList, Entry.sizeContext]

/-- Each step takes one entry off what is to come. -/
theorem sizeList_next {walk : Descendants} {entry : Entry} {rest : Descendants}
    (h : walk.next? = some (entry, rest)) :
    Entry.sizeList walk.stack.toList = Entry.sizeList rest.stack.toList + 1 := by
  obtain ⟨stack, hwalk, hrest⟩ := next?_eq_some_iff.1 h
  simp only [hwalk, hrest, Array.toList_push, Array.toList_appendList, sizeList_append,
    sizeList_reverse, sizeList_toList, Entry.sizeList, entry.size_eq]
  omega

/-- All entries of the walk. -/
def toList (walk : Descendants) : List Entry :=
  match _step : walk.next? with
  | none => []
  | some (entry, rest) => entry :: rest.toList
termination_by Entry.sizeList walk.stack.toList
decreasing_by rw [sizeList_next _step]; omega

end Descendants

/-- The entry and everything below it, one at a time. -/
def Entry.descendants (entry : Entry) : Descendants :=
  .ofEntry entry

end DocOutline
