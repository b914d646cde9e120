import DocOutline.Source

/-!
# Syntax trees

A node has a kind, its place in the source, a flag that says whether it was only inserted to
recover from an error, and its children. Coordinates are as they are given and need not agree
with each other.

Nodes are numbered in preorder. A `Place` is a node with its number and the siblings after it:
from a place one can go to the places of the children and to the next sibling. Two places of
one tree are the same node when their numbers are equal.
-/

namespace DocOutline

/-- What a node is apart from its children. -/
structure NodeInfo where
  kind : String
  startByte : UInt32
  endByte : UInt32
  startPoint : Point
  endPoint : Point
  /-- The node stands for a token that is missing from the text. -/
  missing : Bool
  deriving DecidableEq, Repr

inductive Tree where
  | node (info : NodeInfo) (children : List Tree)
  deriving Repr

namespace Tree

def info : Tree → NodeInfo
  | .node info _ => info

def children : Tree → List Tree
  | .node _ children => children

def kind (tree : Tree) : String :=
  tree.info.kind

def missing (tree : Tree) : Bool :=
  tree.info.missing

/-- The bytes of the node. -/
def range (tree : Tree) : Except Fault ByteRange :=
  ByteRange.between tree.info.startByte tree.info.endByte

/-- The place of the node in its source. -/
def extent (tree : Tree) : Except Fault Extent := do
  let position ← tree.range
  return ⟨position, .between tree.info.startPoint tree.info.endPoint⟩

/-- The text of the node. -/
def text (tree : Tree) (source : Source) : Except Fault String := do
  let range ← tree.range
  return source.slice range.start.toNat range.stop.toNat

mutual

/-- The number of nodes. -/
def size : Tree → Nat
  | .node _ children => sizeList children + 1

/-- The number of nodes of a list of trees. -/
def sizeList : List Tree → Nat
  | [] => 0
  | tree :: rest => tree.size + sizeList rest

end

theorem size_pos (tree : Tree) : 0 < tree.size := by
  cases tree
  simp [size]

/-! ## Trees listed in preorder -/

/-- One node more at the front of a preorder list: the trees right after it that lie deeper are
its children, and all of them must lie one level deeper. -/
def adopt (depth : Nat) (info : NodeInfo) (later : List (Nat × Tree)) : Option (List (Nat × Tree)) :=
  let below := later.takeWhile (depth < ·.1)
  if below.all (·.1 == depth + 1) then
    some ((depth, .node info (below.map (·.2))) :: later.dropWhile (depth < ·.1))
  else none

/-- The trees of a preorder list of nodes with their depths. -/
def forest? : List (Nat × NodeInfo) → Option (List (Nat × Tree))
  | [] => some []
  | (depth, info) :: rest => (forest? rest).bind (adopt depth info)

/-- The tree of a preorder list: its first node, and no other, has depth zero, and no level is
skipped. -/
def ofPreorder? (nodes : List (Nat × NodeInfo)) : Option Tree :=
  match forest? nodes with
  | some [(0, tree)] => some tree
  | _ => none

end Tree

/-! ## Places -/

/-- A node at its place among its siblings. -/
structure Place where
  /-- The number of the node in preorder. -/
  index : Nat
  tree : Tree
  /-- The siblings after the node. -/
  later : List Tree

namespace Place

/-- The places of a row of siblings that begins with number `index`. -/
def row (index : Nat) : List Tree → List Place
  | [] => []
  | tree :: later => ⟨index, tree, later⟩ :: row (index + tree.size) later

def ofRoot (tree : Tree) : Place :=
  ⟨0, tree, []⟩

def children (place : Place) : List Place :=
  row (place.index + 1) place.tree.children

/-- The next sibling. -/
def next? (place : Place) : Option Place :=
  (row (place.index + place.tree.size) place.later).head?

/-- The place that follows the first place with this number in a list. -/
def nextAmong? (index : Nat) (places : List Place) : Option Place :=
  ((places.dropWhile (·.index != index)).drop 1).head?

mutual

/-- The places of a row of siblings and of all their descendants, in preorder. -/
def preorderRow (index : Nat) : List Tree → List Place
  | [] => []
  | tree :: later =>
    ⟨index, tree, later⟩ :: (preorderBelow index tree ++ preorderRow (index + tree.size) later)

/-- The places below a node that has number `index`. -/
def preorderBelow (index : Nat) : Tree → List Place
  | .node _ children => preorderRow (index + 1) children

end

mutual

/-- The numbers of a row and of everything below it are consecutive. -/
theorem index_preorderRow (index : Nat) (trees : List Tree) :
    (preorderRow index trees).map (·.index) = List.range' index (Tree.sizeList trees) := by
  match trees with
  | [] => simp [preorderRow, Tree.sizeList]
  | tree :: later =>
    have hbelow := index_preorderBelow index tree
    have hlater := index_preorderRow (index + tree.size) later
    have hpos := tree.size_pos
    obtain ⟨n, hn⟩ : ∃ n, tree.size = n + 1 := ⟨tree.size - 1, by omega⟩
    simp only [preorderRow, List.map_cons, List.map_append, hbelow, hlater, Tree.sizeList]
    rw [hn, show n + 1 + Tree.sizeList later = (n + Tree.sizeList later) + 1 by omega,
      List.range'_succ, ← List.range'_append_1]
    simp [Nat.add_assoc, Nat.add_comm 1 n]

theorem index_preorderBelow (index : Nat) (tree : Tree) :
    (preorderBelow index tree).map (·.index) = List.range' (index + 1) (tree.size - 1) := by
  match tree with
  | .node info children =>
    simp only [preorderBelow, index_preorderRow, Tree.size, Nat.add_sub_cancel]

end

/-- All places of a tree, in preorder: the place with number `i` stands at index `i`. -/
def preorder (tree : Tree) : List Place :=
  preorderRow 0 [tree]

end Place

end DocOutline
