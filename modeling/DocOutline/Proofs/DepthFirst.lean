import DocOutline.Entry.Basic
import Mathlib.Data.List.Basic

/-!
# Walking through an entry yields its preorder

A walk (`Descendants`) keeps a stack. Each step takes the entry at the end off the stack and puts
there what stands directly below it: its context, and its children above that, in reverse.

**Theorem (`Entry.drains_descendants_iff`).** Whatever the entry, calling for the next node until
there is none comes to an end. What has been yielded by then is the preorder of the entry: the
entry, the preorders of its children in order, and the preorder of its context. Every node at or
below the entry is among it exactly once.

*Order and end.* The invariant is what a stack stands for: the preorders of its entries, from the
end of the stack to its beginning (`Descendants.upcoming`). A step takes the first node off this
list (`upcoming_of_next?`), since the reversals of the stack and of the children cancel. So a
walk that comes to its end has yielded the whole list (`Drains.eq_upcoming`), and it does come
there, because `Descendants.toList` is such a walk (`drains_toList`).

*Exactly once.* Different nodes can be equal entries, so a node is told from others by its path,
the steps that lead to it (`Entry.at?`). `Entry.nodes` is the preorder with the path to each
node. It has every path that leads to a node (`mem_nodes_iff`), and its paths are strictly
increasing in the lexicographic order (`pairwise_nodes`).
-/

namespace DocOutline

/-! ## What a stack stands for -/

namespace Descendants

variable {walk rest : Descendants} {entry : Entry} {yielded : List Entry}

/-- What the walk is still to yield: the preorders of the entries on the stack, the last first. -/
def upcoming (walk : Descendants) : List Entry :=
  walk.stack.toList.reverse.flatMap Entry.preorder

@[simp] theorem upcoming_descendants (e : Entry) : e.descendants.upcoming = e.preorder := by
  simp [upcoming, Entry.descendants, ofEntry]

/-- A step takes the first node off what is still to be yielded. -/
theorem upcoming_of_next? (h : walk.next? = some (entry, rest)) :
    walk.upcoming = entry :: rest.upcoming := by
  obtain ⟨stack, hwalk, hrest⟩ := next?_eq_some_iff.1 h
  -- From its end, the new stack has the children in their order, then the context.
  have hbelow : rest.stack.toList.reverse =
      (entry.children ++ entry.context.toList) ++ stack.toList.reverse := by
    cases hc : entry.context <;> simp [hrest, hc]
  calc walk.upcoming = entry.preorder ++ stack.toList.reverse.flatMap Entry.preorder := by
        simp [upcoming, hwalk]
    _ = entry :: rest.upcoming := by
        rw [upcoming, hbelow, List.flatMap_append, entry.preorder_eq, List.cons_append]

theorem upcoming_of_next?_eq_none (h : walk.next? = none) : walk.upcoming = [] := by
  have hstack : walk.stack = #[] := by simpa [next?] using h
  simp [upcoming, hstack]

/-! ## Draining -/

/-- Calling for the next node until there is none yields these nodes. -/
inductive Drains : Descendants → List Entry → Prop
  | done {walk : Descendants} (h : walk.next? = none) : Drains walk []
  | step {walk rest : Descendants} {entry : Entry} {yielded : List Entry}
      (h : walk.next? = some (entry, rest)) (hrest : Drains rest yielded) :
      Drains walk (entry :: yielded)

/-- Every walk comes to an end. -/
theorem drains_toList (walk : Descendants) : walk.Drains walk.toList := by
  fun_induction toList walk with
  | case1 walk h => exact .done h
  | case2 walk entry rest h ih => exact .step h ih

theorem Drains.eq_upcoming (h : walk.Drains yielded) : yielded = walk.upcoming := by
  induction h with
  | done h => rw [upcoming_of_next?_eq_none h]
  | step h _ ih => rw [upcoming_of_next? h, ih]

theorem toList_eq_upcoming (walk : Descendants) : walk.toList = walk.upcoming :=
  (drains_toList walk).eq_upcoming

theorem drains_iff : walk.Drains yielded ↔ yielded = walk.upcoming := by
  constructor
  · exact Drains.eq_upcoming
  · intro h
    rw [h, ← toList_eq_upcoming]
    exact drains_toList walk

end Descendants

/-! ## Paths -/

namespace Entry

/-- A step from an entry to one directly below it. -/
inductive Step where
  | child (i : Nat)
  | context
  deriving DecidableEq, Repr

/-- The children come in their order, and the context comes after them. -/
inductive Step.Before : Step → Step → Prop
  | children {i j : Nat} (h : i < j) : Before (.child i) (.child j)
  | context (i : Nat) : Before (.child i) .context

/-- The steps from an entry to a node at or below it. -/
abbrev Path :=
  List Step

/-- A node comes before what is below it, and the rest is decided where two paths part. -/
def Path.Before : Path → Path → Prop :=
  List.Lex Step.Before

theorem Step.Before.irrefl (s : Step) : ¬ s.Before s := by
  intro h
  cases h with
  | children h => omega

theorem Path.Before.ne {p q : Path} (h : p.Before q) : p ≠ q := by
  intro hpq
  subst hpq
  exact List.lex_irrefl Step.Before.irrefl p h

/-- The entry directly below that a step leads to. -/
def part? (e : Entry) : Step → Option Entry
  | .child i => e.children[i]?
  | .context => e.context

/-- The node that a path leads to. -/
def at? (e : Entry) : Path → Option Entry
  | [] => some e
  | step :: path => (e.part? step).bind (·.at? path)

/-- The entries directly below with the steps to them, in the order of the walk. -/
def parts (e : Entry) : List (Step × Entry) :=
  e.children.zipIdx.map (fun c => (.child c.2, c.1)) ++ e.context.toList.map (.context, ·)

theorem mem_parts_iff {e c : Entry} {step : Step} :
    (step, c) ∈ e.parts ↔ e.part? step = some c := by
  cases step with
  | child i => simp [parts, part?, List.mem_zipIdx_iff_getElem?]
  | context => simp [parts, part?]

theorem map_snd_parts (e : Entry) :
    e.parts.map (·.2) = e.children ++ e.context.toList := by
  simp [parts, Function.comp_def, List.zipIdx_map_fst]

theorem pairwise_parts (e : Entry) : e.parts.Pairwise fun c d => c.1.Before d.1 := by
  rw [parts, List.pairwise_append, List.pairwise_map, List.pairwise_map]
  refine ⟨?_, ?_, ?_⟩
  · have hlt : (e.children.zipIdx.map (·.2)).Pairwise (· < ·) := by
      rw [List.zipIdx_map_snd]
      exact List.pairwise_lt_range'
    exact (List.pairwise_map.1 hlt).imp .children
  · cases e.context <;> simp
  · intro c hc d hd
    obtain ⟨⟨child, i⟩, -, rfl⟩ := List.mem_map.1 hc
    obtain ⟨context, -, rfl⟩ := List.mem_map.1 hd
    exact .context i

/-! ## The preorder with its paths -/

/-- A node seen from one step further up. -/
def under (step : Step) (node : Path × Entry) : Path × Entry :=
  (step :: node.1, node.2)

mutual

/-- The entry and everything below it, with the paths. -/
def nodes (entry : Entry) : List (Path × Entry) :=
  match entry with
  | ⟨_, _, _, _, children, context, _, _⟩ =>
    ([], entry) :: (nodesList 0 children ++ nodesContext context)

/-- The nodes of children from number `i` on. -/
def nodesList (i : Nat) : List Entry → List (Path × Entry)
  | [] => []
  | entry :: rest => entry.nodes.map (under (.child i)) ++ nodesList (i + 1) rest

def nodesContext : Option Entry → List (Path × Entry)
  | none => []
  | some entry => entry.nodes.map (under .context)

end

theorem nodesList_eq_flatMap (i : Nat) (entries : List Entry) :
    nodesList i entries =
      (entries.zipIdx i).flatMap fun c => c.1.nodes.map (under (.child c.2)) := by
  induction entries generalizing i with
  | nil => simp [nodesList]
  | cons e entries ih => simp [nodesList, ih]

theorem nodes_eq (e : Entry) :
    e.nodes = ([], e) :: e.parts.flatMap fun c => c.2.nodes.map (under c.1) := by
  obtain ⟨kind, text, position, location, children, context, properties, comment⟩ := e
  rw [nodes, nodesList_eq_flatMap, parts, List.flatMap_append, List.flatMap_map]
  cases context <;> simp [nodesContext]

/-- What holds of an entry whenever it holds of the entries directly below it holds of every
entry. -/
theorem parts_induction {P : Entry → Prop} (step : ∀ e : Entry, (∀ c ∈ e.parts, P c.2) → P e)
    (e : Entry) : P e := by
  induction e using Entry.induction with
  | step e hchildren hcontext =>
    apply step e
    rintro ⟨s, c⟩ hc
    cases s with
    | child i => exact hchildren c (List.mem_of_getElem? (mem_parts_iff.1 hc))
    | context => exact hcontext c (mem_parts_iff.1 hc)

theorem map_snd_nodes (e : Entry) : e.nodes.map (·.2) = e.preorder := by
  induction e using parts_induction with
  | step e ih =>
    have hbelow : (e.parts.flatMap fun c => c.2.nodes.map (under c.1)).map (·.2) =
        (e.parts.map (·.2)).flatMap preorder := by
      rw [List.map_flatMap, List.flatMap_map]
      refine List.flatMap_congr fun c hc => ?_
      rw [← ih c hc, List.map_map]
      rfl
    rw [nodes_eq, List.map_cons, hbelow, map_snd_parts, preorder_eq]

theorem cons_mem_nodes_iff {e m : Entry} {step : Step} {path : Path} :
    (step :: path, m) ∈ e.nodes ↔ ∃ c, e.part? step = some c ∧ (path, m) ∈ c.nodes := by
  rw [nodes_eq, List.mem_cons, List.mem_flatMap]
  constructor
  · rintro (h | ⟨⟨s, c⟩, hc, hm⟩)
    · cases h
    · obtain ⟨node, hnode, h⟩ := List.mem_map.1 hm
      cases h
      exact ⟨c, mem_parts_iff.1 hc, hnode⟩
  · rintro ⟨c, hc, hm⟩
    exact .inr ⟨(step, c), mem_parts_iff.2 hc, List.mem_map_of_mem hm⟩

theorem nil_mem_nodes_iff {e m : Entry} : ([], m) ∈ e.nodes ↔ m = e := by
  simp [nodes_eq e, under]

/-- The nodes are what the paths lead to. -/
theorem mem_nodes_iff {e m : Entry} {path : Path} :
    (path, m) ∈ e.nodes ↔ e.at? path = some m := by
  induction path generalizing e with
  | nil => rw [nil_mem_nodes_iff, at?, Option.some.injEq, eq_comm]
  | cons step path ih => simp only [cons_mem_nodes_iff, ih, at?, Option.bind_eq_some_iff]

/-- The paths are listed in their order. -/
theorem pairwise_nodes (e : Entry) : e.nodes.Pairwise fun m n => m.1.Before n.1 := by
  induction e using parts_induction with
  | step e ih =>
    rw [nodes_eq, List.pairwise_cons, List.pairwise_flatMap]
    refine ⟨fun n hn => ?_, fun c hc => ?_, ?_⟩
    · obtain ⟨c, -, hn⟩ := List.mem_flatMap.1 hn
      obtain ⟨node, -, rfl⟩ := List.mem_map.1 hn
      exact .nil
    · exact List.pairwise_map.2 ((ih c hc).imp .cons)
    -- The first steps decide between nodes below different entries.
    · refine e.pairwise_parts.imp fun hbefore m hm n hn => ?_
      obtain ⟨node, -, rfl⟩ := List.mem_map.1 hm
      obtain ⟨node', -, rfl⟩ := List.mem_map.1 hn
      exact .rel hbefore

/-! ## The walk -/

/-- **The walk through an entry is a complete preorder.** It comes to an end, with the preorder of
the entry yielded. The nodes yielded have different paths, in increasing order, and these are all
the paths that lead from the entry to a node: every node is yielded exactly once. -/
theorem drains_descendants_iff (entry : Entry) :
    (∀ yielded, entry.descendants.Drains yielded ↔ yielded = entry.preorder) ∧
      entry.descendants.toList = entry.preorder ∧
      ∃ nodes : List (Path × Entry), nodes.map (·.2) = entry.preorder ∧
        (nodes.map (·.1)).Nodup ∧ (nodes.map (·.1)).Pairwise Path.Before ∧
        ∀ path node, (path, node) ∈ nodes ↔ entry.at? path = some node := by
  have hpaths := List.pairwise_map.2 entry.pairwise_nodes
  refine ⟨fun yielded => ?_, ?_, entry.nodes, entry.map_snd_nodes, hpaths.imp Path.Before.ne,
    hpaths, fun path node => mem_nodes_iff⟩
  · rw [Descendants.drains_iff, Descendants.upcoming_descendants]
  · rw [Descendants.toList_eq_upcoming, Descendants.upcoming_descendants]

end Entry

end DocOutline
