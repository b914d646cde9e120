import DocOutline.Proofs.Rendering
import DocOutline.Proofs.Tables
import Mathlib.Data.List.ReduceOption

/-!
# The program algorithm, two lists at a time

A program is walked in one pass: pairs and declarations are collected side by side, and a
declaration that was just built as the context of a pair is not built again. The algorithm it
stands for makes two passes over the children, each with a visit of its own
(`Walker.freshPairs`, `Walker.freshDecls`), and reconciles the two lists.

The remembered context is the only thing that ties the passes together. It is what context
dispatch makes of the node that the latest pair documents (`Walker.Remembers`), so taking it
instead of a new visit changes nothing.
-/

namespace DocOutline

/-! ## Entries of selected nodes -/

/-- The entries that the selected nodes give, in order. -/
def gather (select : Place → Bool) (visit : Place → Except Fault (Option Entry))
    (places : List Place) : Except Fault (List Entry) := do
  let found ← (places.filter select).mapM visit
  return found.reduceOption

section Gather

variable {select : Place → Bool} {visit : Place → Except Fault (Option Entry)}
  {p : Place} {places : List Place}

theorem gather_cons_of_not (h : select p = false) :
    gather select visit (p :: places) = gather select visit places := by
  simp only [gather, List.filter_cons, h, Bool.false_eq_true, if_false]

theorem gather_cons_eq_ok_iff (h : select p = true) {entries : List Entry} :
    gather select visit (p :: places) = .ok entries ↔
      ∃ found rest, visit p = .ok found ∧ gather select visit places = .ok rest ∧
        entries = found.toList ++ rest := by
  simp only [gather, List.filter_cons, h, if_true, List.mapM_cons]
  constructor
  · intro hok
    obtain ⟨found, hfound, hok⟩ := bind_eq_ok_iff.1 hok
    obtain ⟨found', hfirst, hfound⟩ := bind_eq_ok_iff.1 hfound
    obtain ⟨rest, hrest, hfound⟩ := bind_eq_ok_iff.1 hfound
    cases hfound
    cases hok
    refine ⟨found', rest.reduceOption, hfirst, by rw [hrest]; rfl, ?_⟩
    cases found' <;> rfl
  · rintro ⟨found, rest, hfirst, hok, rfl⟩
    obtain ⟨others, hothers, hok⟩ := bind_eq_ok_iff.1 hok
    cases hok
    rw [hfirst, hothers]
    cases found <;> rfl

/-- What is gathered up to a selected node stands before the entry of the node. -/
theorem gather_append_cons {front back : List Place} {entries : List Entry} {e : Entry}
    (h : gather select visit (front ++ p :: back) = .ok entries) (hp : select p = true)
    (he : visit p = .ok (some e)) :
    ∃ before after, gather select visit front = .ok before ∧ entries = before ++ e :: after := by
  induction front generalizing entries with
  | nil =>
    obtain ⟨found, rest, hfound, -, rfl⟩ := (gather_cons_eq_ok_iff hp).1 h
    rw [he] at hfound
    cases hfound
    exact ⟨[], rest, rfl, rfl⟩
  | cons q front ih =>
    cases hq : select q with
    | false =>
      rw [List.cons_append, gather_cons_of_not hq] at h
      obtain ⟨before, after, hbefore, rfl⟩ := ih h
      exact ⟨before, after, by rw [gather_cons_of_not hq, hbefore], rfl⟩
    | true =>
      obtain ⟨found, rest, hfound, hrest, rfl⟩ := (gather_cons_eq_ok_iff hq).1 h
      obtain ⟨before, after, hbefore, rfl⟩ := ih hrest
      refine ⟨found.toList ++ before, after, ?_, by rw [List.append_assoc]⟩
      exact (gather_cons_eq_ok_iff hq).2 ⟨found, before, hfound, hbefore, rfl⟩

/-- Every gathered entry comes from a selected node. -/
theorem exists_of_mem_gather {entries : List Entry} (h : gather select visit places = .ok entries)
    {e : Entry} (he : e ∈ entries) :
    ∃ p ∈ places, select p = true ∧ visit p = .ok (some e) := by
  induction places generalizing entries with
  | nil =>
    cases h
    cases he
  | cons p places ih =>
    cases hp : select p with
    | false =>
      rw [gather_cons_of_not hp] at h
      obtain ⟨q, hq, hvisit⟩ := ih h he
      exact ⟨q, List.mem_cons_of_mem _ hq, hvisit⟩
    | true =>
      obtain ⟨found, rest, hfound, hrest, rfl⟩ := (gather_cons_eq_ok_iff hp).1 h
      rcases List.mem_append.1 he with he | he
      · rw [Option.mem_toList] at he
        exact ⟨p, List.mem_cons_self, hp, by rw [hfound, he]⟩
      · obtain ⟨q, hq, hvisit⟩ := ih hrest he
        exact ⟨q, List.mem_cons_of_mem _ hq, hvisit⟩

/-- What holds between any two nodes in order carries over to the gathered entries. -/
theorem pairwise_gather {R : Place → Place → Prop} {S : Entry → Entry → Prop}
    {entries : List Entry} (h : gather select visit places = .ok entries)
    (hplaces : places.Pairwise R)
    (hRS : ∀ p q a b, R p q → select p = true → select q = true →
      visit p = .ok (some a) → visit q = .ok (some b) → S a b) :
    entries.Pairwise S := by
  induction places generalizing entries with
  | nil =>
    cases h
    exact List.Pairwise.nil
  | cons p places ih =>
    obtain ⟨hfirst, hothers⟩ := List.pairwise_cons.1 hplaces
    cases hp : select p with
    | false =>
      rw [gather_cons_of_not hp] at h
      exact ih h hothers
    | true =>
      obtain ⟨found, rest, hfound, hrest, rfl⟩ := (gather_cons_eq_ok_iff hp).1 h
      cases found with
      | none => exact ih hrest hothers
      | some a =>
        refine List.pairwise_cons.2 ⟨fun b hb => ?_, ih hrest hothers⟩
        obtain ⟨q, hq, hselect, hvisit⟩ := exists_of_mem_gather hrest hb
        exact hRS p q a b (hfirst q hq) hp hselect hfound hvisit

end Gather

namespace Walker

/-! ## The two passes -/

/-- The children of a program that take part: all of them, or all but the first that is no line
for the interpreter if that one is a legal comment and the header is to be stripped. -/
def body (w : Walker) (root : Place) : Except Fault (List Place) :=
  if w.stripHeader then
    match root.children.dropWhile (·.tree.kind == hashBangKind) with
    | [] => return root.children
    | first :: rest => do
      if ← first.tree.isLegal w.source then
        return root.children.takeWhile (·.tree.kind == hashBangKind) ++ rest
      else return root.children
  else return root.children

/-- A comment as a pair: it must document something. -/
def pairAt (w : Walker) (p : Place) : Except Fault (Option Entry) :=
  (w.visitComment p).outcome.map (Option.filter (·.context.isSome))

/-- The pairs of a program, each visited by itself. -/
def freshPairs (w : Walker) (places : List Place) : Except Fault (List Entry) :=
  gather (fun p => !p.tree.missing && p.tree.isComment) w.pairAt places

/-- A child of a program that counts as a declaration. -/
def standsAlone (w : Walker) (tree : Tree) : Bool :=
  !tree.missing && !(w.table.bucket? tree.kind == some .error) && !tree.isComment &&
    w.table.isTopLevel tree

/-- The declarations of a program, each visited by itself. -/
def freshDecls (w : Walker) (places : List Place) : Except Fault (List Entry) :=
  gather (fun p => w.standsAlone p.tree) (fun p => (w.visitContext p .empty).outcome) places

theorem not_isComment_of_standsAlone {w : Walker} {tree : Tree}
    (h : w.standsAlone tree = true) : tree.isComment = false := by
  simp only [standsAlone, Bool.and_eq_true, Bool.not_eq_true'] at h
  exact h.1.2

/-- In the languages, a declaration of a program is any top-level node that is not missing. -/
theorem standsAlone_of_language {w : Walker} {language : Language}
    (hw : w.table = language.table) (tree : Tree) :
    w.standsAlone tree = (!tree.missing && w.table.isTopLevel tree) := by
  rw [standsAlone, hw]
  by_cases hc : tree.isComment = true
  · simp [language.isTopLevel_of_isComment hc]
  · by_cases he : tree.kind = errorKind
    · simp [language.isTopLevel_of_error he]
    · have hb : (language.table.bucket? tree.kind == some .error) = false :=
        beq_eq_false_iff_ne.2 fun h => he (Table.bucket?_eq_error_iff.1 h)
      simp [hc, hb]

/-! ## One pass is two passes -/

/-- The remembered context belongs to the node it is remembered for. -/
def Remembers (w : Walker) (latest : Option (Nat × Entry)) (places : List Place) : Prop :=
  ∀ p ∈ places, ∀ context, latest = some (p.index, context) →
    (w.visitContext p .empty).outcome = .ok (some context)

theorem Remembers.tail {w : Walker} {latest : Option (Nat × Entry)} {p : Place}
    {places : List Place} (h : w.Remembers latest (p :: places)) : w.Remembers latest places :=
  fun q hq => h q (List.mem_cons_of_mem _ hq)

theorem remembers_none (w : Walker) (places : List Place) : w.Remembers none places :=
  fun _ _ _ h => by cases h

/-- A pair remembers its context for the node that its comment documents. -/
theorem remembers_pair {w : Walker} {index : Nat} {trees : List Tree} {p : Place}
    {places : List Place} (hp : p ∈ Place.row index trees)
    (hplaces : ∀ q ∈ places, q ∈ Place.row index trees) {pair context : Entry}
    (hpair : (w.visitComment p).outcome = .ok (some pair)) (hcontext : pair.context = some context)
    {next : Option Site} (hnext : w.documented? (p.after.map w.site) = .ok next) :
    w.Remembers (next.map fun next => (next.index, context)) places := by
  intro q hq context' hlatest
  obtain ⟨d, hd, hvisit⟩ := (visitComment_eq_some hpair).2.2 context hcontext
  have hfound := documented?_eq_ok hnext
  rw [documentedBy] at hd
  rw [hd] at hfound
  subst hfound
  simp only [Option.map_some, site_index, Option.some.injEq, Prod.mk.injEq] at hlatest
  obtain ⟨hindex, rfl⟩ := hlatest
  -- Both stand in the same row, so the number tells that they are the same node.
  have hrow := Place.mem_row_of_mem_after hp (List.mem_of_find?_eq_some hd)
  rw [← Place.eq_of_index_eq hrow (hplaces q hq) hindex]
  exact hvisit

/-- What a declaration is built from: the remembered context, if it is for this node. -/
def declAt (w : Walker) (latest : Option (Nat × Entry)) (p : Place) : Walk (Option Entry) :=
  match latest.filter (·.1 == p.index) with
  | some (_, context) => pure (some context)
  | none => w.visitContext p .empty

theorem outcome_declAt {w : Walker} {latest : Option (Nat × Entry)} {p : Place}
    {places : List Place} (hlatest : w.Remembers latest (p :: places)) :
    (w.declAt latest p).outcome = (w.visitContext p .empty).outcome := by
  unfold declAt
  split
  · rename_i index context hfilter
    obtain ⟨hsome, hindex⟩ := Option.filter_eq_some_iff.1 hfilter
    simp only [beq_iff_eq] at hindex
    subst hindex
    rw [hlatest p List.mem_cons_self context hsome, Walk.outcome_pure]
  · rfl

theorem collect_cons (w : Walker) (latest : Option (Nat × Entry)) (p : Place)
    (sites : List Site) :
    w.collect latest (w.site p :: sites) =
      if p.tree.missing || w.table.bucket? p.tree.kind == some .error then do
        w.report p.tree .underlyingParseError
        w.collect latest sites
      else if p.tree.isComment then do
        let pair ← w.visitComment p
        match pair, pair.bind (·.context) with
        | some pair, some context =>
          let next ← liftM (w.documented? (p.after.map w.site))
          let rest ← w.collect (next.map fun next => (next.index, context)) sites
          return (pair :: rest.1, rest.2)
        | _, _ => w.collect latest sites
      else if w.table.isTopLevel p.tree then do
        let decl ← w.declAt latest p
        let rest ← w.collect latest sites
        return (rest.1, decl.toList ++ rest.2)
      else w.collect latest sites := by
  rw [collect]
  simp only [site_tree, site_kind, site_comment, site_later, site_index, site_context]
  congr 3
  unfold declAt
  cases latest.filter (·.1 == p.index) <;> rfl

theorem pairAt_of_context {w : Walker} {p : Place} {pair context : Entry}
    (hpair : (w.visitComment p).outcome = .ok (some pair))
    (hcontext : pair.context = some context) : w.pairAt p = .ok (some pair) := by
  rw [pairAt, hpair]
  simp [Except.map, Option.filter, hcontext]

theorem pairAt_of_no_context {w : Walker} {p : Place} {found : Option Entry}
    (hfound : (w.visitComment p).outcome = .ok found)
    (hnone : ∀ pair context, found = some pair → found.bind (·.context) = some context → False) :
    w.pairAt p = .ok none := by
  rw [pairAt, hfound]
  cases found with
  | none => rfl
  | some pair =>
    cases hcontext : pair.context with
    | none => simp [Except.map, Option.filter, hcontext]
    | some context => exact (hnone pair context rfl hcontext).elim

/-- A child that is not visited as a comment gives no pair. -/
theorem freshPairs_cons_of_not {w : Walker} {p : Place} {places : List Place}
    (h : (p.tree.missing || !p.tree.isComment) = true) :
    w.freshPairs (p :: places) = w.freshPairs places := by
  refine gather_cons_of_not ?_
  rw [← Bool.not_eq_true', Bool.not_and, Bool.not_not]
  exact h

theorem freshDecls_cons_of_not {w : Walker} {p : Place} {places : List Place}
    (h : w.standsAlone p.tree = false) :
    w.freshDecls (p :: places) = w.freshDecls places :=
  gather_cons_of_not h

theorem freshDecls_cons_of_comment {w : Walker} {p : Place} {places : List Place}
    (h : (!p.tree.missing && p.tree.isComment) = true) :
    w.freshDecls (p :: places) = w.freshDecls places := by
  refine freshDecls_cons_of_not (Bool.eq_false_iff.2 fun halone => ?_)
  rw [not_isComment_of_standsAlone halone, Bool.and_false] at h
  cases h

/-- What one child adds to what the pass collects from the children after it. -/
inductive Adds (w : Walker) (latest : Option (Nat × Entry)) (p : Place) (sites : List Site) :
    List Entry → List Entry → Prop
  /-- A fault, or a child that is neither a comment nor a declaration. -/
  | nothing {pairs decls : List Entry} (hcomment : (p.tree.missing || !p.tree.isComment) = true)
    (halone : w.standsAlone p.tree = false)
    (hrest : (w.collect latest sites).outcome = .ok (pairs, decls)) :
    w.Adds latest p sites pairs decls
  /-- A comment without a context. -/
  | unpaired {pairs decls : List Entry} (hcomment : (!p.tree.missing && p.tree.isComment) = true)
    (hpair : w.pairAt p = .ok none)
    (hrest : (w.collect latest sites).outcome = .ok (pairs, decls)) :
    w.Adds latest p sites pairs decls
  /-- A comment with a context, which is remembered from there on. -/
  | paired {pairs decls : List Entry} {pair context : Entry} {next : Option Site}
    (hcomment : (!p.tree.missing && p.tree.isComment) = true)
    (hpair : (w.visitComment p).outcome = .ok (some pair)) (hcontext : pair.context = some context)
    (hnext : w.documented? (p.after.map w.site) = .ok next)
    (hrest : (w.collect (next.map fun next => (next.index, context)) sites).outcome =
      .ok (pairs, decls)) :
    w.Adds latest p sites (pair :: pairs) decls
  | declared {pairs decls : List Entry} {decl : Option Entry} (halone : w.standsAlone p.tree = true)
    (hdecl : (w.declAt latest p).outcome = .ok decl)
    (hrest : (w.collect latest sites).outcome = .ok (pairs, decls)) :
    w.Adds latest p sites pairs (decl.toList ++ decls)

/-- A fault is no comment that is visited, and no declaration. -/
theorem not_selected_of_fault {w : Walker} {p : Place}
    (hfault : (p.tree.missing || w.table.bucket? p.tree.kind == some .error) = true) :
    (p.tree.missing || !p.tree.isComment) = true ∧ w.standsAlone p.tree = false := by
  constructor
  · by_cases hc : p.tree.isComment = true
    · rw [w.table.bucket?_of_isComment hc] at hfault
      simpa [hc] using hfault
    · simp [hc]
  · rw [standsAlone, ← Bool.not_or, hfault]
    rfl

theorem adds_of_collect {w : Walker} {latest : Option (Nat × Entry)} {p : Place}
    {sites : List Site} {pairs decls : List Entry}
    (h : (w.collect latest (w.site p :: sites)).outcome = .ok (pairs, decls)) :
    w.Adds latest p sites pairs decls := by
  rw [collect_cons] at h
  split_ifs at h with hfault hcomment htop
  · obtain ⟨-, -, h⟩ := Walk.outcome_bind_eq_ok_iff.1 h
    obtain ⟨hunselected, halone⟩ := not_selected_of_fault hfault
    exact .nothing hunselected halone h
  · obtain ⟨found, hfound, h⟩ := Walk.outcome_bind_eq_ok_iff.1 h
    have hselect : (!p.tree.missing && p.tree.isComment) = true := by
      simp only [Bool.or_eq_true, not_or, Bool.not_eq_true] at hfault
      simp [hfault.1, hcomment]
    split at h
    · rename_i pair context hcontext
      obtain ⟨next, hnext, h⟩ := Walk.outcome_bind_eq_ok_iff.1 h
      obtain ⟨rest, hcollect, h⟩ := Walk.outcome_bind_eq_ok_iff.1 h
      cases h
      exact .paired hselect hfound hcontext hnext hcollect
    · rename_i hnone
      exact .unpaired hselect (pairAt_of_no_context hfound hnone) h
  · obtain ⟨decl, hdecl, h⟩ := Walk.outcome_bind_eq_ok_iff.1 h
    obtain ⟨rest, hcollect, h⟩ := Walk.outcome_bind_eq_ok_iff.1 h
    cases h
    have halone : w.standsAlone p.tree = true := by
      rw [standsAlone, ← Bool.not_or]
      simp [hfault, hcomment, htop]
    exact .declared halone hdecl hcollect
  · exact .nothing (by simp [hcomment]) (by simp [standsAlone, htop]) h

/-- The pairs and the declarations that one pass collects are those of two passes. -/
theorem collect_eq_fresh {w : Walker} {index : Nat} {trees : List Tree} {places : List Place}
    (hplaces : ∀ p ∈ places, p ∈ Place.row index trees) {latest : Option (Nat × Entry)}
    (hlatest : w.Remembers latest places) {pairs decls : List Entry}
    (h : (w.collect latest (places.map w.site)).outcome = .ok (pairs, decls)) :
    w.freshPairs places = .ok pairs ∧ w.freshDecls places = .ok decls := by
  induction places generalizing latest pairs decls with
  | nil =>
    cases h
    exact ⟨rfl, rfl⟩
  | cons p places ih =>
    have hp := hplaces p List.mem_cons_self
    have hrest := fun q hq => hplaces q (List.mem_cons_of_mem p hq)
    rw [List.map_cons] at h
    have hadds := adds_of_collect h
    clear h
    cases hadds with
    | nothing hcomment halone h =>
      rw [freshPairs_cons_of_not hcomment, freshDecls_cons_of_not halone]
      exact ih hrest hlatest.tail h
    | unpaired hcomment hpair h =>
      obtain ⟨hpairs, hdecls⟩ := ih hrest hlatest.tail h
      rw [freshDecls_cons_of_comment hcomment]
      exact ⟨(gather_cons_eq_ok_iff hcomment).2 ⟨none, pairs, hpair, hpairs, rfl⟩, hdecls⟩
    | @paired pairs _ pair context next hcomment hpair hcontext hnext h =>
      obtain ⟨hpairs, hdecls⟩ := ih hrest (remembers_pair hp hrest hpair hcontext hnext) h
      rw [freshDecls_cons_of_comment hcomment]
      refine ⟨(gather_cons_eq_ok_iff hcomment).2 ?_, hdecls⟩
      exact ⟨some pair, pairs, pairAt_of_context hpair hcontext, hpairs, rfl⟩
    | @declared _ decls decl halone hdecl h =>
      obtain ⟨hpairs, hdecls⟩ := ih hrest hlatest.tail h
      rw [outcome_declAt hlatest] at hdecl
      rw [freshPairs_cons_of_not (by simp [not_isComment_of_standsAlone halone])]
      exact ⟨hpairs, (gather_cons_eq_ok_iff halone).2 ⟨decl, decls, hdecl, hdecls, rfl⟩⟩

/-! ## The header -/

theorem getElem?_findIdx_not {α : Type} (p : α → Bool) (l : List α) :
    l[l.findIdx fun a => !p a]? = (l.dropWhile p).head? := by
  induction l with
  | nil => rfl
  | cons a l ih => by_cases ha : p a = true <;> simp [List.findIdx_cons, ha, ih]

theorem eraseIdx_findIdx_not {α : Type} (p : α → Bool) (l : List α) :
    (l.eraseIdx (l.findIdx fun a => !p a)) = l.takeWhile p ++ (l.dropWhile p).tail := by
  induction l with
  | nil => rfl
  | cons a l ih => by_cases ha : p a = true <;> simp [List.findIdx_cons, ha, ih]

/-- The sites of the children that take part. -/
def bodySites (w : Walker) (root : Place) : Walk (List Site) :=
  if w.stripHeader then w.withoutHeader (root.children.map w.site)
  else pure (root.children.map w.site)

theorem outcome_bodySites (w : Walker) (root : Place) :
    (w.bodySites root).outcome = (w.body root).map (List.map w.site) := by
  unfold bodySites body
  split_ifs
  · have hkind : (fun site : Site => site.kind == hashBangKind) ∘ w.site =
        fun p => p.tree.kind == hashBangKind := by
      funext p
      simp
    unfold withoutHeader
    simp only [bne, getElem?_findIdx_not, eraseIdx_findIdx_not, List.dropWhile_map,
      List.takeWhile_map, hkind]
    cases root.children.dropWhile (·.tree.kind == hashBangKind) with
    | nil => rfl
    | cons first rest =>
      simp only [List.map_cons, List.head?_cons, site_tree, Walk.outcome_bind, Walk.outcome_lift]
      cases first.tree.isLegal w.source with
      | error fault => rfl
      | ok legal =>
        cases legal with
        | false => rfl
        | true =>
          show Except.ok _ = Except.ok _
          rw [List.map_append]
          rfl
  · rfl

theorem body_sublist {w : Walker} {root : Place} {children : List Place}
    (h : w.body root = .ok children) : children.Sublist root.children := by
  unfold body at h
  split_ifs at h
  · split at h
    · cases h
      exact List.Sublist.refl _
    · rename_i first rest hdrop
      obtain ⟨legal, -, h⟩ := bind_eq_ok_iff.1 h
      split_ifs at h
      · cases h
        conv_rhs => rw [← List.takeWhile_append_dropWhile (l := root.children)
          (p := fun q : Place => q.tree.kind == hashBangKind), hdrop]
        exact List.Sublist.append_left (List.sublist_cons_self first rest) _
      · cases h
        exact List.Sublist.refl _
  · cases h
    exact List.Sublist.refl _

/-- Only a comment is stripped. -/
theorem mem_body {w : Walker} {root : Place} {children : List Place}
    (h : w.body root = .ok children) {p : Place} (hp : p ∈ root.children)
    (hcomment : p.tree.isComment = false) : p ∈ children := by
  unfold body at h
  split_ifs at h
  · split at h
    · cases h
      exact hp
    · rename_i first rest hdrop
      obtain ⟨legal, hlegal, h⟩ := bind_eq_ok_iff.1 h
      split_ifs at h with htrue
      · cases h
        rw [← List.takeWhile_append_dropWhile (l := root.children)
          (p := fun q : Place => q.tree.kind == hashBangKind), hdrop] at hp
        rcases List.mem_append.1 hp with hp | hp
        · exact List.mem_append_left _ hp
        · rcases List.mem_cons.1 hp with rfl | hp
          · subst htrue
            simp [Tree.isLegal, Tree.commentSatisfies, hcomment, pure, Except.pure] at hlegal
          · exact List.mem_append_right _ hp
      · cases h
        exact hp
  · cases h
    exact hp

/-! ## The whole program -/

/-- The entries of a program, with the notes on how they were reconciled. -/
def reconciled (w : Walker) (pairs decls : List Entry) : Walk (List Entry) := do
  let plan := Plan.make pairs decls
  let output := plan.apply pairs decls
  Walk.leave (Plan.makeNotes pairs decls)
  Walk.leave [.programVisited w.source.path w.table.name pairs.length decls.length
    plan.duplicates plan.matched output.length]
  return output

theorem visitProgram_eq_bind (w : Walker) (root : Place) :
    w.visitProgram root = (do
      let sites ← w.bodySites root
      let found ← w.collect none sites
      w.reconciled found.1 found.2) := by
  rw [visitProgram_eq, program, bodySites]
  split_ifs <;> rfl

/-- What a program that is walked without a fault consists of. -/
theorem visitProgram_eq_ok {w : Walker} {root : Place} {entries : List Entry}
    (h : (w.visitProgram root).outcome = .ok entries) :
    ∃ children pairs decls, w.body root = .ok children ∧ w.freshPairs children = .ok pairs ∧
      w.freshDecls children = .ok decls ∧ entries = (Plan.make pairs decls).apply pairs decls := by
  rw [visitProgram_eq_bind] at h
  obtain ⟨sites, hsites, h⟩ := Walk.outcome_bind_eq_ok_iff.1 h
  obtain ⟨⟨pairs, decls⟩, hcollect, h⟩ := Walk.outcome_bind_eq_ok_iff.1 h
  cases h
  rw [outcome_bodySites] at hsites
  cases hbody : w.body root with
  | error fault =>
    rw [hbody] at hsites
    cases hsites
  | ok children =>
    rw [hbody] at hsites
    cases hsites
    have hrow : ∀ p ∈ children, p ∈ Place.row (root.index + 1) root.tree.children :=
      fun p hp => (body_sublist hbody).subset hp
    obtain ⟨hpairs, hdecls⟩ := collect_eq_fresh hrow (remembers_none w children) hcollect
    exact ⟨children, pairs, decls, rfl, hpairs, hdecls, rfl⟩

/-- The top-level nodes of a program that are not missing, each visited by itself. -/
def topLevelDecls (w : Walker) (places : List Place) : Except Fault (List Entry) :=
  gather (fun p => !p.tree.missing && w.table.isTopLevel p.tree)
    (fun p => (w.visitContext p .empty).outcome) places

/-- **A program shows what the plan makes of its pairs and its declarations**, when both are
visited one by one, without a look at what the other pass has built. -/
theorem visitProgram_eq_apply_make {w : Walker} {language : Language}
    (hw : w.table = language.table) {root : Place} {entries : List Entry}
    (h : (w.visitProgram root).outcome = .ok entries) :
    ∃ children pairs decls, w.body root = .ok children ∧ w.freshPairs children = .ok pairs ∧
      w.topLevelDecls children = .ok decls ∧
      entries = (Plan.make pairs decls).apply pairs decls := by
  obtain ⟨children, pairs, decls, hbody, hpairs, hdecls, hentries⟩ := visitProgram_eq_ok h
  refine ⟨children, pairs, decls, hbody, hpairs, ?_, hentries⟩
  have hselect : (fun p : Place => w.standsAlone p.tree) =
      fun p => !p.tree.missing && w.table.isTopLevel p.tree :=
    funext fun p => standsAlone_of_language hw p.tree
  rw [topLevelDecls, ← hselect]
  exact hdecls

end Walker

/-- A node of a text that has a single line. -/
def Tree.inLine (kind : String) (start stop : UInt32) (children : List Tree) : Tree :=
  .node ⟨kind, start, stop, ⟨0, start⟩, ⟨0, stop⟩, false⟩ children

namespace Walker

/-- A walker for a text, without a reader for its comments. -/
def ofText (language : Language) (text : String) : Walker where
  renderer := { source := { name := "sample", path := "sample", text } }
  table := language.table

/-- `/* license */ /** A. */ export let a; export let b;` -/
def twoExports : Tree :=
  .inLine "program" 0 51 [
    .inLine "comment" 0 13 [],
    .inLine "comment" 14 23 [],
    .inLine "export_statement" 24 37 [
      .inLine "export" 24 30 [],
      .inLine "lexical_declaration" 31 37 []],
    .inLine "export_statement" 38 51 [
      .inLine "export" 38 44 [],
      .inLine "lexical_declaration" 45 51 []]]

def forTwoExports : Walker :=
  .ofText .javaScript "/* license */ /** A. */ export let a; export let b;"

/-- The header is dropped, and the first export, which the comment has built, is not lost. -/
theorem visitProgram_eq_apply_make_twoExports :
    ∃ entries, (forTwoExports.visitProgram (.ofRoot twoExports)).outcome = .ok entries ∧
      entries.length = 2 ∧ ∃ children pairs decls,
        forTwoExports.body (.ofRoot twoExports) = .ok children ∧
        forTwoExports.freshPairs children = .ok pairs ∧
        forTwoExports.topLevelDecls children = .ok decls ∧
        entries = (Plan.make pairs decls).apply pairs decls := by
  obtain ⟨entries, h, hlength⟩ :
      ∃ entries, (forTwoExports.visitProgram (.ofRoot twoExports)).outcome = .ok entries ∧
        (entries.length == 2) = true := Walk.exists_ok_of_any (by decide +kernel)
  have htable : forTwoExports.table = Language.javaScript.table := rfl
  exact ⟨entries, h, beq_iff_eq.1 hlength, visitProgram_eq_apply_make htable h⟩

end Walker

end DocOutline
