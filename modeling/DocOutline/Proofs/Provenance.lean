import DocOutline.Proofs.Tasks
import Mathlib.Data.List.Forall2

/-!
# What the entries of an outline depict

Every entry of an outline, however deep, is made out of one node of the tree: it has the place
and the text of that node, and its kind up to a renaming (`Walker.Depicts`). The entries below it
follow the tree as well. Its children depict children of the node, in order; only a program is
free in this, since its entries are reconciled. Its context depicts a node at or below a later
sibling (`Walker.Grown`).

The proof goes along with the dispatch, over the children of a place and the places after it. The
reconciliation at the end of a program only adds properties, which nothing here depends on.

Main result: `Walker.grown_of_visitRoot`.
-/

namespace DocOutline

/-! ## Entries and their parts -/

namespace Entry

theorem mem_preorderList {entries : List Entry} {m : Entry} :
    m ∈ preorderList entries ↔ ∃ e ∈ entries, m ∈ e.preorder := by
  rw [preorderList_eq_flatMap, List.mem_flatMap]

theorem mem_preorder_iff {e m : Entry} :
    m ∈ e.preorder ↔
      m = e ∨ (∃ c ∈ e.children, m ∈ c.preorder) ∨ ∃ x, e.context = some x ∧ m ∈ x.preorder := by
  rw [preorder_eq, List.mem_cons, List.flatMap_append, List.mem_append, List.mem_flatMap,
    List.mem_flatMap]
  simp only [Option.mem_toList]

end Entry

namespace Walker

variable {w : Walker}

/-! ## Depicting -/

/-- The ways to make an entry out of a node, with the kind that the entry gets. -/
inductive Makes (w : Walker) (n : Place) : String → Prop
  /-- Ordinary dispatch on a container, a token or a program. -/
  | ordinary {bucket : Bucket} (present : n.tree.missing = false)
      (hbucket : w.table.bucket? n.tree.kind = some bucket) (hcomment : bucket ≠ .comment)
      (herror : bucket ≠ .error) : w.Makes n n.tree.kind
  | comment (hdoc : w.isDoc n = true) : w.Makes n n.tree.kind
  /-- Context dispatch on an exporting statement without a declaration. -/
  | exporter {rule : Rule} (hrule : w.table.rule? n.tree.kind = some rule)
      (hrole : rule.role = .exporter) (hnone : w.exportedChild n = none) : w.Makes n n.tree.kind
  /-- Context dispatch on a declaration. -/
  | declaration {rule : Rule} (hrule : w.table.rule? n.tree.kind = some rule)
      (hrole : rule.role = .declaration ∨ rule.role = .nameSpace ∨ rule.role = .ambientModule) :
      w.Makes n rule.entryKind

/-- The entry is made out of the node, whatever its children, its context and its properties. -/
structure Depicts (w : Walker) (n : Place) (m : Entry) : Prop where
  made : w.Makes n m.kind
  extent : Renderer.extent w.renderer.offset n.tree = .ok m.extent
  text : n.tree.text w.source = .ok m.text

/-- The entry depicts a node below the root, and what stands directly below it depicts nodes
around that one. -/
def Grown (w : Walker) (root : Place) (m : Entry) : Prop :=
  ∃ n ∈ root.subtree, w.Depicts n m ∧
    (w.table.bucket? n.tree.kind ≠ some .root →
      ∃ cs, cs.Sublist n.children ∧ List.Forall₂ w.Depicts cs m.children) ∧
    ∀ x, m.context = some x → w.isDoc n = true ∧ ∃ q ∈ n.after, ∃ r ∈ q.subtree, w.Depicts r x

/-- The entry and everything below it has grown below the root. -/
def FullyGrown (w : Walker) (root : Place) (e : Entry) : Prop :=
  ∀ m ∈ e.preorder, w.Grown root m

theorem depicts_of_renderAs {n : Place} {kind : String} {payload : Payload} {e : Entry}
    (hmakes : w.Makes n kind) (h : w.renderer.renderAs n.tree kind payload = .ok e) :
    w.Depicts n e := by
  have hrenders := Renderer.renderAs_eq_ok_iff.1 h
  exact ⟨hrenders.kind_eq ▸ hmakes, hrenders.extent_eq, hrenders.text_eq⟩

theorem fullyGrown_iff {root : Place} {e : Entry} :
    w.FullyGrown root e ↔ w.Grown root e ∧ (∀ c ∈ e.children, w.FullyGrown root c) ∧
      ∀ x, e.context = some x → w.FullyGrown root x := by
  constructor
  · intro h
    refine ⟨h e (Entry.mem_preorder_iff.2 (.inl rfl)), fun c hc m hm => ?_, fun x hx m hm => ?_⟩
    · exact h m (Entry.mem_preorder_iff.2 (.inr (.inl ⟨c, hc, hm⟩)))
    · exact h m (Entry.mem_preorder_iff.2 (.inr (.inr ⟨x, hx, hm⟩)))
  · rintro ⟨hself, hchildren, hcontext⟩ m hm
    rcases Entry.mem_preorder_iff.1 hm with rfl | ⟨c, hc, hm⟩ | ⟨x, hx, hm⟩
    · exact hself
    · exact hchildren c hc m hm
    · exact hcontext x hx m hm

/-- An entry without a context has grown if its children have. -/
theorem fullyGrown_of_context_none {root n : Place} {e : Entry} (hn : n ∈ root.subtree)
    (hself : w.Depicts n e) (hnone : e.context = none)
    (hrow : w.table.bucket? n.tree.kind ≠ some .root →
      ∃ cs, cs.Sublist n.children ∧ List.Forall₂ w.Depicts cs e.children)
    (hparts : ∀ c ∈ e.children, w.FullyGrown root c) : w.FullyGrown root e := by
  have hcontext : ∀ x, e.context ≠ some x := by
    intro x hx
    rw [hnone] at hx
    cases hx
  exact fullyGrown_iff.2 ⟨⟨n, hn, hself, hrow, fun x hx => absurd hx (hcontext x)⟩, hparts,
    fun x hx => absurd hx (hcontext x)⟩

/-! ## Properties do not matter -/

theorem depicts_mergeProperties {n : Place} {e : Entry} (h : w.Depicts n e) (more : Properties) :
    w.Depicts n (e.mergeProperties more) := by
  unfold Entry.mergeProperties
  split_ifs
  · exact h
  · exact ⟨h.made, h.extent, h.text⟩

theorem fullyGrown_mergeProperties {root : Place} {e : Entry} (h : w.FullyGrown root e)
    (more : Properties) : w.FullyGrown root (e.mergeProperties more) := by
  obtain ⟨⟨n, hn, hdepicts, hbelow⟩, hparts⟩ := fullyGrown_iff.1 h
  have hmerged := depicts_mergeProperties hdepicts more
  unfold Entry.mergeProperties at hmerged ⊢
  split_ifs at hmerged ⊢
  · exact h
  · exact fullyGrown_iff.2 ⟨⟨n, hn, hmerged, hbelow⟩, hparts⟩

/-- A pair that takes in a declaration stays as it has grown. -/
theorem fullyGrown_absorb {root : Place} {pair : Entry} (h : w.FullyGrown root pair)
    (decl : Entry) : w.FullyGrown root (Plan.absorb decl pair) := by
  unfold Plan.absorb
  split
  · rename_i x more hx _
    obtain ⟨⟨n, hn, hdepicts, hchildren, hcontext⟩, hparts, hbelow⟩ := fullyGrown_iff.1 h
    obtain ⟨hdoc, q, hq, r, hr, hdepicts'⟩ := hcontext x hx
    refine fullyGrown_iff.2 ⟨⟨n, hn, ⟨hdepicts.made, hdepicts.extent, hdepicts.text⟩, hchildren,
      fun y hy => ?_⟩, hparts, fun y hy => ?_⟩
    · obtain rfl := Option.some.inj hy
      exact ⟨hdoc, q, hq, r, hr, depicts_mergeProperties hdepicts' more⟩
    · obtain rfl := Option.some.inj hy
      exact fullyGrown_mergeProperties (hbelow x hx) more
  · exact h

/-- What holds of all pairs and declarations, and does not depend on the properties of contexts,
holds of the reconciled entries. -/
theorem forall_mem_apply {P : Entry → Prop} (hP : ∀ decl pair, P pair → P (Plan.absorb decl pair))
    {plan : Plan} {pairs decls : List Entry} (hpairs : ∀ e ∈ pairs, P e)
    (hdecls : ∀ e ∈ decls, P e) : ∀ e ∈ plan.apply pairs decls, P e := by
  have htaken : ∀ (aimed : List (Entry × Option Nat)) (pairs : List Entry),
      (∀ e ∈ pairs, P e) → ∀ e ∈ aimed.foldl Plan.takeIn pairs, P e := by
    intro aimed
    induction aimed with
    | nil => exact fun pairs h => h
    | cons aim aimed ih =>
      intro pairs h
      refine ih _ fun e he => ?_
      obtain ⟨decl, target⟩ := aim
      cases target with
      | none => exact h e he
      | some j =>
        rw [Plan.takeIn, List.mem_iff_getElem?] at he
        obtain ⟨i, hi⟩ := he
        rw [List.getElem?_modify] at hi
        obtain ⟨pair, hpair, rfl⟩ := Option.map_eq_some_iff.1 hi
        have hold := h pair (List.mem_of_getElem? hpair)
        split_ifs
        · exact hP decl pair hold
        · exact hold
  intro e he
  rcases List.mem_append.1 he with he | he
  · exact htaken _ pairs hpairs e he
  · obtain ⟨⟨decl, target⟩, haimed, rfl⟩ := List.mem_map.1 he
    exact hdecls _ (List.of_mem_zip (List.mem_filter.1 haimed).1).1

/-! ## Containers -/

/-- A container returns what ordinary dispatch makes of some of its children, in order. -/
theorem visitSites_eq_ok {paired : Option Nat} {places : List Place} {entries : List Entry}
    (h : (w.visitSites paired (places.map w.site)).outcome = .ok entries) :
    ∃ cs, cs.Sublist places ∧
      List.Forall₂ (fun c e => (w.visit c).outcome = .ok (some e)) cs entries := by
  induction places generalizing paired entries with
  | nil =>
    cases h
    exact ⟨[], List.Sublist.refl _, .nil⟩
  | cons p places ih =>
    rw [List.map_cons, visitSites_cons] at h
    split_ifs at h
    · obtain ⟨cs, hcs, hvisits⟩ := ih h
      exact ⟨cs, hcs.cons p, hvisits⟩
    · obtain ⟨cs, hcs, hvisits⟩ := ih h
      exact ⟨cs, hcs.cons p, hvisits⟩
    · obtain ⟨found, -, h⟩ := Walk.outcome_bind_eq_ok_iff.1 h
      obtain ⟨entry, hentry, h⟩ := Walk.outcome_bind_eq_ok_iff.1 h
      obtain ⟨rest, hrest, h⟩ := Walk.outcome_bind_eq_ok_iff.1 h
      cases h
      obtain ⟨cs, hcs, hvisits⟩ := ih hrest
      cases entry with
      | none => exact ⟨cs, hcs.cons p, hvisits⟩
      | some e => exact ⟨p :: cs, hcs.cons_cons p, .cons hentry hvisits⟩

/-! ## Dispatch -/

/-- What the walks from a place return has grown below the root. -/
structure GrowsAt (w : Walker) (root p : Place) : Prop where
  visit : ∀ {e}, (w.visit p).outcome = .ok (some e) → w.Depicts p e ∧ w.FullyGrown root e
  context : ∀ {inherited e}, (w.visitContext p inherited).outcome = .ok (some e) →
    ∃ n ∈ p.subtree, w.Depicts n e ∧ w.FullyGrown root e
  comment : ∀ {e}, (w.visitComment p).outcome = .ok (some e) →
    w.Depicts p e ∧ w.FullyGrown root e

section Dispatch

variable {root p : Place}

theorem make_eq_ok_iff {tree : Tree} {payload : Payload} {found : Option Entry} :
    (w.make tree payload).outcome = .ok found ↔
      ∃ e, found = some e ∧ w.renderer.renderAs tree tree.kind payload = .ok e := by
  constructor
  · intro h
    obtain ⟨e, he, h⟩ := Walk.outcome_bind_eq_ok_iff.1 h
    cases h
    exact ⟨e, rfl, he⟩
  · rintro ⟨e, rfl, he⟩
    exact Walk.outcome_bind_eq_ok_iff.2 ⟨e, he, rfl⟩

/-- An entry whose children come from a container. -/
theorem grows_of_visitSites (hp : p ∈ root.subtree) {kind : String} (hmakes : w.Makes p kind)
    (hchildren : ∀ q ∈ p.children, w.GrowsAt root q) {places : List Place}
    (hplaces : places.Sublist p.children) {entries : List Entry}
    (hentries : (w.visitSites none (places.map w.site)).outcome = .ok entries)
    {payload : Payload} (hpayload : payload.entries = entries) (hcontext : payload.context = none)
    {e : Entry} (h : w.renderer.renderAs p.tree kind payload = .ok e) :
    w.Depicts p e ∧ w.FullyGrown root e := by
  obtain ⟨cs, hcs, hvisits⟩ := visitSites_eq_ok hentries
  have hsub := hcs.trans hplaces
  have hbelow : List.Forall₂ (fun e c => w.FullyGrown root e ∧ w.Depicts c e) entries cs := by
    have hgrow := (List.forall₂_and_left _ _).2 ⟨fun c hc => hchildren c (hsub.subset hc), hvisits⟩
    exact .flip (hgrow.imp fun c e h => (h.1.visit h.2).symm)
  obtain ⟨hgrown, hdepicts⟩ := (List.forall₂_and_left _ _).1 hbelow
  have hself := depicts_of_renderAs hmakes h
  have hrenders := Renderer.renderAs_eq_ok_iff.1 h
  have hparts := hrenders.children_eq.trans hpayload
  have hnone := hrenders.context_eq.trans hcontext
  refine ⟨hself, fullyGrown_of_context_none hp hself hnone (fun _ => ⟨cs, hsub, ?_⟩) ?_⟩
  · rw [hparts]
    exact hdepicts.flip
  · rw [hparts]
    exact hgrown

/-- A documentation comment is made with what context dispatch makes of its sibling. -/
theorem visitComment_eq_ok {found : Option Entry} (h : (w.visitComment p).outcome = .ok found)
    (hdoc : w.isDoc p = true) :
    ∃ context e, found = some e ∧
      w.renderer.renderAs p.tree p.tree.kind (.documented context) = .ok e ∧
      ∀ x, context = some x →
        ∃ q, w.documentedBy p = some q ∧ (w.visitContext q .empty).outcome = .ok (some x) := by
  rcases visitComment_cases h with ⟨hplain, -⟩ | ⟨-, context, hcontext, hmade⟩
  · rw [hdoc] at hplain
    cases hplain
  · obtain ⟨e, rfl, he⟩ := make_eq_ok_iff.1 hmade
    exact ⟨context, e, rfl, he, fun x hx => exists_of_documentedContext (hx ▸ hcontext)⟩

theorem grows_comment (hp : p ∈ root.subtree) (hafter : ∀ q ∈ p.after, w.GrowsAt root q)
    {e : Entry} (h : (w.visitComment p).outcome = .ok (some e)) :
    w.Depicts p e ∧ w.FullyGrown root e := by
  have hdoc := (visitComment_eq_some h).1
  obtain ⟨context, e', he', hmade, hcontext⟩ := visitComment_eq_ok h hdoc
  obtain rfl := Option.some.inj he'
  have hself := depicts_of_renderAs (.comment hdoc) hmade
  have hparts := (Renderer.renderAs_eq_ok_iff.1 hmade).children_eq
  have hshown := (Renderer.renderAs_eq_ok_iff.1 hmade).context_eq
  have hgrown : ∀ x, e.context = some x →
      ∃ q ∈ p.after, ∃ r ∈ q.subtree, w.Depicts r x ∧ w.FullyGrown root x := by
    intro x hx
    rw [hshown] at hx
    obtain ⟨q, hq, hvisit⟩ := hcontext x hx
    have hmem := mem_after_of_documentedBy hq
    exact ⟨q, hmem, (hafter q hmem).context hvisit⟩
  refine ⟨hself, fullyGrown_iff.2 ⟨?_, ?_, ?_⟩⟩
  · refine ⟨p, hp, hself, fun _ => ⟨[], List.nil_sublist _, ?_⟩, ?_⟩
    · rw [hparts]
      exact .nil
    · intro x hx
      obtain ⟨q, hq, r, hr, hdepicts, -⟩ := hgrown x hx
      exact ⟨hdoc, q, hq, r, hr, hdepicts⟩
  · rw [hparts]
    intro c hc
    cases hc
  · intro x hx
    obtain ⟨q, hq, r, hr, -, hfull⟩ := hgrown x hx
    exact hfull

theorem grows_program (hchildren : ∀ q ∈ p.children, w.GrowsAt root q)
    {entries : List Entry} (h : (w.visitProgram p).outcome = .ok entries) :
    ∀ e ∈ entries, w.FullyGrown root e := by
  obtain ⟨children, pairs, decls, hbody, hpairs, hdecls, rfl⟩ := visitProgram_eq_ok h
  have hsub := body_sublist hbody
  refine forall_mem_apply (P := w.FullyGrown root)
    (fun decl pair hpair => fullyGrown_absorb hpair decl) ?_ ?_
  · intro e he
    obtain ⟨q, hq, -, hpair⟩ := exists_of_mem_gather hpairs he
    rw [pairAt] at hpair
    cases hfound : (w.visitComment q).outcome with
    | error fault =>
      rw [hfound] at hpair
      cases hpair
    | ok found =>
      rw [hfound] at hpair
      obtain ⟨rfl, -⟩ := Option.filter_eq_some_iff.1 (Except.ok.inj hpair)
      exact ((hchildren q (hsub.subset hq)).comment hfound).2
  · intro e he
    obtain ⟨q, hq, -, hdecl⟩ := exists_of_mem_gather hdecls he
    obtain ⟨n, -, -, hfull⟩ := (hchildren q (hsub.subset hq)).context hdecl
    exact hfull

theorem grows_visit (hp : p ∈ root.subtree) (hchildren : ∀ q ∈ p.children, w.GrowsAt root q)
    (hcomment : ∀ {e}, (w.visitComment p).outcome = .ok (some e) →
      w.Depicts p e ∧ w.FullyGrown root e)
    {e : Entry} (h : (w.visit p).outcome = .ok (some e)) :
    w.Depicts p e ∧ w.FullyGrown root e := by
  rw [visit_eq, visitAt] at h
  split at h
  · obtain ⟨-, -, h⟩ := Walk.outcome_bind_eq_ok_iff.1 h
    cases h
  · rename_i hmissing
    have hpresent := Bool.eq_false_iff.2 hmissing
    obtain ⟨-, -, h⟩ := Walk.outcome_bind_eq_ok_iff.1 h
    split at h
    · rename_i hbucket
      have hmakes : w.Makes p p.tree.kind := .ordinary hpresent hbucket (by decide) (by decide)
      obtain ⟨entries, hentries, h⟩ := Walk.outcome_bind_eq_ok_iff.1 h
      obtain ⟨e', he', hmade⟩ := make_eq_ok_iff.1 h
      obtain rfl := Option.some.inj he'
      rw [← visitProgram_eq] at hentries
      have hself := depicts_of_renderAs hmakes hmade
      have hparts := (Renderer.renderAs_eq_ok_iff.1 hmade).children_eq
      have hnone := (Renderer.renderAs_eq_ok_iff.1 hmade).context_eq
      refine ⟨hself, fullyGrown_of_context_none hp hself hnone
        (fun hroot => absurd hbucket hroot) ?_⟩
      rw [hparts]
      exact grows_program hchildren hentries
    · exact hcomment h
    · obtain ⟨-, -, h⟩ := Walk.outcome_bind_eq_ok_iff.1 h
      cases h
    · rename_i hbucket
      have hmakes : w.Makes p p.tree.kind := .ordinary hpresent hbucket (by decide) (by decide)
      obtain ⟨entries, hentries, h⟩ := Walk.outcome_bind_eq_ok_iff.1 h
      obtain ⟨e', he', hmade⟩ := make_eq_ok_iff.1 h
      obtain rfl := Option.some.inj he'
      exact grows_of_visitSites hp hmakes hchildren (List.Sublist.refl _) hentries rfl rfl hmade
    · rename_i hbucket
      have hmakes : w.Makes p p.tree.kind := .ordinary hpresent hbucket (by decide) (by decide)
      obtain ⟨e', he', hmade⟩ := make_eq_ok_iff.1 h
      obtain rfl := Option.some.inj he'
      -- A token is a container of nothing.
      have hentries : (w.visitSites none ([].map w.site)).outcome = .ok [] := rfl
      exact grows_of_visitSites hp hmakes hchildren (List.nil_sublist _) hentries rfl rfl hmade
    · obtain ⟨-, -, h⟩ := Walk.outcome_bind_eq_ok_iff.1 h
      cases h

theorem grows_declaration (hp : p ∈ root.subtree) (hchildren : ∀ q ∈ p.children, w.GrowsAt root q)
    {rule : Rule} (hmakes : w.Makes p rule.entryKind) {inherited : Properties} {e : Entry}
    (h : (w.declarationAt p.tree rule (p.children.map w.site) inherited).outcome = .ok (some e)) :
    w.Depicts p e ∧ w.FullyGrown root e := by
  unfold declarationAt at h
  simp only [List.eraseP_map, Function.comp_def, site_kind] at h
  obtain ⟨entries, hentries, h⟩ := Walk.outcome_bind_eq_ok_iff.1 h
  obtain ⟨e', hmade, h⟩ := Walk.outcome_bind_eq_ok_iff.1 h
  cases h
  rw [Walk.outcome_lift] at hmade
  exact grows_of_visitSites hp hmakes hchildren List.eraseP_sublist hentries rfl rfl hmade

theorem grows_exporter (hp : p ∈ root.subtree) (hchildren : ∀ q ∈ p.children, w.GrowsAt root q)
    {rule : Rule} (hrule : w.table.rule? p.tree.kind = some rule) (hrole : rule.role = .exporter)
    {inherited : Properties} {e : Entry}
    (h : (w.exporterAt p.tree (p.children.map w.site) inherited).outcome = .ok (some e)) :
    ∃ n ∈ p.subtree, w.Depicts n e ∧ w.FullyGrown root e := by
  unfold exporterAt at h
  simp only [List.find?_map, List.filter_map, Function.comp_def] at h
  cases hchild : w.exportedChild p with
  | some q =>
    rw [exportedChild] at hchild
    simp only [hchild, Option.map_some, site_context] at h
    have hq := List.mem_of_find?_eq_some hchild
    obtain ⟨n, hn, hgrows⟩ := (hchildren q hq).context h
    exact ⟨n, Place.mem_subtree_of_child hq hn, hgrows⟩
  | none =>
    have hmakes : w.Makes p p.tree.kind := .exporter hrule hrole hchild
    rw [exportedChild] at hchild
    simp only [hchild, Option.map_none] at h
    obtain ⟨entries, hentries, h⟩ := Walk.outcome_bind_eq_ok_iff.1 h
    obtain ⟨e', he', hmade⟩ := make_eq_ok_iff.1 h
    obtain rfl := Option.some.inj he'
    exact ⟨p, p.mem_subtree_self,
      grows_of_visitSites hp hmakes hchildren List.filter_sublist hentries rfl rfl hmade⟩

theorem grows_context (hp : p ∈ root.subtree) (hchildren : ∀ q ∈ p.children, w.GrowsAt root q)
    (hcomment : ∀ {e}, (w.visitComment p).outcome = .ok (some e) →
      w.Depicts p e ∧ w.FullyGrown root e)
    {inherited : Properties} {e : Entry}
    (h : (w.visitContext p inherited).outcome = .ok (some e)) :
    ∃ n ∈ p.subtree, w.Depicts n e ∧ w.FullyGrown root e := by
  have hself : ∀ {e}, w.Depicts p e ∧ w.FullyGrown root e →
      ∃ n ∈ p.subtree, w.Depicts n e ∧ w.FullyGrown root e :=
    fun h => ⟨p, p.mem_subtree_self, h⟩
  rw [visitContext_eq, contextAt] at h
  split at h
  · cases h
  split at h
  · exact hself (grows_visit hp hchildren hcomment h)
  rename_i rule hrule
  obtain ⟨-, -, h⟩ := Walk.outcome_bind_eq_ok_iff.1 h
  cases hrole : rule.role with
  | comment =>
    rw [hrole] at h
    exact hself (hcomment h)
  | exporter =>
    rw [hrole] at h
    exact grows_exporter hp hchildren hrule hrole h
  | wrapper =>
    simp only [hrole, wrapperAt, List.find?_map, Function.comp_def, site_kind] at h
    cases hchild : w.wrappedChild rule p with
    | some q =>
      rw [wrappedChild] at hchild
      simp only [hchild, Option.map_some, site_context] at h
      have hq := List.mem_of_find?_eq_some hchild
      obtain ⟨n, hn, hgrows⟩ := (hchildren q hq).context h
      exact ⟨n, Place.mem_subtree_of_child hq hn, hgrows⟩
    | none =>
      rw [wrappedChild] at hchild
      simp only [hchild, Option.map_none] at h
      exact hself (grows_visit hp hchildren hcomment h)
  | declaration =>
    rw [hrole] at h
    exact hself (grows_declaration hp hchildren (.declaration hrule (.inl hrole)) h)
  | nameSpace =>
    rw [hrole] at h
    exact hself (grows_declaration hp hchildren (.declaration hrule (.inr (.inl hrole))) h)
  | ambientModule =>
    rw [hrole] at h
    exact hself (grows_declaration hp hchildren (.declaration hrule (.inr (.inr hrole))) h)

end Dispatch

/-! ## Whole trees -/

/-- The siblings after a node of a tree belong to the tree. -/
theorem growsAt_of_mem_subtree (w : Walker) {tree : Tree} (p : Place) :
    p ∈ (Place.ofRoot tree).subtree → w.GrowsAt (.ofRoot tree) p := by
  induction p using Place.induction with
  | step p children after =>
    intro hp
    have hbelow : ∀ q ∈ p.children, w.GrowsAt (.ofRoot tree) q :=
      fun q hq => children q hq (Place.mem_subtree_of_mem_children hp hq)
    have hlater : ∀ q ∈ p.after, w.GrowsAt (.ofRoot tree) q :=
      fun q hq => after q hq (Place.mem_subtree_ofRoot_of_mem_after hp hq)
    have hcomment := fun {e} => grows_comment (e := e) hp hlater
    exact ⟨grows_visit hp hbelow hcomment, grows_context hp hbelow hcomment, hcomment⟩

/-- **Every entry of an outline depicts a node of the tree**, and so on all the way down. -/
theorem grown_of_visitRoot {tree : Tree} {entries : List Entry}
    (h : (w.visitRoot (.ofRoot tree)).outcome = .ok entries) {m : Entry}
    (hm : m ∈ Entry.preorderList entries) : w.Grown (.ofRoot tree) m := by
  obtain ⟨e, he, hme⟩ := Entry.mem_preorderList.1 hm
  have hroot := (Place.ofRoot tree).mem_subtree_self
  unfold visitRoot at h
  split at h
  · refine grows_program (fun q hq => ?_) h e he m hme
    exact w.growsAt_of_mem_subtree q (Place.mem_subtree_of_mem_children hroot hq)
  · obtain ⟨found, hfound, h⟩ := Walk.outcome_bind_eq_ok_iff.1 h
    cases h
    rw [Option.mem_toList] at he
    subst he
    exact ((w.growsAt_of_mem_subtree _ hroot).visit hfound).2 m hme

end Walker

end DocOutline
