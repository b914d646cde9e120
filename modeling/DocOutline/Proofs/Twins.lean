import DocOutline.Proofs.Alike
import DocOutline.Proofs.Matching
import DocOutline.Proofs.Rows
import DocOutline.Proofs.Tasks

/-!
# Two walks side by side

Two walks over corresponding nodes are alike if nothing that a walk looks at tells the nodes
apart. `Walker.Twins` collects what has to be the same: the walkers differ in their renderers
only, corresponding nodes differ in their descendants only, and in the rows of their children and
siblings the nodes correspond one to one, except that the first tree may have plain comments which
the second one has not.

From this it follows by induction over the places that all walks from corresponding places are
alike, with entries that match (`Walker.Twins.alikeAt`). What the entries have in common
is left open: they may be equal, or only moved.
-/

namespace DocOutline

/-! ## What depends on a node alone -/

namespace Tree

/-- A comment that is there, can be read, and is no documentation. -/
def isPlain (tree : Tree) (source : Source) : Bool :=
  !tree.missing && tree.isComment &&
    match tree.isDocumentation source with
    | .ok answer => !answer
    | .error _ => false

theorem isPlain_iff {tree : Tree} {source : Source} :
    tree.isPlain source = true ↔ tree.missing = false ∧ tree.isComment = true ∧
      tree.isDocumentation source = .ok false := by
  unfold isPlain
  cases tree.isDocumentation source with
  | error fault => simp
  | ok answer => cases answer <;> simp

theorem isDocumentation_eq {tree tree' : Tree} (h : tree.info = tree'.info) (source : Source) :
    tree.isDocumentation source = tree'.isDocumentation source := by
  obtain ⟨info, children⟩ := tree
  obtain ⟨info', children'⟩ := tree'
  obtain rfl : info = info' := h
  rfl

theorem isLegal_eq {tree tree' : Tree} (h : tree.info = tree'.info) (source : Source) :
    tree.isLegal source = tree'.isLegal source := by
  obtain ⟨info, children⟩ := tree
  obtain ⟨info', children'⟩ := tree'
  obtain rfl : info = info' := h
  rfl

end Tree

theorem Diagnostic.forNode_eq {tree tree' : Tree} (h : tree.info = tree'.info) (source : Source)
    (kind : DiagnosticKind) :
    Diagnostic.forNode source tree kind = Diagnostic.forNode source tree' kind := by
  obtain ⟨info, children⟩ := tree
  obtain ⟨info', children'⟩ := tree'
  obtain rfl : info = info' := h
  rfl

theorem Renderer.renderAs_eq {tree tree' : Tree} (h : tree.info = tree'.info)
    (renderer : Renderer) (kind : String) (payload : Payload) :
    renderer.renderAs tree kind payload = renderer.renderAs tree' kind payload := by
  obtain ⟨info, children⟩ := tree
  obtain ⟨info', children'⟩ := tree'
  obtain rfl : info = info' := h
  rfl

theorem Table.inheritance?_eq (table : Table) (tree : Tree) :
    table.inheritance? tree =
      if tree.kind = extendsKind then some ⟨true, false⟩
      else if tree.kind = implementsKind then some ⟨false, true⟩
      else if table.isHeritage tree.kind then table.inheritanceIn? tree.children
      else none := by
  cases tree
  rw [Table.inheritance?]
  rfl

/-- A walk may look below nodes of this kind. -/
def Table.looksInto (table : Table) (kind : String) : Bool :=
  table.bucket? kind == some .root || table.bucket? kind == some .nonTerminal ||
    table.isDeclaration kind || table.isHeritage kind

/-- Payloads whose entries match. -/
inductive Payload.Matches (Same : Entry → Entry → Prop) : Payload → Payload → Prop
  | leaf : Matches Same .leaf .leaf
  | children {entries entries' : List Entry} (h : List.Forall₂ Same entries entries') :
    Matches Same (.children entries) (.children entries')
  | declaration {entries entries' : List Entry} (h : List.Forall₂ Same entries entries')
    (properties : Properties) :
    Matches Same (.declaration entries properties) (.declaration entries' properties)
  | documented {context context' : Option Entry} (h : Option.Rel Same context context') :
    Matches Same (.documented context) (.documented context')

theorem Payload.Matches.eq {payload payload' : Payload} (h : Payload.Matches Eq payload payload') :
    payload = payload' := by
  cases h with
  | leaf => rfl
  | children h => rw [List.forall₂_eq_eq_eq] at h; rw [h]
  | declaration h properties => rw [List.forall₂_eq_eq_eq] at h; rw [h]
  | documented h =>
    cases h with
    | none => rfl
    | some h => rw [h]

/-! ## Twins -/

namespace Walker

/-- Two walkers that do the same at corresponding nodes. `Kept` says which nodes correspond, `Plain`
which nodes of the first tree are not in the second, and `Same` which entries match. -/
structure Twins (tol : Tolerance) (w w' : Walker) (Kept : Place → Place → Prop)
    (Plain : Place → Prop) (Same : Entry → Entry → Prop) : Prop where
  table : w'.table = w.table
  source : w'.source = w.source
  stripHeader : w'.stripHeader = w.stripHeader
  info : ∀ {p q}, Kept p q → p.tree.info = q.tree.info
  children : ∀ {p q}, Kept p q → w.table.looksInto p.tree.kind = true →
    Rows Kept Plain p.children q.children
  after : ∀ {p q}, Kept p q → Rows Kept Plain p.after q.after
  plain : ∀ {p}, Plain p → p.tree.isPlain w.source = true
  /-- Only the tables of the languages are known to have no special use for comments. -/
  language : ∀ {p}, Plain p → ∃ language : Language, w.table = language.table
  /-- What is first in a program matters if the header is stripped. -/
  header : w.stripHeader = true → ∀ p, ¬ Plain p
  topLevel : ∀ {c c' p q}, Kept c c' → c.tree.kind = rootKind → p ∈ c.children →
    q ∈ c'.children → Kept p q → w.table.isTopLevel p.tree = w.table.isTopLevel q.tree
  matching : Matching Same
  render : ∀ {p q payload payload'}, Kept p q → Payload.Matches Same payload payload' → ∀ kind,
    Agree tol Same (w.renderer.renderAs p.tree kind payload)
      (w'.renderer.renderAs q.tree kind payload')

namespace Twins

variable {tol : Tolerance} {w w' : Walker} {Kept : Place → Place → Prop} {Plain : Place → Prop}
  {Same : Entry → Entry → Prop}

section Nodes

variable {p q : Place}

theorem kind_eq (h : Twins tol w w' Kept Plain Same) (hpq : Kept p q) :
    p.tree.kind = q.tree.kind :=
  congrArg NodeInfo.kind (h.info hpq)

theorem missing_eq (h : Twins tol w w' Kept Plain Same) (hpq : Kept p q) :
    p.tree.missing = q.tree.missing :=
  congrArg NodeInfo.missing (h.info hpq)

theorem isComment_eq (h : Twins tol w w' Kept Plain Same) (hpq : Kept p q) :
    p.tree.isComment = q.tree.isComment := by
  rw [Tree.isComment, Tree.isComment, h.kind_eq hpq]

theorem isDocumentation_eq (h : Twins tol w w' Kept Plain Same) (hpq : Kept p q) :
    p.tree.isDocumentation w.source = q.tree.isDocumentation w'.source := by
  rw [h.source, Tree.isDocumentation_eq (h.info hpq)]

theorem kind_of_plain (h : Twins tol w w' Kept Plain Same) (hp : Plain p) :
    p.tree.kind = commentKind :=
  beq_iff_eq.1 (Tree.isPlain_iff.1 (h.plain hp)).2.1

/-- A plain comment leaves no trace. -/
theorem visitComment_of_plain (h : Twins tol w w' Kept Plain Same) (hp : Plain p) :
    (w.visitComment p).outcome = .ok none ∧ (w.visitComment p).diagnostics = [] := by
  obtain ⟨-, -, hdoc⟩ := Tree.isPlain_iff.1 (h.plain hp)
  rw [visitComment_eq, hdoc]
  exact ⟨rfl, rfl⟩

theorem visit_of_plain (h : Twins tol w w' Kept Plain Same) (hp : Plain p) :
    (w.visit p).outcome = .ok none ∧ (w.visit p).diagnostics = [] := by
  obtain ⟨hmissing, hcomment, -⟩ := Tree.isPlain_iff.1 (h.plain hp)
  obtain ⟨houtcome, hdiagnostics⟩ := h.visitComment_of_plain hp
  rw [visit_eq, visitAt, hmissing, w.table.bucket?_of_isComment hcomment]
  refine ⟨?_, ?_⟩
  · exact Walk.outcome_bind_eq_ok_iff.2 ⟨(), rfl, houtcome⟩
  · simp only [Bool.false_eq_true, if_false]
    rw [Walk.diagnostics_bind_ok (a := ()) rfl, hdiagnostics]
    rfl

theorem report (h : Twins tol w w' Kept Plain Same) (hpq : Kept p q) (kind : DiagnosticKind) :
    Walk.Alike tol Eq (w.report p.tree kind) (w'.report q.tree kind) := by
  unfold Walker.report
  rw [h.source, Diagnostic.forNode_eq (h.info hpq)]
  refine .bind (.lift (.refl (fun _ => rfl) _)) fun d d' _ _ hd => ?_
  subst hd
  exact (Walk.Alike.leave _).mono fun _ _ _ => rfl

theorem make (h : Twins tol w w' Kept Plain Same) (hpq : Kept p q) {payload payload' : Payload}
    (hpayload : Payload.Matches Same payload payload') :
    Walk.Alike tol (Option.Rel Same) (w.make p.tree payload) (w'.make q.tree payload') := by
  unfold Walker.make Renderer.render
  rw [← h.kind_eq hpq]
  refine .bind (.lift (h.render hpq hpayload _)) fun e e' _ _ he => ?_
  exact .pure (.some he)

end Nodes

/-! ## Marks -/

section Rows

variable {c c' : Place}

/-- Two marks on a row are on the same node, if one of the nodes is no comment. -/
theorem index_eq_iff (h : Twins tol w w' Kept Plain Same) {d e p q : Place}
    (hd : d ∈ c.children) (he : e ∈ c'.children) (hp : p ∈ c.children) (hq : q ∈ c'.children)
    (hde : Kept d e) (hpq : Kept p q)
    (hcomment : d.tree.isComment = false ∨ p.tree.isComment = false) :
    d.index = p.index ↔ e.index = q.index := by
  have hrank : ∀ {p q}, Kept p q → p.rank = q.rank := fun hpq =>
    (h.after hpq).countP_eq (fun p q hpq => by rw [h.isComment_eq hpq]) fun p hp => by
      rw [(Tree.isPlain_iff.1 (h.plain hp)).2.1]
      rfl
  by_cases heq : d.tree.isComment = p.tree.isComment
  · have hcd : d.tree.isComment = false := hcomment.elim id heq.trans
    have hcp : p.tree.isComment = false := heq.symm.trans hcd
    rw [Place.index_eq_iff_rank_eq hd hp hcd hcp, hrank hde, hrank hpq]
    exact (Place.index_eq_iff_rank_eq he hq ((h.isComment_eq hde).symm.trans hcd)
      ((h.isComment_eq hpq).symm.trans hcp)).symm
  · refine ⟨fun hindex => absurd ?_ heq, fun hindex => absurd ?_ heq⟩
    · rw [Place.eq_of_index_eq hd hp hindex]
    · rw [h.isComment_eq hde, h.isComment_eq hpq, Place.eq_of_index_eq he hq hindex]

/-- Sites of corresponding nodes of two rows. -/
inductive Sites (w w' : Walker) (Kept : Place → Place → Prop) (ps qs : List Place) :
    Option Site → Option Site → Prop
  | none : Sites w w' Kept ps qs none none
  | some {d e : Place} (hd : d ∈ ps) (he : e ∈ qs) (hde : Kept d e) :
    Sites w w' Kept ps qs (some (w.site d)) (some (w'.site e))

theorem Sites.mono {ps ps' qs qs' : List Place} {a b : Option Site} (hps : ps ⊆ ps')
    (hqs : qs ⊆ qs') (h : Sites w w' Kept ps qs a b) : Sites w w' Kept ps' qs' a b := by
  cases h with
  | none => exact .none
  | some hd he hde => exact .some (hps hd) (hqs he) hde

theorem documented? (h : Twins tol w w' Kept Plain Same) {ps qs : List Place}
    (hrows : Rows Kept Plain ps qs) :
    Agree tol (Sites w w' Kept ps qs) (w.documented? (ps.map w.site))
      (w'.documented? (qs.map w'.site)) := by
  induction hrows with
  | nil => exact Sites.none
  | @keep p q ps qs hpq _ ih =>
    have hnext := ih.mono fun a b _ _ hab =>
      hab.mono (List.subset_cons_self p ps) (List.subset_cons_self q qs)
    have hself : Sites w w' Kept (p :: ps) (q :: qs) (some (w.site p)) (some (w'.site q)) :=
      .some List.mem_cons_self List.mem_cons_self hpq
    simp only [List.map_cons, Walker.documented?, site_tree]
    rw [← h.isComment_eq hpq]
    split_ifs
    · rw [h.isDocumentation_eq hpq]
      refine .bind (.refl (fun _ => rfl) _) fun answer answer' _ _ heq => ?_
      subst heq
      cases answer with
      | true => exact hself
      | false => exact hnext
    · exact hself
  | @drop p ps qs hp _ ih =>
    obtain ⟨-, hcomment, hdoc⟩ := Tree.isPlain_iff.1 (h.plain hp)
    simp only [List.map_cons, Walker.documented?, site_tree, hcomment, if_true, hdoc]
    exact ih.mono fun a b _ _ hab => hab.mono (List.subset_cons_self p ps) (List.Subset.refl qs)

theorem declared? (h : Twins tol w w' Kept Plain Same) {ps qs : List Place}
    (hrows : Rows Kept Plain ps qs) :
    Agree tol (Sites w w' Kept ps qs) (w.declared? (ps.map w.site))
      (w'.declared? (qs.map w'.site)) := by
  induction hrows with
  | nil => exact Sites.none
  | @keep p q ps qs hpq _ ih =>
    simp only [List.map_cons, Walker.declared?, site_tree]
    rw [← h.isComment_eq hpq]
    split_ifs
    · rw [h.isDocumentation_eq hpq]
      refine .bind (.refl (fun _ => rfl) _) fun _ _ _ _ _ => ih.mono fun a b _ _ hab => ?_
      exact hab.mono (List.subset_cons_self p ps) (List.subset_cons_self q qs)
    · exact Sites.some List.mem_cons_self List.mem_cons_self hpq
  | @drop p ps qs hp _ ih =>
    obtain ⟨-, hcomment, hdoc⟩ := Tree.isPlain_iff.1 (h.plain hp)
    simp only [List.map_cons, Walker.declared?, site_tree, hcomment, if_true, hdoc]
    exact ih.mono fun a b _ _ hab => hab.mono (List.subset_cons_self p ps) (List.Subset.refl qs)

/-- Marks on corresponding children that are no comments. -/
inductive Marks (Kept : Place → Place → Prop) (c c' : Place) : Option Nat → Option Nat → Prop
  | none : Marks Kept c c' none none
  | some {d e : Place} (hd : d ∈ c.children) (he : e ∈ c'.children) (hde : Kept d e)
    (hcomment : d.tree.isComment = false) : Marks Kept c c' (some d.index) (some e.index)

theorem Marks.eq_some_iff (h : Twins tol w w' Kept Plain Same) {m m' : Option Nat}
    (hmarks : Marks Kept c c' m m') {p q : Place} (hp : p ∈ c.children) (hq : q ∈ c'.children)
    (hpq : Kept p q) : m = .some p.index ↔ m' = .some q.index := by
  cases hmarks with
  | none => simp
  | some hd he hde hcomment =>
    simp only [Option.some.injEq]
    exact h.index_eq_iff hd he hp hq hde hpq (.inl hcomment)

theorem pairedAfter (h : Twins tol w w' Kept Plain Same) {m m' : Option Nat}
    (hmarks : Marks Kept c c' m m') {p q : Place} (hp : p ∈ c.children) (hq : q ∈ c'.children)
    (hpq : Kept p q) :
    Agree tol (Marks Kept c c') (w.pairedAfter m p) (w'.pairedAfter m' q) := by
  unfold Walker.pairedAfter
  rw [h.isDocumentation_eq hpq]
  refine .bind (.refl (fun _ => rfl) _) fun answer answer' _ _ heq => ?_
  subst heq
  cases answer with
  | false => exact hmarks
  | true =>
    refine .bind (h.declared? (h.after hpq)) fun a b ha _ hab => ?_
    cases hab with
    | none => exact Marks.none
    | @some d e hd he hde =>
      obtain ⟨d', hd', hsite⟩ := Option.map_eq_some_iff.1 (declared?_eq_ok ha).symm
      have hcomment := List.find?_some hd'
      rw [← site_tree w d', hsite, site_tree, Bool.not_eq_true'] at hcomment
      simp only [Option.map_some, site_index]
      exact Marks.some (Place.mem_row_of_mem_after hp hd) (Place.mem_row_of_mem_after hq he) hde
        hcomment

theorem forall₂_toList_append {found found' : Option Entry} {entries entries' : List Entry}
    (hfound : Option.Rel Same found found') (hentries : List.Forall₂ Same entries entries') :
    List.Forall₂ Same (found.toList ++ entries) (found'.toList ++ entries') := by
  cases hfound with
  | none => exact hentries
  | some hentry => exact .cons hentry hentries

/-- Containers with corresponding children are alike. -/
theorem visitSites (h : Twins tol w w' Kept Plain Same) {ps qs : List Place}
    (hrows : Rows Kept Plain ps qs) (hps : ∀ p ∈ ps, p ∈ c.children)
    (hqs : ∀ q ∈ qs, q ∈ c'.children)
    (hvisit : ∀ p ∈ ps, ∀ q, Kept p q →
      Walk.Alike tol (Option.Rel Same) (w.visit p) (w'.visit q))
    {m m' : Option Nat} (hmarks : Marks Kept c c' m m') :
    Walk.Alike tol (List.Forall₂ Same) (w.visitSites m (ps.map w.site))
      (w'.visitSites m' (qs.map w'.site)) := by
  induction hrows generalizing m m' with
  | nil => exact .pure .nil
  | @keep p q ps qs hpq _ ih =>
    have hp := hps p List.mem_cons_self
    have hq := hqs q List.mem_cons_self
    have hrest : ∀ {m m'}, Marks Kept c c' m m' → Walk.Alike tol (List.Forall₂ Same)
        (w.visitSites m (ps.map w.site)) (w'.visitSites m' (qs.map w'.site)) :=
      ih (fun r hr => hps r (List.mem_cons_of_mem p hr))
        (fun r hr => hqs r (List.mem_cons_of_mem q hr))
        fun r hr => hvisit r (List.mem_cons_of_mem p hr)
    have hmark := hmarks.eq_some_iff h hp hq hpq
    rw [List.map_cons, List.map_cons, visitSites_cons, visitSites_cons, ← h.missing_eq hpq,
      ← h.kind_eq hpq]
    split_ifs with hnoise hm hm' hm'
    · exact hrest hmarks
    · exact hrest hmarks
    · exact absurd (hmark.1 hm) hm'
    · exact absurd (hmark.2 hm') hm
    · refine .bind (.lift (h.pairedAfter hmarks hp hq hpq)) fun _ _ _ _ hmarks' => ?_
      refine .bind (hvisit p List.mem_cons_self q hpq) fun _ _ _ _ hentry => ?_
      refine .bind (hrest hmarks') fun _ _ _ _ hentries => ?_
      exact .pure (forall₂_toList_append hentry hentries)
  | @drop p ps qs hp _ ih =>
    have hrest := ih (fun r hr => hps r (List.mem_cons_of_mem p hr)) hqs
      (fun r hr => hvisit r (List.mem_cons_of_mem p hr)) hmarks
    obtain ⟨-, -, hdoc⟩ := Tree.isPlain_iff.1 (h.plain hp)
    obtain ⟨houtcome, hsilent⟩ := h.visit_of_plain hp
    rw [List.map_cons, visitSites_cons]
    split_ifs with hnoise hm
    · exact hrest
    · exact hrest
    · have hpaired : w.pairedAfter m p = .ok m := by
        unfold Walker.pairedAfter
        rw [hdoc]
        rfl
      refine .silent_left hpaired rfl (.silent_left houtcome hsilent ?_)
      show Walk.Alike tol _ (w.visitSites m (ps.map w.site) >>= fun entries => pure entries) _
      rwa [bind_pure]

/-! ## Programs -/

/-- Corresponding children with contexts that match. -/
inductive Latest (Kept : Place → Place → Prop) (Same : Entry → Entry → Prop) (c c' : Place) :
    Option (Nat × Entry) → Option (Nat × Entry) → Prop
  | none : Latest Kept Same c c' none none
  | some {d e : Place} {context context' : Entry} (hd : d ∈ c.children) (he : e ∈ c'.children)
    (hde : Kept d e) (hcontext : Same context context') :
    Latest Kept Same c c' (some (d.index, context)) (some (e.index, context'))

theorem declAt (h : Twins tol w w' Kept Plain Same) {latest latest' : Option (Nat × Entry)}
    (hlatest : Latest Kept Same c c' latest latest') {p q : Place} (hp : p ∈ c.children)
    (hq : q ∈ c'.children) (hpq : Kept p q) (hcomment : p.tree.isComment = false)
    (hcontext : Walk.Alike tol (Option.Rel Same) (w.visitContext p .empty)
      (w'.visitContext q .empty)) :
    Walk.Alike tol (Option.Rel Same) (w.declAt latest p) (w'.declAt latest' q) := by
  unfold Walker.declAt
  cases hlatest with
  | none => exact hcontext
  | @some d e _ _ hd he hde hsame =>
    have hindex := h.index_eq_iff hd he hp hq hde hpq (.inr hcomment)
    simp only [Option.filter_some, beq_iff_eq, hindex]
    split_ifs
    · exact .pure (.some hsame)
    · exact hcontext

/-- Pairs and declarations that match, each in order. -/
def Collected (Same : Entry → Entry → Prop) (a b : List Entry × List Entry) : Prop :=
  List.Forall₂ Same a.1 b.1 ∧ List.Forall₂ Same a.2 b.2

theorem collect (h : Twins tol w w' Kept Plain Same) (hc : Kept c c')
    (hroot : c.tree.kind = rootKind) {ps qs : List Place} (hrows : Rows Kept Plain ps qs)
    (hps : ∀ p ∈ ps, p ∈ c.children) (hqs : ∀ q ∈ qs, q ∈ c'.children)
    (hcomment : ∀ p ∈ ps, ∀ q, Kept p q →
      Walk.Alike tol (Option.Rel Same) (w.visitComment p) (w'.visitComment q))
    (hcontext : ∀ p ∈ ps, ∀ q, Kept p q →
      Walk.Alike tol (Option.Rel Same) (w.visitContext p .empty) (w'.visitContext q .empty))
    {latest latest' : Option (Nat × Entry)} (hlatest : Latest Kept Same c c' latest latest') :
    Walk.Alike tol (Collected Same) (w.collect latest (ps.map w.site))
      (w'.collect latest' (qs.map w'.site)) := by
  induction hrows generalizing latest latest' with
  | nil => exact .pure ⟨.nil, .nil⟩
  | @keep p q ps qs hpq _ ih =>
    have hp := hps p List.mem_cons_self
    have hq := hqs q List.mem_cons_self
    have hrest : ∀ {latest latest'}, Latest Kept Same c c' latest latest' →
        Walk.Alike tol (Collected Same) (w.collect latest (ps.map w.site))
          (w'.collect latest' (qs.map w'.site)) :=
      ih (fun r hr => hps r (List.mem_cons_of_mem p hr))
        (fun r hr => hqs r (List.mem_cons_of_mem q hr))
        (fun r hr => hcomment r (List.mem_cons_of_mem p hr))
        fun r hr => hcontext r (List.mem_cons_of_mem p hr)
    rw [List.map_cons, List.map_cons, collect_cons, collect_cons, ← h.missing_eq hpq,
      ← h.kind_eq hpq, ← h.isComment_eq hpq, h.table, ← h.topLevel hc hroot hp hq hpq]
    split_ifs with hfault hcommentAt htop
    · exact .bind (h.report hpq _) fun _ _ _ _ _ => hrest hlatest
    · refine .bind (hcomment p List.mem_cons_self q hpq) fun found found' _ _ hfound => ?_
      cases hfound with
      | none => exact hrest hlatest
      | @some pair pair' hpair =>
        have hcontext' := h.matching.context hpair
        simp only [Option.bind_some]
        generalize pair.context = context, pair'.context = context' at hcontext'
        cases hcontext' with
        | none => exact hrest hlatest
        | some hsame =>
          refine .bind (.lift (h.documented? (h.after hpq))) fun next next' _ _ hnext => ?_
          refine .bind (hrest ?_) fun _ _ _ _ hcollected =>
            .pure ⟨.cons hpair hcollected.1, hcollected.2⟩
          cases hnext with
          | none => exact .none
          | some hd he hde =>
            simp only [Option.map_some, site_index]
            exact .some (Place.mem_row_of_mem_after hp hd) (Place.mem_row_of_mem_after hq he) hde
              hsame
    · have hdecl := h.declAt hlatest hp hq hpq (Bool.eq_false_iff.2 hcommentAt)
        (hcontext p List.mem_cons_self q hpq)
      refine .bind hdecl fun _ _ _ _ hdecl => .bind (hrest hlatest) fun _ _ _ _ hcollected => ?_
      exact .pure ⟨hcollected.1, forall₂_toList_append hdecl hcollected.2⟩
    · exact hrest hlatest
  | @drop p ps qs hp _ ih =>
    have hrest := ih (fun r hr => hps r (List.mem_cons_of_mem p hr)) hqs
      (fun r hr => hcomment r (List.mem_cons_of_mem p hr))
      (fun r hr => hcontext r (List.mem_cons_of_mem p hr)) hlatest
    obtain ⟨hmissing, hcommentAt, -⟩ := Tree.isPlain_iff.1 (h.plain hp)
    obtain ⟨houtcome, hsilent⟩ := h.visitComment_of_plain hp
    rw [List.map_cons, collect_cons, hmissing, w.table.bucket?_of_isComment hcommentAt, hcommentAt]
    exact .silent_left houtcome hsilent hrest

theorem body (h : Twins tol w w' Kept Plain Same)
    (hrows : Rows Kept Plain c.children c'.children) :
    Agree tol (Rows Kept Plain) (w.body c) (w'.body c') := by
  unfold Walker.body
  rw [h.stripHeader]
  split_ifs with hstrip
  · -- Nothing is left out of the first tree, so both have the same header.
    have hplain : ∀ p, Plain p → (p.tree.kind == hashBangKind) = true :=
      fun p hp => absurd hp (h.header hstrip p)
    have hkept : ∀ p q, Kept p q → (p.tree.kind == hashBangKind) = (q.tree.kind == hashBangKind) :=
      fun p q hpq => by rw [h.kind_eq hpq]
    have htake := hrows.takeWhile hkept hplain
    have hdrop := hrows.dropWhile hkept hplain
    generalize c.children.dropWhile (·.tree.kind == hashBangKind) = ps,
      c'.children.dropWhile (·.tree.kind == hashBangKind) = qs at hdrop
    cases hdrop with
    | nil => exact hrows
    | drop hp _ => exact absurd hp (h.header hstrip _)
    | keep hpq hrest =>
      simp only [h.source, Tree.isLegal_eq (h.info hpq)]
      refine .bind (.refl (fun _ => rfl) _) fun legal legal' _ _ heq => ?_
      subst heq
      cases legal with
      | true => exact htake.append hrest
      | false => exact hrows
  · exact hrows

theorem reconciled (h : Twins tol w w' Kept Plain Same) {pairs pairs' decls decls' : List Entry}
    (hpairs : List.Forall₂ Same pairs pairs') (hdecls : List.Forall₂ Same decls decls') :
    Walk.Alike tol (List.Forall₂ Same) (w.reconciled pairs decls)
      (w'.reconciled pairs' decls') := by
  refine ⟨h.matching.apply_make hpairs hdecls, fun _ => ?_⟩
  rw [diagnostics_reconciled, diagnostics_reconciled]

theorem visitProgram (h : Twins tol w w' Kept Plain Same) (hc : Kept c c')
    (hroot : c.tree.kind = rootKind)
    (hcomment : ∀ p ∈ c.children, ∀ q, Kept p q →
      Walk.Alike tol (Option.Rel Same) (w.visitComment p) (w'.visitComment q))
    (hcontext : ∀ p ∈ c.children, ∀ q, Kept p q →
      Walk.Alike tol (Option.Rel Same) (w.visitContext p .empty) (w'.visitContext q .empty)) :
    Walk.Alike tol (List.Forall₂ Same) (w.visitProgram c) (w'.visitProgram c') := by
  have hlooks : w.table.looksInto c.tree.kind = true := by
    rw [hroot]
    rfl
  have hsites : Walk.Alike tol (fun sites sites' => ∃ ps qs, w.body c = .ok ps ∧
      w'.body c' = .ok qs ∧ Rows Kept Plain ps qs ∧ sites = ps.map w.site ∧
      sites' = qs.map w'.site) (w.bodySites c) (w'.bodySites c') := by
    refine ⟨?_, fun _ => by rw [diagnostics_bodySites, diagnostics_bodySites]⟩
    rw [outcome_bodySites, outcome_bodySites]
    have hbody := h.body (h.children hc hlooks)
    cases hps : w.body c with
    | error fault =>
      rw [hps] at hbody
      cases hqs : w'.body c' <;> rw [hqs] at hbody <;> exact hbody
    | ok ps =>
      rw [hps] at hbody
      cases hqs : w'.body c' with
      | error fault =>
        rw [hqs] at hbody
        exact hbody
      | ok qs =>
        rw [hqs] at hbody
        exact ⟨ps, qs, rfl, rfl, hbody, rfl, rfl⟩
  rw [visitProgram_eq_bind, visitProgram_eq_bind]
  refine .bind hsites fun sites sites' _ _ hbody => ?_
  obtain ⟨ps, qs, hps, hqs, hrows, rfl, rfl⟩ := hbody
  have hpc : ∀ p ∈ ps, p ∈ c.children := fun p hp => (body_sublist hps).subset hp
  have hqc : ∀ q ∈ qs, q ∈ c'.children := fun q hq => (body_sublist hqs).subset hq
  refine .bind (h.collect hc hroot hrows hpc hqc (fun p hp => hcomment p (hpc p hp))
    (fun p hp => hcontext p (hpc p hp)) .none) fun _ _ _ _ hcollected => ?_
  exact h.reconciled hcollected.1 hcollected.2

end Rows

/-! ## Inheritance -/

section Inheritance

theorem inheritanceIn?_eq (h : Twins tol w w' Kept Plain Same) {ps qs : List Place}
    (hrows : Rows Kept Plain ps qs)
    (hkept : ∀ p ∈ ps, ∀ q, Kept p q →
      w.table.inheritance? p.tree = w.table.inheritance? q.tree) :
    w.table.inheritanceIn? (ps.map (·.tree)) = w.table.inheritanceIn? (qs.map (·.tree)) := by
  induction hrows with
  | nil => rfl
  | @keep p q ps qs hpq _ ih =>
    simp only [List.map_cons, Table.inheritanceIn?]
    rw [hkept p List.mem_cons_self q hpq, ih fun r hr => hkept r (List.mem_cons_of_mem p hr)]
  | @drop p ps qs hp _ ih =>
    obtain ⟨language, hlanguage⟩ := h.language hp
    have hnone : w.table.inheritance? p.tree = none := by
      rw [Table.inheritance?_eq, h.kind_of_plain hp, hlanguage, language.isHeritage_comment]
      rfl
    simp only [List.map_cons, Table.inheritanceIn?, hnone]
    exact ih fun r hr => hkept r (List.mem_cons_of_mem p hr)

theorem inheritance?_eq (h : Twins tol w w' Kept Plain Same) (p : Place) :
    ∀ q, Kept p q → w.table.inheritance? p.tree = w.table.inheritance? q.tree := by
  induction p using Place.induction with
  | step p children _ =>
    intro q hpq
    rw [Table.inheritance?_eq, Table.inheritance?_eq, ← h.kind_eq hpq]
    split_ifs with hextends himplements hheritage
    · rfl
    · rfl
    · have hlooks : w.table.looksInto p.tree.kind = true := by
        rw [Table.looksInto, hheritage, Bool.or_true]
      have hin := h.inheritanceIn?_eq (h.children hpq hlooks) children
      rwa [Place.children, Place.children, Place.map_tree_row, Place.map_tree_row] at hin
    · rfl

end Inheritance

/-! ## Dispatch -/

/-- All walks from a place are alike with those from corresponding places. -/
structure AlikeAt (tol : Tolerance) (w w' : Walker) (Kept : Place → Place → Prop)
    (Same : Entry → Entry → Prop) (p : Place) : Prop where
  comment : ∀ q, Kept p q →
    Walk.Alike tol (Option.Rel Same) (w.visitComment p) (w'.visitComment q)
  visit : ∀ q, Kept p q → Walk.Alike tol (Option.Rel Same) (w.visit p) (w'.visit q)
  context : ∀ q, Kept p q → ∀ inherited,
    Walk.Alike tol (Option.Rel Same) (w.visitContext p inherited) (w'.visitContext q inherited)

section Dispatch

variable {p q : Place}

theorem visitComment (h : Twins tol w w' Kept Plain Same) (hpq : Kept p q)
    (hafter : ∀ r ∈ p.after, AlikeAt tol w w' Kept Same r) :
    Walk.Alike tol (Option.Rel Same) (w.visitComment p) (w'.visitComment q) := by
  rw [visitComment_eq, visitComment_eq, h.isDocumentation_eq hpq]
  refine .bind (.lift (.refl (fun _ => rfl) _)) fun answer answer' _ _ heq => ?_
  subst heq
  cases answer with
  | false => exact .pure .none
  | true =>
    refine .bind (.lift (h.documented? (h.after hpq))) fun found found' _ _ hfound => ?_
    refine .bind ?_ fun context context' _ _ hcontext => h.make hpq (.documented hcontext)
    cases hfound with
    | none => exact .pure .none
    | some hd he hde =>
      simp only [contextOf, site_context]
      exact (hafter _ hd).context _ hde .empty

/-- Children of a node as a container. -/
theorem visitBelow (h : Twins tol w w' Kept Plain Same) {ps qs : List Place}
    (hrows : Rows Kept Plain ps qs) (hps : ps.Sublist p.children) (hqs : qs.Sublist q.children)
    (hbelow : ∀ r ∈ p.children, AlikeAt tol w w' Kept Same r) :
    Walk.Alike tol (List.Forall₂ Same) (w.visitSites none (ps.map w.site))
      (w'.visitSites none (qs.map w'.site)) :=
  h.visitSites hrows (fun _ hr => hps.subset hr) (fun _ hr => hqs.subset hr)
    (fun r hr => (hbelow r (hps.subset hr)).visit) .none

theorem visit (h : Twins tol w w' Kept Plain Same) (hpq : Kept p q)
    (hbelow : ∀ r ∈ p.children, AlikeAt tol w w' Kept Same r)
    (hcomment : Walk.Alike tol (Option.Rel Same) (w.visitComment p) (w'.visitComment q)) :
    Walk.Alike tol (Option.Rel Same) (w.visit p) (w'.visit q) := by
  have hreport : ∀ kind, Walk.Alike tol (Option.Rel Same)
      (do w.report p.tree kind; return none) (do w'.report q.tree kind; return none) :=
    fun kind => .bind (h.report hpq kind) fun _ _ _ _ _ => .pure .none
  rw [visit_eq, visit_eq, visitAt, visitAt, ← h.missing_eq hpq, h.table, ← h.kind_eq hpq]
  split_ifs
  · exact hreport _
  refine .bind (.leave _) fun _ _ _ _ _ => ?_
  cases hbucket : w.table.bucket? p.tree.kind with
  | none => exact hreport _
  | some bucket =>
    have hlooks : bucket = .root ∨ bucket = .nonTerminal →
        w.table.looksInto p.tree.kind = true := by
      rw [Table.looksInto, hbucket]
      rintro (rfl | rfl) <;> simp
    cases bucket with
    | root =>
      have hroot := Table.bucket?_eq_root_iff.1 hbucket
      have hprogram := h.visitProgram hpq hroot (fun r hr => (hbelow r hr).comment)
        fun r hr s hrs => (hbelow r hr).context s hrs .empty
      rw [visitProgram_eq, visitProgram_eq] at hprogram
      exact .bind hprogram fun _ _ _ _ hentries => h.make hpq (.children hentries)
    | comment => exact hcomment
    | error => exact hreport _
    | nonTerminal =>
      refine .bind ?_ fun _ _ _ _ hentries => h.make hpq (.children hentries)
      exact h.visitBelow (h.children hpq (hlooks (.inr rfl))) (List.Sublist.refl _)
        (List.Sublist.refl _) hbelow
    | terminal => exact h.make hpq .leaf

theorem isExported_eq (h : Twins tol w w' Kept Plain Same) (hpq : Kept p q) :
    w.isExported (w.site p) = w'.isExported (w'.site q) := by
  simp only [isExported, isExportToken, site_kind, h.kind_eq hpq, h.table]

theorem isExported_of_plain (h : Twins tol w w' Kept Plain Same) (hp : Plain p) :
    w.isExported (w.site p) = false := by
  obtain ⟨language, hlanguage⟩ := h.language hp
  have hdecl : language.table.isDeclaration commentKind = false := by
    rw [Table.isDeclaration, language.rule?_comment]
    rfl
  rw [isExported, site_kind, h.kind_of_plain hp, hlanguage, hdecl, Bool.and_false]

theorem exporterAt (h : Twins tol w w' Kept Plain Same) (hpq : Kept p q)
    (hrows : Rows Kept Plain p.children q.children)
    (hbelow : ∀ r ∈ p.children, AlikeAt tol w w' Kept Same r) (inherited : Properties) :
    Walk.Alike tol (Option.Rel Same) (w.exporterAt p.tree (p.children.map w.site) inherited)
      (w'.exporterAt q.tree (q.children.map w'.site) inherited) := by
  have hfound := hrows.find? (fun r s hrs => h.isExported_eq hrs) fun r hr =>
    h.isExported_of_plain hr
  have hbefore := hrows.takeWhile (fun r s hrs => congrArg Bool.not (h.isExported_eq hrs))
    fun r hr => by rw [h.isExported_of_plain hr, Bool.not_false]
  have hexports : exportsOf ((p.children.map w.site).takeWhile fun site => !w.isExported site) =
      exportsOf ((q.children.map w'.site).takeWhile fun site => !w'.isExported site) := by
    have hany : ∀ kind ∈ [exportKind, defaultKind],
        (p.children.takeWhile fun r => !w.isExported (w.site r)).any (·.tree.kind == kind) =
          (q.children.takeWhile fun r => !w'.isExported (w'.site r)).any (·.tree.kind == kind) := by
      intro kind hkind
      refine hbefore.any_eq (fun r s hrs => by rw [h.kind_eq hrs]) fun r hr => ?_
      rw [h.kind_of_plain hr, beq_eq_false_iff_ne]
      rintro rfl
      revert hkind
      decide
    simp only [exportsOf, List.takeWhile_map, List.any_map, Function.comp_def, site_kind,
      hany exportKind (by simp), hany defaultKind (by simp)]
  unfold Walker.exporterAt
  simp only [List.find?_map, List.filter_map, Function.comp_def, hexports]
  generalize (p.children.find? fun r => w.isExported (w.site r)) = found,
    (q.children.find? fun r => w'.isExported (w'.site r)) = found' at hfound
  cases hfound with
  | some hrs =>
    simp only [Option.map_some, site_context]
    exact (hbelow _ hrs.1).context _ hrs.2 _
  | none =>
    have hrest := hrows.filter (f := fun r => !isExportToken (w.site r))
      (g := fun r => !isExportToken (w'.site r)) fun r s hrs => by
        simp only [isExportToken, site_kind, h.kind_eq hrs]
    refine .bind ?_ fun _ _ _ _ hentries => h.make hpq (.declaration hentries _)
    exact h.visitBelow hrest List.filter_sublist List.filter_sublist hbelow

theorem isKeyword_of_plain (h : Twins tol w w' Kept Plain Same) {kind : String} {rule : Rule}
    (hrule : w.table.rule? kind = some rule) (hp : Plain p) :
    rule.isKeyword p.tree.kind = false := by
  obtain ⟨language, hlanguage⟩ := h.language hp
  rw [h.kind_of_plain hp]
  exact language.isKeyword_comment (hlanguage ▸ hrule)

theorem wrapperAt (h : Twins tol w w' Kept Plain Same) (rule : Rule)
    (hrows : Rows Kept Plain p.children q.children)
    (hbelow : ∀ r ∈ p.children, AlikeAt tol w w' Kept Same r) (inherited : Properties)
    (hvisit : Walk.Alike tol (Option.Rel Same) (w.visit p) (w'.visit q)) :
    Walk.Alike tol (Option.Rel Same)
      (w.wrapperAt rule (p.children.map w.site) inherited (w.visit p))
      (w'.wrapperAt rule (q.children.map w'.site) inherited (w'.visit q)) := by
  have hfound := hrows.find?
    (f := fun r => !rule.isKeyword r.tree.kind && w.table.isDeclaration r.tree.kind)
    (g := fun r => !rule.isKeyword r.tree.kind && w'.table.isDeclaration r.tree.kind)
    (fun r s hrs => by rw [h.kind_eq hrs, h.table]) fun r hr => by
      obtain ⟨language, hlanguage⟩ := h.language hr
      rw [h.kind_of_plain hr, hlanguage, Table.isDeclaration, language.rule?_comment]
      exact Bool.and_false _
  unfold Walker.wrapperAt
  simp only [List.find?_map, Function.comp_def, site_kind]
  generalize (p.children.find? fun r => !rule.isKeyword r.tree.kind &&
      w.table.isDeclaration r.tree.kind) = found,
    (q.children.find? fun r => !rule.isKeyword r.tree.kind &&
      w'.table.isDeclaration r.tree.kind) = found' at hfound
  cases hfound with
  | none => exact hvisit
  | some hrs =>
    simp only [Option.map_some, site_context]
    exact (hbelow _ hrs.1).context _ hrs.2 _

theorem declarationAt (h : Twins tol w w' Kept Plain Same) (hpq : Kept p q) {kind : String}
    {rule : Rule} (hrule : w.table.rule? kind = some rule)
    (hrows : Rows Kept Plain p.children q.children)
    (hbelow : ∀ r ∈ p.children, AlikeAt tol w w' Kept Same r) (inherited : Properties) :
    Walk.Alike tol (Option.Rel Same)
      (w.declarationAt p.tree rule (p.children.map w.site) inherited)
      (w'.declarationAt q.tree rule (q.children.map w'.site) inherited) := by
  have hrest := hrows.eraseP (f := fun r => rule.isKeyword r.tree.kind)
    (g := fun r => rule.isKeyword r.tree.kind) (fun r s hrs => by rw [h.kind_eq hrs])
    fun r hr => h.isKeyword_of_plain hrule hr
  have hown := h.inheritanceIn?_eq hrest fun r _ => h.inheritance?_eq r
  unfold Walker.declarationAt
  simp only [List.eraseP_map, Function.comp_def, site_kind, List.map_map, site_tree, h.table,
    ownProperties, hown]
  refine .bind (h.visitBelow hrest List.eraseP_sublist List.eraseP_sublist hbelow)
    fun _ _ _ _ hentries => ?_
  refine .bind (.lift (h.render hpq (.declaration hentries _) _)) fun _ _ _ _ hentry => ?_
  exact .pure (.some hentry)

theorem visitContext (h : Twins tol w w' Kept Plain Same) (hpq : Kept p q)
    (hbelow : ∀ r ∈ p.children, AlikeAt tol w w' Kept Same r)
    (hcomment : Walk.Alike tol (Option.Rel Same) (w.visitComment p) (w'.visitComment q))
    (hvisit : Walk.Alike tol (Option.Rel Same) (w.visit p) (w'.visit q))
    (inherited : Properties) :
    Walk.Alike tol (Option.Rel Same) (w.visitContext p inherited)
      (w'.visitContext q inherited) := by
  rw [visitContext_eq, visitContext_eq, contextAt, contextAt, ← h.missing_eq hpq, h.table,
    ← h.kind_eq hpq]
  split_ifs
  · exact .pure .none
  cases hrule : w.table.rule? p.tree.kind with
  | none => exact hvisit
  | some rule =>
    refine .bind (.leave _) fun _ _ _ _ _ => ?_
    have hrows : rule.role ≠ .comment → Rows Kept Plain p.children q.children := by
      intro hrole
      refine h.children hpq ?_
      simp [Table.looksInto, Table.isDeclaration, hrule, hrole]
    cases hrole : rule.role with
    | comment => exact hcomment
    | exporter => exact h.exporterAt hpq (hrows (by simp [hrole])) hbelow inherited
    | wrapper => exact h.wrapperAt rule (hrows (by simp [hrole])) hbelow inherited hvisit
    | declaration => exact h.declarationAt hpq hrule (hrows (by simp [hrole])) hbelow inherited
    | nameSpace => exact h.declarationAt hpq hrule (hrows (by simp [hrole])) hbelow inherited
    | ambientModule => exact h.declarationAt hpq hrule (hrows (by simp [hrole])) hbelow inherited

end Dispatch

/-- **All walks from corresponding places are alike.** -/
theorem alikeAt (h : Twins tol w w' Kept Plain Same) (p : Place) :
    AlikeAt tol w w' Kept Same p := by
  induction p using Place.induction with
  | step p hbelow hafter =>
    have hcomment := fun q hpq => h.visitComment (p := p) (q := q) hpq hafter
    have hvisit := fun q hpq => h.visit hpq hbelow (hcomment q hpq)
    exact ⟨hcomment, hvisit, fun q hpq => h.visitContext hpq hbelow (hcomment q hpq) (hvisit q hpq)⟩

/-- So are the walks over whole trees. -/
theorem visitRoot (h : Twins tol w w' Kept Plain Same) {p q : Place} (hpq : Kept p q) :
    Walk.Alike tol (List.Forall₂ Same) (w.visitRoot p) (w'.visitRoot q) := by
  unfold Walker.visitRoot
  rw [h.table, ← h.kind_eq hpq]
  split
  · rename_i hbucket
    exact h.visitProgram hpq (Table.bucket?_eq_root_iff.1 hbucket)
      (fun r _ => (h.alikeAt r).comment) fun r _ s hrs => (h.alikeAt r).context s hrs .empty
  · refine .bind ((h.alikeAt p).visit q hpq) fun found found' _ _ hfound => .pure ?_
    cases hfound with
    | none => exact .nil
    | some hentry => exact .cons hentry .nil

end Twins

end Walker

end DocOutline
