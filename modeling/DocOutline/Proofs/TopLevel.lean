import DocOutline.Proofs.Program
import DocOutline.Proofs.Reconcile

/-!
# What a program shows at its top level

A program shows the contexts of its pairs and the declarations that no pair takes in. Each of
them is the entry of a node below one child of the program: a pair shows a node below the child
that its comment documents, and different comments document different children
(`Walker.documentedBy_lt`). A declaration below the same child as a pair was built like the
context of the pair, so it has the key of that context and the pair takes it in. What remains
lies below different children, and no two keys are equal as long as no two of these children
hold nodes that start at the same point.
-/

namespace DocOutline

/-- Where the declaration that an entry shows starts: its context, or the entry itself. -/
def Entry.shownKey (entry : Entry) : Point :=
  (entry.context.getD entry).key

/-- Nodes below different children of a place start at different points. -/
def Place.StartsApart (root : Place) : Prop :=
  ∀ p ∈ root.children, ∀ q ∈ root.children, p.index ≠ q.index →
    ∀ m ∈ p.subtree, ∀ n ∈ q.subtree, m.tree.info.startPoint ≠ n.tree.info.startPoint

instance (root : Place) : Decidable root.StartsApart :=
  inferInstanceAs (Decidable (∀ p ∈ root.children, ∀ q ∈ root.children, p.index ≠ q.index →
    ∀ m ∈ p.subtree, ∀ n ∈ q.subtree, m.tree.info.startPoint ≠ n.tree.info.startPoint))

namespace Walker

/-! ## Pairs -/

/-- The later of two documentation comments documents a later sibling. -/
theorem documentedBy_lt {w : Walker} {index : Nat} {trees : List Tree} {p q d e : Place}
    (hp : p ∈ Place.row index trees) (hq : q ∈ Place.row index trees) (hlt : p.index < q.index)
    (hdoc : w.isDoc q = true) (hd : w.documentedBy p = some d) (he : w.documentedBy q = some e) :
    d.index < e.index := by
  have hqp := Place.mem_after_of_index_lt hp hq hlt
  have hdq : d.index ≤ q.index :=
    Place.index_le_of_find? p.pairwise_after_lt hd hqp (by rw [hdoc, Bool.or_true])
  have hqe := Place.lt_of_mem_after (mem_after_of_documentedBy he)
  omega

/-- A pair shows what context dispatch makes of the sibling that its comment documents. -/
theorem pairAt_eq_some {w : Walker} {p : Place} {pair : Entry} (h : w.pairAt p = .ok (some pair)) :
    w.isDoc p = true ∧ ∃ d context, w.documentedBy p = some d ∧ pair.context = some context ∧
      (w.visitContext d .empty).outcome = .ok (some context) := by
  rw [pairAt] at h
  cases hfound : (w.visitComment p).outcome with
  | error fault =>
    rw [hfound] at h
    cases h
  | ok found =>
    rw [hfound] at h
    obtain ⟨rfl, hsome⟩ := Option.filter_eq_some_iff.1 (Except.ok.inj h)
    obtain ⟨context, hcontext⟩ := Option.isSome_iff_exists.1 hsome
    obtain ⟨hdoc, -, hshown⟩ := visitComment_eq_some hfound
    obtain ⟨d, hd, hvisit⟩ := hshown context hcontext
    exact ⟨hdoc, d, context, hd, hcontext, hvisit⟩

theorem pairwise_children {root : Place} {children : List Place}
    (hchildren : children.Sublist root.children) :
    children.Pairwise fun p q => p ∈ root.children ∧ q ∈ root.children ∧ p.index < q.index := by
  have hlt := (Place.pairwise_row_lt (root.index + 1) root.tree.children).sublist hchildren
  refine hlt.imp_of_mem fun {p q} hp hq hpq => ?_
  exact ⟨hchildren.subset hp, hchildren.subset hq, hpq⟩

/-- The pairs of a program show different points. -/
theorem nodup_shownKey_pairs {w : Walker} {root : Place} (hstarts : root.StartsApart)
    {children : List Place} (hchildren : children.Sublist root.children) {pairs : List Entry}
    (h : w.freshPairs children = .ok pairs) : (pairs.map Entry.shownKey).Nodup := by
  refine List.pairwise_map.2 (pairwise_gather h (pairwise_children hchildren) ?_)
  rintro p q a b ⟨hp, hq, hlt⟩ - - ha hb hkey
  obtain ⟨-, d, x, hd, hx, hvisit⟩ := pairAt_eq_some ha
  obtain ⟨hdoc, e, y, he, hy, hvisit'⟩ := pairAt_eq_some hb
  have hde := documentedBy_lt hp hq hlt hdoc hd he
  obtain ⟨m, hm, hrenders, -⟩ := visitContext_eq_some d hvisit
  obtain ⟨n, hn, hrenders', -⟩ := visitContext_eq_some e hvisit'
  simp only [Entry.shownKey, hx, hy, Option.getD_some] at hkey
  exact hstarts d (Place.mem_row_of_mem_after hp (mem_after_of_documentedBy hd))
    e (Place.mem_row_of_mem_after hq (mem_after_of_documentedBy he)) (Nat.ne_of_lt hde)
    m hm n hn (hrenders.start_eq hrenders' hkey)

/-! ## Declarations -/

/-- A declaration shows a node below its child of the program. -/
theorem exists_shown_of_standsAlone {w : Walker} {p : Place} (hp : w.standsAlone p.tree = true)
    {decl : Entry} (h : (w.visitContext p .empty).outcome = .ok (some decl)) :
    ∃ n ∈ p.subtree, w.Renders n.tree (decl.context.getD decl) := by
  obtain ⟨n, hn, hrenders, hcontext⟩ := visitContext_eq_some p h
  cases hx : decl.context with
  | none => exact ⟨n, hn, hrenders⟩
  | some x =>
    -- The entry is that of a comment below the child, and what it documents is below it too.
    rcases hcontext with hnone | hcomment
    · rw [hx] at hnone
      cases hnone
    · obtain ⟨hdoc, -, hshown⟩ := visitComment_eq_some hcomment
      obtain ⟨d, hd, hvisit⟩ := hshown x hx
      obtain ⟨m, hm, hrenders', -⟩ := visitContext_eq_some d hvisit
      have hne : n ≠ p := by
        rintro rfl
        have := not_isComment_of_standsAlone hp
        rw [isComment_of_isDoc hdoc] at this
        cases this
      exact ⟨m, Place.mem_subtree_of_mem_after p hn hne (mem_after_of_documentedBy hd) hm,
        hrenders'⟩

/-- The declarations of a program show different points. -/
theorem pairwise_shownKey_decls {w : Walker} {root : Place} (hstarts : root.StartsApart)
    {children : List Place} (hchildren : children.Sublist root.children) {decls : List Entry}
    (h : w.freshDecls children = .ok decls) :
    decls.Pairwise fun a b => a.shownKey ≠ b.shownKey := by
  refine pairwise_gather h (pairwise_children hchildren) ?_
  rintro p q a b ⟨hp, hq, hlt⟩ hpalone hqalone ha hb hkey
  obtain ⟨m, hm, hrenders⟩ := exists_shown_of_standsAlone hpalone ha
  obtain ⟨n, hn, hrenders'⟩ := exists_shown_of_standsAlone hqalone hb
  exact hstarts p hp q hq (Nat.ne_of_lt hlt) m hm n hn (hrenders.start_eq hrenders' hkey)

/-- A declaration that no pair takes in shows another point than every pair. -/
theorem shownKey_ne_of_not_duplicate {w : Walker} {root : Place} (hstarts : root.StartsApart)
    {children : List Place} (hchildren : children.Sublist root.children)
    {pairs decls : List Entry} (hpairs : w.freshPairs children = .ok pairs)
    (hdecls : w.freshDecls children = .ok decls) {pair decl : Entry} (hpair : pair ∈ pairs)
    (hdecl : decl ∈ decls) (hopen : duplicateOf? pairs decl = none) :
    pair.shownKey ≠ decl.shownKey := by
  intro hkey
  obtain ⟨p, hp, -, ha⟩ := exists_of_mem_gather hpairs hpair
  obtain ⟨q, hq, halone, hb⟩ := exists_of_mem_gather hdecls hdecl
  obtain ⟨-, d, x, hd, hx, hvisit⟩ := pairAt_eq_some ha
  by_cases hdq : d.index = q.index
  · -- The comment documents the declaration itself: the pair has the same entry as its context.
    have hrow : d ∈ root.children :=
      Place.mem_row_of_mem_after (hchildren.subset hp) (mem_after_of_documentedBy hd)
    obtain rfl := Place.eq_of_index_eq hrow (hchildren.subset hq) hdq
    obtain rfl : x = decl := by
      rw [hvisit] at hb
      exact Option.some.inj (Except.ok.inj hb)
    rw [duplicateOf?_eq_findIdx?] at hopen
    have hnone := List.findIdx?_eq_none_iff.1 hopen pair hpair
    simp [hx] at hnone
  · obtain ⟨m, hm, hrenders, -⟩ := visitContext_eq_some d hvisit
    obtain ⟨n, hn, hrenders'⟩ := exists_shown_of_standsAlone halone hb
    simp only [Entry.shownKey, hx, Option.getD_some] at hkey
    exact hstarts d (Place.mem_row_of_mem_after (hchildren.subset hp)
      (mem_after_of_documentedBy hd)) q (hchildren.subset hq) hdq m hm n hn
      (hrenders.start_eq hrenders' hkey)

/-! ## The whole program -/

theorem shownKey_absorb (decl pair : Entry) :
    (Plan.absorb decl pair).shownKey = pair.shownKey := by
  unfold Plan.absorb
  split
  · rename_i context properties hcontext hproperties
    simp only [Entry.shownKey, hcontext, Option.getD_some]
    unfold Entry.mergeProperties
    split_ifs <;> rfl
  · rfl

/-- **No two entries of a program show the same declaration.** If nodes below different
children of the program start at different points, the points that its entries show are
pairwise distinct. -/
theorem nodup_shownKey_visitProgram (w : Walker) (root : Place) (hstarts : root.StartsApart)
    {entries : List Entry} (h : (w.visitProgram root).outcome = .ok entries) :
    (entries.map Entry.shownKey).Nodup := by
  obtain ⟨children, pairs, decls, hbody, hpairs, hdecls, rfl⟩ := visitProgram_eq_ok h
  have hchildren := body_sublist hbody
  rw [Plan.apply_eq, List.map_append, Plan.map_taken shownKey_absorb]
  refine List.nodup_append.2 ⟨nodup_shownKey_pairs hstarts hchildren hpairs, ?_, ?_⟩
  · have hshown := pairwise_shownKey_decls hstarts hchildren hdecls
    exact List.pairwise_map.2 (hshown.sublist (Plan.left_sublist pairs decls))
  · intro key hkey key' hkey'
    obtain ⟨pair, hpair, rfl⟩ := List.mem_map.1 hkey
    obtain ⟨decl, hdecl, rfl⟩ := List.mem_map.1 hkey'
    obtain ⟨i, hi, hopen, -⟩ := Plan.mem_left_iff.1 hdecl
    exact shownKey_ne_of_not_duplicate hstarts hchildren hpairs hdecls hpair
      (List.mem_of_getElem? hi) hopen

/-- The pair and the second export show the declarations inside the two statements. -/
theorem nodup_shownKey_twoExports :
    (Place.ofRoot twoExports).StartsApart ∧
      ∃ entries, (forTwoExports.visitProgram (.ofRoot twoExports)).outcome = .ok entries ∧
        entries.map Entry.shownKey = [⟨0, 31⟩, ⟨0, 45⟩] ∧
        (entries.map Entry.shownKey).Nodup := by
  obtain ⟨entries, h, hkeys⟩ :
      ∃ entries, (forTwoExports.visitProgram (.ofRoot twoExports)).outcome = .ok entries ∧
        (entries.map Entry.shownKey == [⟨0, 31⟩, ⟨0, 45⟩]) = true :=
    Walk.exists_ok_of_any (by decide +kernel)
  have hstarts : (Place.ofRoot twoExports).StartsApart := by decide +kernel
  exact ⟨hstarts, entries, h, beq_iff_eq.1 hkeys,
    nodup_shownKey_visitProgram forTwoExports _ hstarts h⟩

/-! ## Declarations that are not shown -/

theorem exists_mem_taken {plan : Plan} {pairs decls : List Entry} {j : Nat} {pair : Entry}
    (hpair : pairs[j]? = some pair) :
    ∃ e ∈ plan.apply pairs decls, e.context.map (·.key) = pair.context.map (·.key) ∧
      Claim.claimants e = Claim.claimants pair := by
  have hmap := Plan.map_taken (f := fun e => (e.context.map (·.key), Claim.claimants e))
    (fun decl pair => by rw [Plan.map_key_absorb, Plan.claimants_absorb]) plan pairs decls
  have hmem := List.mem_map_of_mem (f := fun e => (e.context.map (·.key), Claim.claimants e))
    (List.mem_of_getElem? hpair)
  rw [← hmap] at hmem
  obtain ⟨e, he, heq⟩ := List.mem_map.1 hmem
  obtain ⟨hkey, hclaimants⟩ := Prod.mk.inj heq
  exact ⟨e, List.mem_append_left _ he, hkey, hclaimants⟩

theorem exists_context_of_claimant {pair child : Entry} {position : Nat}
    (h : (Claim.claimants pair)[position]? = some child) :
    ∃ x, pair.context = some x ∧ x.children[position]? = some child := by
  cases hx : pair.context with
  | none => simp [Claim.claimants, hx] at h
  | some x => exact ⟨x, rfl, by simpa [Claim.claimants, hx] using h⟩

/-- **A declaration is shown unless a pair matches it by position.** Let context dispatch make
`n` of a declaration of the program. Then some pair shows the point where `n` starts, or `n`
stands among the entries, or some pair matches it: the context of the pair has a child of the
kind of `n`, at the position that `n` has among the declarations that no pair documents. -/
theorem shown_or_matched_visitProgram {w : Walker} {language : Language}
    (hw : w.table = language.table) {root : Place} {entries : List Entry}
    (h : (w.visitProgram root).outcome = .ok entries) {c : Place} (hc : c ∈ root.children)
    (hmissing : c.tree.missing = false) (htop : w.table.isTopLevel c.tree = true) {n : Entry}
    (hn : (w.visitContext c .empty).outcome = .ok (some n)) :
    ∃ front back pairs before, w.body root = .ok (front ++ c :: back) ∧
      w.freshPairs (front ++ c :: back) = .ok pairs ∧ w.freshDecls front = .ok before ∧
      ((∃ e ∈ entries, ∃ x, e.context = some x ∧ x.key = n.key) ∨ n ∈ entries ∨
        ∃ e ∈ entries, ∃ x child, e.context = some x ∧
          x.children[before.countP fun decl => (duplicateOf? pairs decl).isNone]? = some child ∧
          child.kind = n.kind) := by
  have halone : w.standsAlone c.tree = true := by
    rw [standsAlone_of_language hw, hmissing, htop]
    rfl
  obtain ⟨children, pairs, decls, hbody, hpairs, hdecls, rfl⟩ := visitProgram_eq_ok h
  obtain ⟨front, back, rfl⟩ :=
    List.append_of_mem (mem_body hbody hc (not_isComment_of_standsAlone halone))
  obtain ⟨before, after, hbefore, rfl⟩ := gather_append_cons hdecls halone hn
  refine ⟨front, back, pairs, before, hbody, hpairs, hbefore, ?_⟩
  have hi : (before ++ n :: after)[before.length]? = some n := by simp
  have hrank : Plan.rank pairs (before ++ n :: after) before.length =
      before.countP fun decl => (duplicateOf? pairs decl).isNone := by
    rw [Plan.rank, List.take_left]
  cases hdup : duplicateOf? pairs n with
  | some j =>
    obtain ⟨pair, context, hpair, hcontext, hkey⟩ := duplicateOf?_eq_some hdup
    obtain ⟨e, he, hsame, -⟩ := exists_mem_taken hpair
    rw [hcontext, Option.map_some] at hsame
    obtain ⟨x, hx, hxkey⟩ := Option.map_eq_some_iff.1 hsame
    exact .inl ⟨e, he, x, hx, hxkey.trans hkey⟩
  | none =>
    cases hmatch : matchOf? pairs (Plan.rank pairs (before ++ n :: after) before.length) n with
    | some j =>
      obtain ⟨pair, child, hpair, hchild, hkind⟩ := matchOf?_eq_some hmatch
      obtain ⟨e, he, -, hclaimants⟩ := exists_mem_taken hpair
      rw [← hclaimants, hrank] at hchild
      obtain ⟨x, hx, hchild⟩ := exists_context_of_claimant hchild
      exact .inr (.inr ⟨e, he, x, child, hx, hchild, hkind⟩)
    | none =>
      refine .inr (.inl (List.mem_append_right _ (Plan.mem_left_iff.2 ?_)))
      exact ⟨before.length, hi, hdup, hmatch⟩

/-- `export let b;`, the last child of `blockThenExport` -/
def lateExport : Place where
  index := 4
  tree := .inLine "export_statement" 21 34 [
    .inLine "export" 21 27 [],
    .inLine "lexical_declaration" 28 34 []]
  later := []

/-- A documented block with `let a;` inside, followed by `export let b;`. -/
def blockThenExport : Tree :=
  .inLine "program" 0 34 [
    .inLine "comment" 0 9 [],
    .inLine "statement_block" 10 20 [
      .inLine "lexical_declaration" 12 18 []],
    lateExport.tree]

def forBlockThenExport : Walker :=
  .ofText .javaScript "/** B. */ \x7b let a; \x7d export let b;"

/-- The export is a first declaration that no pair documents, and `let a;` is a first child of
the documented block: the pair takes the export for it. -/
theorem shown_or_matched_blockThenExport :
    lateExport ∈ (Place.ofRoot blockThenExport).children ∧
    lateExport.tree.missing = false ∧
    forBlockThenExport.table.isTopLevel lateExport.tree = true ∧
    ∃ entries n,
      (forBlockThenExport.visitProgram (.ofRoot blockThenExport)).outcome = .ok entries ∧
      (forBlockThenExport.visitContext lateExport .empty).outcome = .ok (some n) ∧
      ∃ front back pairs before,
        forBlockThenExport.body (.ofRoot blockThenExport) = .ok (front ++ lateExport :: back) ∧
        forBlockThenExport.freshPairs (front ++ lateExport :: back) = .ok pairs ∧
        forBlockThenExport.freshDecls front = .ok before ∧
        ((∃ e ∈ entries, ∃ x, e.context = some x ∧ x.key = n.key) ∨ n ∈ entries ∨
          ∃ e ∈ entries, ∃ x child, e.context = some x ∧
            x.children[before.countP fun decl => (duplicateOf? pairs decl).isNone]? = some child ∧
            child.kind = n.kind) := by
  have hmem : lateExport ∈ (Place.ofRoot blockThenExport).children :=
    List.mem_of_getElem? (i := 2) rfl
  have htop : forBlockThenExport.table.isTopLevel lateExport.tree = true := by decide +kernel
  have htable : forBlockThenExport.table = Language.javaScript.table := rfl
  obtain ⟨entries, hentries, -⟩ := Walk.exists_ok_of_any (f := fun _ => true)
    (show (forBlockThenExport.visitProgram (.ofRoot blockThenExport)).outcome.toOption.any
      (fun _ => true) = true by decide +kernel)
  obtain ⟨found, hfound, hsome⟩ := Walk.exists_ok_of_any (f := Option.isSome)
    (show (forBlockThenExport.visitContext lateExport .empty).outcome.toOption.any
      Option.isSome = true by decide +kernel)
  obtain ⟨n, rfl⟩ := Option.isSome_iff_exists.1 hsome
  exact ⟨hmem, rfl, htop, entries, n, hentries, hfound,
    shown_or_matched_visitProgram htable hentries hmem rfl htop hfound⟩

/-- A declaration that a pair matches by position need not be shown: the pair shows the block,
and nothing shows the export. -/
theorem not_every_declaration_shown :
    ¬ ∀ (w : Walker) (language : Language) (root c : Place) (entries : List Entry) (n : Entry),
      w.table = language.table → (w.visitProgram root).outcome = .ok entries →
      c ∈ root.children → c.tree.missing = false → w.table.isTopLevel c.tree = true →
      (w.visitContext c .empty).outcome = .ok (some n) →
      (∃ e ∈ entries, ∃ x, e.context = some x ∧ x.key = n.key) ∨
        ∃ e ∈ entries, e.context = none ∧ e.key = n.key := by
  intro hall
  obtain ⟨entries, hentries, hshown⟩ :
      ∃ entries, (forBlockThenExport.visitProgram (.ofRoot blockThenExport)).outcome =
          .ok entries ∧ (entries.map Entry.shownKey == [⟨0, 10⟩]) = true :=
    Walk.exists_ok_of_any (by decide +kernel)
  obtain ⟨found, hfound, hkey⟩ :
      ∃ found, (forBlockThenExport.visitContext lateExport .empty).outcome = .ok found ∧
        (found.map Entry.key == some ⟨0, 28⟩) = true :=
    Walk.exists_ok_of_any (by decide +kernel)
  obtain ⟨n, rfl, hn⟩ := Option.map_eq_some_iff.1 (beq_iff_eq.1 hkey)
  -- Every entry shows the start of the block, and the export starts elsewhere.
  have hblock : ∀ e ∈ entries, e.shownKey ≠ n.key := by
    intro e he hshow
    have hmem := List.mem_map_of_mem (f := Entry.shownKey) he
    rw [beq_iff_eq.1 hshown, List.mem_singleton, hshow, hn] at hmem
    exact absurd hmem (by decide)
  obtain ⟨e, he, x, hx, hkey⟩ | ⟨e, he, hx, hkey⟩ := hall forBlockThenExport .javaScript
    (.ofRoot blockThenExport) lateExport entries n rfl hentries
    (List.mem_of_getElem? (i := 2) rfl) rfl (by decide +kernel) hfound
  · exact hblock e he (by simpa [Entry.shownKey, hx] using hkey)
  · exact hblock e he (by simpa [Entry.shownKey, hx] using hkey)

end Walker

end DocOutline
