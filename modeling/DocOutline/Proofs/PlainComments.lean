import DocOutline.Proofs.Twins

/-!
# Plain comments

A comment that is no documentation can stand between any two nodes. Nearly everything that looks
for a node passes over it: what a comment documents, the declaration inside a statement, its
keywords, and what it inherits from. The one place that does not is the question whether a
statement around a namespace stands at the top level, which looks at the first node of the
statement apart from noise and keywords. A plain comment before the namespace hides it.

As long as no namespace is hidden (`Table.hidesNameSpace`), a tree and the same tree without some
of its plain comments have the same outline and the same reports
(`Walker.visitRoot_eq_of_pruned`).
-/

namespace DocOutline

namespace Tree

mutual

/-- The second tree is the first one without some of its plain comments and all below them. -/
inductive Pruned (source : Source) : Tree → Tree → Prop
  | node {info : NodeInfo} {children children' : List Tree}
    (h : PrunedRow source children children') :
    Pruned source (.node info children) (.node info children')

inductive PrunedRow (source : Source) : List Tree → List Tree → Prop
  | nil : PrunedRow source [] []
  | keep {tree tree' : Tree} {rest rest' : List Tree} (h : Pruned source tree tree')
    (hrest : PrunedRow source rest rest') : PrunedRow source (tree :: rest) (tree' :: rest')
  | drop {tree : Tree} {rest rest' : List Tree} (hplain : tree.isPlain source = true)
    (hrest : PrunedRow source rest rest') : PrunedRow source (tree :: rest) rest'

end

mutual

theorem Pruned.refl (source : Source) (tree : Tree) : Pruned source tree tree := by
  match tree with
  | .node info children => exact .node (PrunedRow.refl source children)

theorem PrunedRow.refl (source : Source) (trees : List Tree) : PrunedRow source trees trees := by
  match trees with
  | [] => exact .nil
  | tree :: rest => exact .keep (Pruned.refl source tree) (PrunedRow.refl source rest)

end

theorem Pruned.info_eq {source : Source} {tree tree' : Tree} (h : Pruned source tree tree') :
    tree.info = tree'.info := by
  cases h
  rfl

theorem Pruned.kind_eq {source : Source} {tree tree' : Tree} (h : Pruned source tree tree') :
    tree.kind = tree'.kind :=
  congrArg NodeInfo.kind h.info_eq

theorem Pruned.children {source : Source} {tree tree' : Tree} (h : Pruned source tree tree') :
    PrunedRow source tree.children tree'.children := by
  cases h with
  | node h => exact h

end Tree

/-! ## Hidden namespaces -/

namespace Table

/-- A statement around a namespace that does not stand at the top level, only because a plain
comment comes before the namespace. -/
def hidesNameSpace (table : Table) (source : Source) (tree : Tree) : Bool :=
  match table.rule? tree.kind with
  | some rule =>
    rule.role == .wrapper && !table.isTopLevel tree &&
      (tree.children.find? fun child => !isNoise child.kind && !rule.isKeyword child.kind &&
        !child.isPlain source).any (table.isNameSpace ·.kind)
  | none => false

section Search

variable {table : Table} {source : Source} {f : String → Bool} {trees trees' : List Tree}

/-- A namespace that comes first stays first. -/
theorem any_find?_of_prunedRow (hcomment : table.isNameSpace commentKind = false)
    (h : Tree.PrunedRow source trees trees')
    (hfirst : (trees.find? fun tree => f tree.kind).any (table.isNameSpace ·.kind) = true) :
    (trees'.find? fun tree => f tree.kind).any (table.isNameSpace ·.kind) = true := by
  induction trees generalizing trees' with
  | nil => cases hfirst
  | cons tree rest ih =>
    rw [List.find?_cons] at hfirst
    cases h with
    | keep htree hrest =>
      rw [List.find?_cons, ← htree.kind_eq]
      cases hf : f tree.kind with
      | true =>
        rw [hf] at hfirst
        simpa [← htree.kind_eq] using hfirst
      | false =>
        rw [hf] at hfirst
        exact ih hrest hfirst
    | drop hplain hrest =>
      cases hf : f tree.kind with
      | true =>
        have hkind : tree.kind = commentKind := beq_iff_eq.1 (Tree.isPlain_iff.1 hplain).2.1
        rw [hf] at hfirst
        simp [hkind, hcomment] at hfirst
      | false =>
        rw [hf] at hfirst
        exact ih hrest hfirst

/-- A namespace that is first without some plain comments is first without any of them. -/
theorem any_find?_of_prunedRow_first (hcomment : table.isNameSpace commentKind = false)
    (h : Tree.PrunedRow source trees trees')
    (hfirst : (trees'.find? fun tree => f tree.kind).any (table.isNameSpace ·.kind) = true) :
    (trees.find? fun tree => f tree.kind && !tree.isPlain source).any
      (table.isNameSpace ·.kind) = true := by
  induction trees generalizing trees' with
  | nil =>
    cases h
    exact hfirst
  | cons tree rest ih =>
    rw [List.find?_cons]
    cases h with
    | keep htree hrest =>
      rw [List.find?_cons, ← htree.kind_eq] at hfirst
      cases hf : f tree.kind with
      | true =>
        rw [hf] at hfirst
        have hspace : table.isNameSpace tree.kind = true := by
          simpa [← htree.kind_eq] using hfirst
        have hplain : tree.isPlain source = false := by
          refine Bool.eq_false_iff.2 fun hplain => ?_
          have hkind : tree.kind = commentKind := beq_iff_eq.1 (Tree.isPlain_iff.1 hplain).2.1
          rw [hkind, hcomment] at hspace
          cases hspace
        simp [hplain, hspace]
      | false =>
        rw [hf] at hfirst
        exact ih hrest hfirst
    | drop hplain hrest =>
      rw [hplain, Bool.not_true, Bool.and_false]
      exact ih hrest hfirst

/-- Without a hidden namespace, plain comments do not decide what stands at the top level. -/
theorem isTopLevel_eq_of_pruned (hcomment : table.isNameSpace commentKind = false)
    {tree tree' : Tree} (h : tree.Pruned source tree')
    (hhides : table.hidesNameSpace source tree = false) :
    table.isTopLevel tree = table.isTopLevel tree' := by
  cases hrule : table.rule? tree.kind with
  | none =>
    rw [isTopLevel, isTopLevel, ← h.kind_eq]
    simp only [hrule]
  | some rule =>
    have htop : ∀ {t : Tree}, t.kind = tree.kind → (table.isTopLevel t = true ↔
        (table.isExporter tree.kind = true ∨ table.isNameSpace tree.kind = true) ∨
          rule.role = .wrapper ∧ (t.children.find? fun child => !isNoise child.kind &&
            !rule.isKeyword child.kind).any (table.isNameSpace ·.kind) = true) := by
      intro t hkind
      simp only [isTopLevel, hkind, hrule, Bool.or_eq_true, Bool.and_eq_true, beq_iff_eq]
    rw [Bool.eq_iff_iff, htop rfl, htop h.kind_eq.symm]
    constructor
    · exact Or.imp_right (And.imp_right (any_find?_of_prunedRow hcomment h.children
        (f := fun kind => !isNoise kind && !rule.isKeyword kind)))
    · rintro (hkind | ⟨hrole, hfirst⟩)
      · exact .inl hkind
      · -- The statement has the namespace first without plain comments, so it hides none.
        have hany := any_find?_of_prunedRow_first hcomment h.children
          (f := fun kind => !isNoise kind && !rule.isKeyword kind) hfirst
        rw [← htop rfl]
        simpa [hidesNameSpace, hrule, hrole, hany] using hhides

end Search

end Table

/-! ## Trees without plain comments -/

namespace Walker

/-- The second place is what the first one is without some plain comments. -/
structure Kept (source : Source) (root : Tree) (p q : Place) : Prop where
  mem : p ∈ (Place.ofRoot root).subtree
  tree : p.tree.Pruned source q.tree
  later : Tree.PrunedRow source p.later q.later

theorem rows_of_prunedRow {source : Source} {root : Tree} {trees trees' : List Tree}
    (h : Tree.PrunedRow source trees trees') {i : Nat} (j : Nat)
    (hmem : ∀ p ∈ Place.row i trees, p ∈ (Place.ofRoot root).subtree) :
    Rows (Kept source root) (fun p => p.tree.isPlain source = true) (Place.row i trees)
      (Place.row j trees') := by
  induction trees generalizing trees' i j with
  | nil =>
    cases h
    exact .nil
  | cons tree rest ih =>
    have hrest := fun p hp => hmem p (List.mem_cons_of_mem _ hp)
    cases h with
    | keep htree hlater =>
      exact .keep ⟨hmem _ List.mem_cons_self, htree, hlater⟩ (ih hlater _ hrest)
    | drop hplain hlater => exact .drop hplain (ih hlater _ hrest)

theorem twins_of_pruned {w : Walker} {language : Language} (hw : w.table = language.table)
    (hstrip : w.stripHeader = false) {root : Tree}
    (hhides : ∀ n ∈ Place.preorder root, n.tree.kind = rootKind →
      ∀ child ∈ n.tree.children, w.table.hidesNameSpace w.source child = false) :
    Twins .strict w w (Kept w.source root) (fun p => p.tree.isPlain w.source = true) Eq where
  table := rfl
  source := rfl
  stripHeader := rfl
  info h := h.tree.info_eq
  children h _ := rows_of_prunedRow h.tree.children _ fun _ hp =>
    Place.mem_subtree_of_mem_children h.mem hp
  after h := rows_of_prunedRow h.later _ fun _ hp =>
    Place.mem_subtree_ofRoot_of_mem_after h.mem hp
  plain h := h
  language _ := ⟨language, hw⟩
  header h := by
    rw [hstrip] at h
    cases h
  topLevel {c c' p q} hc hroot hp _ hpq := by
    have hcomment : w.table.isNameSpace commentKind = false := hw ▸ language.isNameSpace_comment
    refine Table.isTopLevel_eq_of_pruned hcomment hpq.tree (hhides c ?_ hroot p.tree ?_)
    · rw [Place.preorder_eq_subtree]
      exact hc.mem
    · rw [← Place.map_tree_row (c.index + 1) c.tree.children]
      exact List.mem_map_of_mem hp
  matching := .eq
  render {p q payload payload'} hpq hpayload kind := by
    rw [hpayload.eq, Renderer.renderAs_eq hpq.tree.info_eq]
    exact .refl (fun _ => rfl) _

/-- **Plain comments that hide no namespace are transparent**: without some of them a tree has the
same outline, or the same fault, and the same reports. -/
theorem visitRoot_eq_of_pruned {w : Walker} {language : Language} (hw : w.table = language.table)
    (hstrip : w.stripHeader = false) {tree tree' : Tree} (hpruned : tree.Pruned w.source tree')
    (hhides : ∀ n ∈ Place.preorder tree, n.tree.kind = rootKind →
      ∀ child ∈ n.tree.children, w.table.hidesNameSpace w.source child = false) :
    (w.visitRoot (.ofRoot tree)).outcome = (w.visitRoot (.ofRoot tree')).outcome ∧
      (w.visitRoot (.ofRoot tree)).diagnostics = (w.visitRoot (.ofRoot tree')).diagnostics := by
  have hroot : Kept w.source tree (.ofRoot tree) (.ofRoot tree') :=
    ⟨(Place.ofRoot tree).mem_subtree_self, hpruned, .nil⟩
  have halike := (twins_of_pruned hw hstrip hhides).visitRoot hroot
  rw [List.forall₂_eq_eq_eq] at halike
  exact halike.eq_of_strict

/-- `module M {}` from a column on, with what stands before the name -/
def moduleFrom (start : UInt32) (before : List Tree) (name : UInt32) : Tree :=
  .inLine "module" start (name + 4) (.inLine "module" start (start + 6) [] :: before ++ [
    .inLine "identifier" name (name + 1) [],
    .inLine "statement_block" (name + 2) (name + 4) []])

/-- `/** A. */ /* x */ declare module /* y */ M {}` -/
def commentedModule : Tree :=
  .inLine "program" 0 45 [
    .inLine "comment" 0 9 [],
    .inLine "comment" 10 17 [],
    .inLine "ambient_declaration" 18 45 [
      .inLine "declare" 18 25 [],
      moduleFrom 26 [.inLine "comment" 33 40 []] 41]]

/-- The same without its plain comments. -/
def uncommentedModule : Tree :=
  .inLine "program" 0 45 [
    .inLine "comment" 0 9 [],
    .inLine "ambient_declaration" 18 45 [
      .inLine "declare" 18 25 [],
      moduleFrom 26 [] 41]]

def forCommentedModule : Walker :=
  { Walker.ofText .typeScript "/** A. */ /* x */ declare module /* y */ M {}" with
    stripHeader := false }

theorem pruned_commentedModule :
    commentedModule.Pruned forCommentedModule.source uncommentedModule := by
  have hmodule : (moduleFrom 26 [.inLine "comment" 33 40 []] 41).Pruned forCommentedModule.source
      (moduleFrom 26 [] 41) :=
    .node (.keep (.refl _ _) (.drop (by decide +kernel) (.refl _ _)))
  have hambient : Tree.PrunedRow forCommentedModule.source
      [.inLine "declare" 18 25 [], moduleFrom 26 [.inLine "comment" 33 40 []] 41]
      [.inLine "declare" 18 25 [], moduleFrom 26 [] 41] :=
    .keep (.refl _ _) (.keep hmodule .nil)
  exact .node (.keep (.refl _ _) (.drop (by decide +kernel) (.keep (.node hambient) .nil)))

/-- The comment before the statement and the one inside the module make no difference. -/
theorem visitRoot_eq_of_pruned_commentedModule :
    ∃ entries, (forCommentedModule.visitRoot (.ofRoot commentedModule)).outcome = .ok entries ∧
      entries.length = 1 ∧
      (forCommentedModule.visitRoot (.ofRoot uncommentedModule)).outcome = .ok entries ∧
      (forCommentedModule.visitRoot (.ofRoot commentedModule)).diagnostics =
        (forCommentedModule.visitRoot (.ofRoot uncommentedModule)).diagnostics := by
  have htable : forCommentedModule.table = Language.typeScript.table := rfl
  obtain ⟨entries, hentries, hlength⟩ :
      ∃ entries, (forCommentedModule.visitRoot (.ofRoot commentedModule)).outcome = .ok entries ∧
        (entries.length == 1) = true := Walk.exists_ok_of_any (by decide +kernel)
  obtain ⟨houtcome, hdiagnostics⟩ := visitRoot_eq_of_pruned htable rfl pruned_commentedModule
    (by decide +kernel)
  exact ⟨entries, hentries, beq_iff_eq.1 hlength, houtcome ▸ hentries, hdiagnostics⟩

/-- `declare /* x */ module M {}`, with the comment or without it -/
def declaredModule (comments : List Tree) : Tree :=
  .inLine "program" 0 27 [
    .inLine "ambient_declaration" 0 27 (.inLine "declare" 0 7 [] :: comments ++
      [moduleFrom 16 [] 23])]

def forDeclaredModule : Walker :=
  { Walker.ofText .typeScript "declare /* x */ module M {}" with stripHeader := false }

/-- A comment between `declare` and a module hides the module. -/
theorem comment_before_module_hides :
    ¬ ∀ (w : Walker) (language : Language) (tree tree' : Tree), w.table = language.table →
      w.stripHeader = false → tree.Pruned w.source tree' →
      (w.visitRoot (.ofRoot tree)).outcome = (w.visitRoot (.ofRoot tree')).outcome ∧
        (w.visitRoot (.ofRoot tree)).diagnostics = (w.visitRoot (.ofRoot tree')).diagnostics := by
  intro hall
  have hambient : Tree.PrunedRow forDeclaredModule.source
      [.inLine "declare" 0 7 [], .inLine "comment" 8 15 [], moduleFrom 16 [] 23]
      [.inLine "declare" 0 7 [], moduleFrom 16 [] 23] :=
    .keep (.refl _ _) (.drop (by decide +kernel) (.refl _ _))
  have hpruned : (declaredModule [.inLine "comment" 8 15 []]).Pruned forDeclaredModule.source
      (declaredModule []) := .node (.keep (.node hambient) .nil)
  obtain ⟨hsame, -⟩ := hall forDeclaredModule .typeScript _ _ rfl rfl hpruned
  obtain ⟨hidden, hhidden, hnone⟩ : ∃ entries,
      (forDeclaredModule.visitRoot (.ofRoot (declaredModule [.inLine "comment" 8 15 []]))).outcome =
        .ok entries ∧ (entries.length == 0) = true := Walk.exists_ok_of_any (by decide +kernel)
  obtain ⟨shown, hshown, hone⟩ : ∃ entries,
      (forDeclaredModule.visitRoot (.ofRoot (declaredModule []))).outcome = .ok entries ∧
        (entries.length == 1) = true := Walk.exists_ok_of_any (by decide +kernel)
  rw [hhidden, hshown] at hsame
  cases hsame
  rw [beq_iff_eq.1 hnone] at hone
  cases hone

end Walker

end DocOutline
