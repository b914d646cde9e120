import DocOutline.Proofs.Places
import DocOutline.Proofs.Walks
import DocOutline.Walk.Site
import Mathlib.Tactic.SplitIfs

/-!
# Dispatch at places

A site holds the walks that can start at a place. Here they are taken out of the sites again:
each of the walks from a place is an equation over the walks from its children and from the
places after it, and later proofs use these equations alone.

What a comment documents is found by reading the texts of the comments on the way, which can
fault. If it does not, it is a plain search in the places after the comment
(`documented?_eq_ok`, `declared?_eq_ok`).
-/

namespace DocOutline.Walker

/-! ## Sites of places -/

theorem site_eq (w : Walker) (p : Place) :
    w.site p = w.siteOf p.index p.tree (p.children.map w.site) (p.after.map w.site) := by
  rw [site, sitesBelow_eq, sites_eq_map_row, sites_eq_map_row]
  rfl

@[simp] theorem site_index (w : Walker) (p : Place) : (w.site p).index = p.index := by
  rw [site_eq, siteOf]

@[simp] theorem site_tree (w : Walker) (p : Place) : (w.site p).tree = p.tree := by
  rw [site_eq, siteOf]

@[simp] theorem site_kind (w : Walker) (p : Place) : (w.site p).kind = p.tree.kind := by
  rw [Site.kind, site_tree]

@[simp] theorem site_later (w : Walker) (p : Place) :
    (w.site p).later = p.after.map w.site := by
  rw [site_eq, siteOf]

@[simp] theorem site_visit (w : Walker) (p : Place) : (w.site p).visit = w.visit p := by
  rw [visit]

@[simp] theorem site_comment (w : Walker) (p : Place) :
    (w.site p).comment = w.visitComment p := by
  rw [visitComment]

@[simp] theorem site_context (w : Walker) (p : Place) (inherited : Properties) :
    (w.site p).context inherited = w.visitContext p inherited := by
  rw [visitContext]

/-- Context dispatch on the site that a comment documents, if there is one. -/
def contextOf : Option Site → Walk (Option Entry)
  | some next => next.context .empty
  | none => pure none

theorem visitComment_eq (w : Walker) (p : Place) :
    w.visitComment p = (do
      let answer ← liftM (p.tree.isDocumentation w.source)
      if answer then
        let found ← liftM (w.documented? (p.after.map w.site))
        let context ← contextOf found
        w.make p.tree (.documented context)
      else pure none) := by
  rw [visitComment, site_eq]
  show w.commentAt p.tree (p.after.map w.site) = _
  unfold commentAt
  congr 1
  funext answer
  split
  · congr 1
    funext found
    cases found <;> rfl
  · rfl

theorem visit_eq (w : Walker) (p : Place) :
    w.visit p = w.visitAt p.tree (p.children.map w.site) (w.visitComment p) := by
  rw [visit, visitComment, site_eq]
  rfl

theorem visitContext_eq (w : Walker) (p : Place) (inherited : Properties) :
    w.visitContext p inherited =
      w.contextAt p.tree (p.children.map w.site) (w.visit p) (w.visitComment p) inherited := by
  rw [visitContext, visit, visitComment, site_eq]
  rfl

theorem visitProgram_eq (w : Walker) (p : Place) :
    w.visitProgram p = w.program (p.children.map w.site) := by
  rw [visitProgram, sitesBelow_eq, sites_eq_map_row]
  rfl

/-! ## What a comment documents -/

/-- The node is a documentation comment, and its text can be read. -/
def isDoc (w : Walker) (p : Place) : Bool :=
  match p.tree.isDocumentation w.source with
  | .ok answer => answer
  | .error _ => false

theorem isDoc_eq_of_ok {w : Walker} {p : Place} {answer : Bool}
    (h : p.tree.isDocumentation w.source = .ok answer) : w.isDoc p = answer := by
  rw [isDoc, h]

/-- Only a comment is a documentation comment. -/
theorem isComment_of_isDoc {w : Walker} {p : Place} (h : w.isDoc p = true) :
    p.tree.isComment = true := by
  by_contra hc
  simp [isDoc, Tree.isDocumentation, Tree.commentSatisfies, hc, pure, Except.pure] at h

/-- The sibling that a comment documents: the first one after it that is no plain comment. -/
def documentedBy (w : Walker) (p : Place) : Option Place :=
  p.after.find? fun q => !q.tree.isComment || w.isDoc q

/-- The sibling that a chain of comments documents in the end: the first one that is no
comment. -/
def declaredBy (p : Place) : Option Place :=
  p.after.find? fun q => !q.tree.isComment

theorem documented?_eq_ok {w : Walker} {places : List Place} {found : Option Site}
    (h : w.documented? (places.map w.site) = .ok found) :
    found = (places.find? fun q => !q.tree.isComment || w.isDoc q).map w.site := by
  induction places with
  | nil =>
    cases h
    rfl
  | cons p rest ih =>
    simp only [List.map_cons, documented?, site_tree] at h
    by_cases hc : p.tree.isComment = true
    · rw [if_pos hc] at h
      obtain ⟨answer, hdoc, h⟩ := bind_eq_ok_iff.1 h
      have hd := isDoc_eq_of_ok hdoc
      cases answer with
      | true =>
        cases h
        simp [hd]
      | false => simpa [hc, hd] using ih h
    · rw [if_neg hc] at h
      cases h
      simp [hc]

theorem declared?_eq_ok {w : Walker} {places : List Place} {found : Option Site}
    (h : w.declared? (places.map w.site) = .ok found) :
    found = (places.find? fun q => !q.tree.isComment).map w.site := by
  induction places with
  | nil =>
    cases h
    rfl
  | cons p rest ih =>
    simp only [List.map_cons, declared?, site_tree] at h
    by_cases hc : p.tree.isComment = true
    · rw [if_pos hc] at h
      obtain ⟨answer, -, h⟩ := bind_eq_ok_iff.1 h
      simpa [hc] using ih h
    · rw [if_neg hc] at h
      cases h
      simp [hc]

/-- Context dispatch on the sibling that a comment documents, if there is one. -/
def documentedContext (w : Walker) (p : Place) : Walk (Option Entry) :=
  match w.documentedBy p with
  | some q => w.visitContext q .empty
  | none => pure none

theorem documentedContext_of_some {w : Walker} {p q : Place} (h : w.documentedBy p = some q) :
    w.documentedContext p = w.visitContext q .empty := by
  rw [documentedContext, h]

theorem documentedContext_of_none {w : Walker} {p : Place} (h : w.documentedBy p = none) :
    w.documentedContext p = pure none := by
  rw [documentedContext, h]

theorem exists_of_documentedContext {w : Walker} {p : Place} {x : Entry}
    (h : (w.documentedContext p).outcome = .ok (some x)) :
    ∃ q, w.documentedBy p = some q ∧ (w.visitContext q .empty).outcome = .ok (some x) := by
  cases hq : w.documentedBy p with
  | none =>
    rw [documentedContext_of_none hq] at h
    cases h
  | some q =>
    rw [documentedContext_of_some hq] at h
    exact ⟨q, rfl, h⟩

/-- What a node that is no documentation comment gives, and what a documentation comment gives. -/
theorem visitComment_cases {w : Walker} {p : Place} {found : Option Entry}
    (h : (w.visitComment p).outcome = .ok found) :
    (w.isDoc p = false ∧ found = none) ∨
      (w.isDoc p = true ∧ ∃ context, (w.documentedContext p).outcome = .ok context ∧
        (w.make p.tree (.documented context)).outcome = .ok found) := by
  rw [visitComment_eq] at h
  obtain ⟨answer, hanswer, h⟩ := Walk.outcome_bind_eq_ok_iff.1 h
  have hdoc := isDoc_eq_of_ok hanswer
  cases answer with
  | false =>
    cases h
    exact .inl ⟨hdoc, rfl⟩
  | true =>
    obtain ⟨next, hnext, h⟩ := Walk.outcome_bind_eq_ok_iff.1 h
    obtain ⟨context, hcontext, h⟩ := Walk.outcome_bind_eq_ok_iff.1 h
    rw [documented?_eq_ok hnext, ← documentedBy] at hcontext
    refine .inr ⟨hdoc, context, ?_, h⟩
    cases hq : w.documentedBy p with
    | none =>
      rw [hq] at hcontext
      rwa [documentedContext_of_none hq]
    | some q =>
      rw [hq, Option.map_some, contextOf, site_context] at hcontext
      rwa [documentedContext_of_some hq]

theorem mem_after_of_documentedBy {w : Walker} {p q : Place} (h : w.documentedBy p = some q) :
    q ∈ p.after :=
  List.mem_of_find?_eq_some h

theorem mem_after_of_declaredBy {p q : Place} (h : declaredBy p = some q) : q ∈ p.after :=
  List.mem_of_find?_eq_some h

/-- A search that passes over everything before a place goes on after it. -/
theorem find?_after {p q : Place} (hq : q ∈ p.after) {f : Place → Bool}
    (hbefore : ∀ b ∈ p.after, b.index < q.index → f b = false) (hf : f q = false) :
    p.after.find? f = q.after.find? f := by
  obtain ⟨before, hafter, hlt⟩ := Place.after_eq_append hq
  have hnone : before.find? f = none := by
    refine List.find?_eq_none.2 fun b hb => ?_
    rw [hbefore b (hlt b hb).1 (hlt b hb).2]
    exact Bool.false_ne_true
  rw [hafter, List.find?_append, hnone, Option.none_or, List.find?_cons, hf]

/-- All comments between a comment and what its chain documents belong to that chain. -/
theorem declaredBy_of_between {p q d : Place} (hd : declaredBy p = some d) (hq : q ∈ p.after)
    (hlt : q.index < d.index) : q.tree.isComment = true ∧ declaredBy q = some d := by
  have hcomment : ∀ b ∈ p.after, b.index < d.index → b.tree.isComment = true := by
    intro b hb hbd
    by_contra hc
    have := Place.index_le_of_find? p.pairwise_after_lt hd hb (by simpa using hc)
    omega
  refine ⟨hcomment q hq hlt, ?_⟩
  rw [← hd, declaredBy, declaredBy, find?_after hq]
  · intro b hb hbq
    rw [hcomment b hb (Nat.lt_trans hbq hlt)]
    rfl
  · rw [hcomment q hq hlt]
    rfl

/-- What a comment documents is either no comment, or the next comment of its chain. -/
theorem declaredBy_of_documentedBy {w : Walker} {p q : Place} (h : w.documentedBy p = some q) :
    declaredBy p = if q.tree.isComment then declaredBy q else some q := by
  have hq := mem_after_of_documentedBy h
  have hplain : ∀ b ∈ p.after, b.index < q.index → b.tree.isComment = true := by
    intro b hb hbq
    by_contra hc
    have := Place.index_le_of_find? p.pairwise_after_lt h hb (by simp [hc])
    omega
  split_ifs with hcomment
  · rw [declaredBy, declaredBy, find?_after hq]
    · intro b hb hbq
      rw [hplain b hb hbq]
      rfl
    · rw [hcomment]
      rfl
  · obtain ⟨before, hafter, hlt⟩ := Place.after_eq_append hq
    have hnone : before.find? (fun q => !q.tree.isComment) = none := by
      refine List.find?_eq_none.2 fun b hb => ?_
      rw [hplain b (hlt b hb).1 (hlt b hb).2]
      exact Bool.false_ne_true
    rw [declaredBy, hafter, List.find?_append, hnone, Option.none_or, List.find?_cons]
    simp [hcomment]

/-- A comment before something that is no comment documents something. -/
theorem exists_documentedBy {w : Walker} {p d : Place} (h : declaredBy p = some d) :
    ∃ q, w.documentedBy p = some q := by
  have hd := mem_after_of_declaredBy h
  have hnot := List.find?_some h
  have hsome : (w.documentedBy p).isSome = true :=
    List.find?_isSome.2 ⟨d, hd, by rw [hnot, Bool.true_or]⟩
  exact Option.isSome_iff_exists.1 hsome

theorem isDoc_of_documentedBy {w : Walker} {p q : Place} (h : w.documentedBy p = some q)
    (hc : q.tree.isComment = true) : w.isDoc q = true := by
  have := List.find?_some h
  simpa [hc] using this

theorem not_isComment_of_declaredBy {p d : Place} (h : declaredBy p = some d) :
    d.tree.isComment = false := by
  have := List.find?_some h
  simpa using this

end DocOutline.Walker
