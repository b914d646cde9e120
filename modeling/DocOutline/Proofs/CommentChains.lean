import DocOutline.Proofs.Provenance
import DocOutline.Proofs.Tables

/-!
# Chains of documentation comments

A documentation comment may be followed by further comments before the node that it documents
comes. The walk goes from one documentation comment to the next, each time past the plain comments
in between, so it never sees the whole row of comments. What it builds is nevertheless told by the
row alone: the documentation comments of the row are nested into one another in order, and the last
of them holds what context dispatch makes of the first sibling that is no comment
(`Walker.visitComment_eq_nested`). Plain comments leave no trace, however many there are.
-/

namespace DocOutline.Walker

variable {w : Walker} {language : Language} {p q : Place}

/-! ## The row of comments after a node -/

/-- The documentation comments among the comments that follow a node immediately. -/
def docsAfter (w : Walker) (p : Place) : List Place :=
  (p.after.takeWhile (·.tree.isComment)).filter w.isDoc

/-- Context dispatch on the first sibling after a node that is no comment, if there is one. -/
def declaredContext (w : Walker) (p : Place) : Walk (Option Entry) :=
  match declaredBy p with
  | some c => w.visitContext c .empty
  | none => pure none

/-- A row of siblings that begins with plain comments has no documentation comments there. -/
theorem filter_isDoc_takeWhile_append {before rest : List Place}
    (hplain : ∀ b ∈ before, b.tree.isComment = true ∧ w.isDoc b = false) :
    ((before ++ rest).takeWhile (·.tree.isComment)).filter w.isDoc =
      (rest.takeWhile (·.tree.isComment)).filter w.isDoc := by
  induction before with
  | nil => rfl
  | cons b before ih =>
    obtain ⟨hcomment, hdoc⟩ := hplain b List.mem_cons_self
    simp [hcomment, hdoc, ih fun c hc => hplain c (List.mem_cons_of_mem b hc)]

/-- What stands between a comment and the sibling that it documents are plain comments. -/
theorem exists_plain_before (h : w.documentedBy p = some q) :
    ∃ before, p.after = before ++ q :: q.after ∧
      ∀ b ∈ before, b.tree.isComment = true ∧ w.isDoc b = false := by
  obtain ⟨before, hafter, hbefore⟩ := Place.after_eq_append (mem_after_of_documentedBy h)
  refine ⟨before, hafter, fun b hb => ?_⟩
  by_contra hb'
  obtain ⟨hmem, hlt⟩ := hbefore b hb
  have hfound : (!b.tree.isComment || w.isDoc b) = true := by
    cases hcomment : b.tree.isComment <;> simp_all
  have hle := Place.index_le_of_find? p.pairwise_after_lt h hmem hfound
  omega

theorem docsAfter_of_isComment (h : w.documentedBy p = some q)
    (hcomment : q.tree.isComment = true) : w.docsAfter p = q :: w.docsAfter q := by
  obtain ⟨before, hafter, hplain⟩ := exists_plain_before h
  rw [docsAfter, hafter, filter_isDoc_takeWhile_append hplain]
  simp [hcomment, isDoc_of_documentedBy h hcomment, docsAfter]

theorem docsAfter_of_not_isComment (h : w.documentedBy p = some q)
    (hcomment : q.tree.isComment = false) : w.docsAfter p = [] := by
  obtain ⟨before, hafter, hplain⟩ := exists_plain_before h
  rw [docsAfter, hafter, filter_isDoc_takeWhile_append hplain]
  simp [hcomment]

theorem docsAfter_of_none (h : w.documentedBy p = none) : w.docsAfter p = [] := by
  have hplain := List.find?_eq_none.1 h
  refine List.filter_eq_nil_iff.2 fun b hb => ?_
  have := hplain b ((List.takeWhile_subset _) hb)
  simp_all

theorem declaredBy_of_none (h : w.documentedBy p = none) : declaredBy p = none := by
  have hplain := List.find?_eq_none.1 h
  refine List.find?_eq_none.2 fun b hb => ?_
  have := hplain b hb
  simp_all

/-! ## Nested entries -/

/-- The entries of comments, each the context of the one before it; the last has `context`. -/
def nested (w : Walker) (context : Option Entry) : List Place → Except Fault (Option Entry)
  | [] => return context
  | d :: rest => do
    let inner ← w.nested context rest
    let entry ← w.renderer.render d.tree (.documented inner)
    return some entry

theorem nested_cons_eq_ok {context inner : Option Entry} {d : Place} {rest : List Place}
    {e : Entry} (hrest : w.nested context rest = .ok inner)
    (hmade : w.renderer.render d.tree (.documented inner) = .ok e) :
    w.nested context (d :: rest) = .ok (some e) :=
  bind_eq_ok_iff.2 ⟨inner, hrest, bind_eq_ok_iff.2 ⟨e, hmade, rfl⟩⟩

/-- Context dispatch on a comment is the walk of a documentation comment. -/
theorem outcome_visitContext_of_isComment (hw : w.table = language.table)
    (hcomment : p.tree.isComment = true) (inherited : Properties) :
    (w.visitContext p inherited).outcome = (w.visitComment p).outcome := by
  have hkind : p.tree.kind = commentKind := beq_iff_eq.1 hcomment
  rw [visitContext_eq, contextAt, hkind, isNoise_comment, hw, language.rule?_comment]
  simp only [Bool.and_false, Bool.false_eq_true, if_false, Walk.outcome_bind]
  rfl

/-- What is built from a documentation comment on. -/
theorem nested_of_isDoc (hw : w.table = language.table) (hdoc : w.isDoc p = true)
    {found : Option Entry} (h : (w.visitComment p).outcome = .ok found) :
    ∃ context, (w.declaredContext p).outcome = .ok context ∧
      w.nested context (p :: w.docsAfter p) = .ok found := by
  induction p using Place.induction generalizing found with
  | step p _ ih =>
    rcases visitComment_cases h with ⟨hplain, -⟩ | ⟨-, inner, hinner, hmade⟩
    · rw [hdoc] at hplain
      cases hplain
    obtain ⟨e, rfl, he⟩ := make_eq_ok_iff.1 hmade
    cases hq : w.documentedBy p with
    | none =>
      rw [documentedContext_of_none hq] at hinner
      refine ⟨inner, ?_, ?_⟩
      · rwa [declaredContext, declaredBy_of_none hq]
      · rw [docsAfter_of_none hq]
        exact nested_cons_eq_ok rfl he
    | some q =>
      rw [documentedContext_of_some hq] at hinner
      have hdeclared := declaredBy_of_documentedBy hq
      by_cases hcomment : q.tree.isComment = true
      · -- The next comment of the chain, with everything that comes after it.
        rw [outcome_visitContext_of_isComment hw hcomment] at hinner
        obtain ⟨context, hcontext, hnested⟩ := ih q (mem_after_of_documentedBy hq)
          (isDoc_of_documentedBy hq hcomment) hinner
        rw [if_pos hcomment] at hdeclared
        refine ⟨context, ?_, ?_⟩
        · rwa [declaredContext, hdeclared]
        · rw [docsAfter_of_isComment hq hcomment]
          exact nested_cons_eq_ok hnested he
      · rw [if_neg hcomment] at hdeclared
        refine ⟨inner, ?_, ?_⟩
        · rwa [declaredContext, hdeclared]
        · rw [docsAfter_of_not_isComment hq (Bool.eq_false_iff.2 hcomment)]
          exact nested_cons_eq_ok rfl he

/-- **A documentation comment holds the chain of those after it**, and the last of them holds what
context dispatch makes of the first sibling that is no comment. Any other comment gives nothing. -/
theorem visitComment_eq_nested (hw : w.table = language.table) (p : Place) :
    (p.tree.isDocumentation w.source = .ok true →
      ∀ found, (w.visitComment p).outcome = .ok found →
        ∃ context, (w.declaredContext p).outcome = .ok context ∧
          w.nested context (p :: w.docsAfter p) = .ok found) ∧
      (p.tree.isDocumentation w.source = .ok false → w.visitComment p = pure none) := by
  constructor
  · intro hdoc found h
    exact nested_of_isDoc hw (isDoc_eq_of_ok hdoc) h
  · intro hplain
    rw [visitComment_eq, hplain]
    rfl

/-- `/** A. */`, before ` /* x */ /** B. */ /* y */ class E {}` -/
def firstOfChain : Place :=
  ⟨1, .inLine "comment" 0 9 [], [
    .inLine "comment" 10 17 [],
    .inLine "comment" 18 27 [],
    .inLine "comment" 28 35 [],
    .inLine "class_declaration" 36 46 [
      .inLine "class" 36 41 [],
      .inLine "identifier" 42 43 [],
      .inLine "class_body" 44 46 []]]⟩

/-- `/* y */`, before ` class E {}` -/
def plainInChain : Place :=
  ⟨4, .inLine "comment" 28 35 [], [.inLine "class_declaration" 36 46 []]⟩

def forFirstOfChain : Walker :=
  .ofText .javaScript "/** A. */ /* x */ /** B. */ /* y */ class E \x7b\x7d"

/-- The second documentation comment is the context of the first, and the class its context. -/
theorem visitComment_eq_nested_firstOfChain :
    ∃ found context, (forFirstOfChain.visitComment firstOfChain).outcome = .ok (some found) ∧
      (found.context.any fun x =>
        x.text == "/** B. */" && x.context.any (·.kind == "class")) = true ∧
      (forFirstOfChain.docsAfter firstOfChain).map (·.index) = [3] ∧
      (forFirstOfChain.declaredContext firstOfChain).outcome = .ok context ∧
      forFirstOfChain.nested context (firstOfChain :: forFirstOfChain.docsAfter firstOfChain) =
        .ok (some found) ∧
      forFirstOfChain.visitComment plainInChain = pure none := by
  have htable : forFirstOfChain.table = Language.javaScript.table := rfl
  obtain ⟨found, hfound, hshape⟩ :
      ∃ found, (forFirstOfChain.visitComment firstOfChain).outcome = .ok found ∧
        (found.any fun e => e.context.any fun x =>
          x.text == "/** B. */" && x.context.any (·.kind == "class")) = true :=
    Walk.exists_ok_of_any (by decide +kernel)
  obtain ⟨e, rfl, he⟩ := (Option.any_eq_true _ _).1 hshape
  obtain ⟨context, hcontext, hnested⟩ :=
    (visitComment_eq_nested htable firstOfChain).1 (by decide +kernel) _ hfound
  exact ⟨e, context, hfound, he, by decide +kernel, hcontext, hnested,
    (visitComment_eq_nested htable plainInChain).2 (by decide +kernel)⟩

end DocOutline.Walker
