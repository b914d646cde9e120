import DocOutline.Proofs.Missing
import DocOutline.Proofs.TopLevel

/-!
# Faults inside top-level statements

An exporting or a wrapping statement passes the walk on to the declaration inside it. The other
children of the statement are not looked at, so a syntax error or a missing token next to the
declaration goes unreported. Only a statement that exports no declaration goes through its
children, as a container does.

`Walker.reportsChild` says exactly which faults among the children of a statement are reported.
The proof follows the walk in both directions: a fault that is reported lies below the focus of
every task on the way to its report, which leaves only one way there.

Main result: `Walker.fault_reported_iff`.
-/

namespace DocOutline.Walker

variable {w : Walker} {language : Language}

/-! ## Following a walk to a report -/

/-- A walk to a report begins with one of the steps. -/
theorem Reaches.exists_step {t : Task} {n : Place} (h : w.Reaches t (.report n))
    (ht : t ≠ .report n) : ∃ s ∈ w.steps t, w.Reaches s (.report n) := by
  rcases Relation.ReflTransGen.cases_head h with heq | ⟨s, hs, hreach⟩
  · exact absurd heq ht
  · exact ⟨s, hs, hreach⟩

theorem Reaches.of_single {t s : Task} {n : Place} (h : w.Reaches t (.report n))
    (ht : t ≠ .report n) (hsteps : w.steps t = [s]) : w.Reaches s (.report n) := by
  obtain ⟨s', hs', hreach⟩ := h.exists_step ht
  rw [hsteps, List.mem_singleton] at hs'
  rwa [← hs']

/-- A task whose steps are all done at children of its node does not report the node itself. -/
theorem not_reaches_of_steps_below (hw : w.table = language.table) {t : Task}
    (ht : t ≠ .report t.place) (hbelow : ∀ s ∈ w.steps t, s.place ∈ t.place.children) :
    ¬ w.Reaches t (.report t.place) := by
  intro h
  obtain ⟨s, hs, hreach⟩ := h.exists_step ht
  obtain ⟨c, hc, hn⟩ := hreach.exists_focus hw
  have hlt := Place.index_lt_of_mem_children (Task.mem_children_of_focus (hbelow s hs) hc) hn
  exact Nat.lt_irrefl _ hlt

/-! ## Along a chain of comments -/

/-- From the first comment of a chain the walk gets to what the chain documents, and from there
to every report that it makes. -/
theorem reaches_comment_iff (hw : w.table = language.table) {p d : Place} (hdoc : w.isDoc p = true)
    (hd : declaredBy p = some d) {n : Place} :
    w.Reaches (.comment p) (.report n) ↔ w.Reaches (.context d .empty) (.report n) := by
  induction p using Place.induction with
  | step p _ ih =>
    obtain ⟨q, hq⟩ := exists_documentedBy (w := w) hd
    have hsteps := steps_comment_of_documentedBy hdoc hq
    have hchain := declaredBy_of_documentedBy hq
    have hfirst : w.Reaches (.comment p) (.report n) ↔ w.Reaches (.context q .empty) (.report n) :=
      ⟨fun h => h.of_single (by simp) hsteps, .head (hsteps ▸ List.mem_singleton_self _)⟩
    rw [hfirst]
    split_ifs at hchain with hcomment
    · have hnext := steps_context_of_isComment hw hcomment .empty
      have hrest := ih q (mem_after_of_documentedBy hq) (isDoc_of_documentedBy hq hcomment)
        (hchain ▸ hd)
      rw [← hrest]
      exact ⟨fun h => h.of_single (by simp) hnext, .head (hnext ▸ List.mem_singleton_self _)⟩
    · rw [hd] at hchain
      rw [Option.some.inj hchain]

/-! ## Coming to a top-level statement -/

/-- A node that the latest pair documents is the context of the comment of that pair. -/
theorem latestAt_eq_some {latest : Option Nat} {p : Place} {i : Nat}
    (h : w.latestAt latest p = some i) :
    latest = some i ∨ ∃ d, w.isDoc p = true ∧ w.documentedBy p = some d ∧ d.index = i := by
  rw [latestAt] at h
  split_ifs at h with hforms
  · obtain ⟨d, hd, hi⟩ := Option.map_eq_some_iff.1 h
    refine .inr ⟨d, ?_, hd, hi⟩
    rw [formsPair] at hforms
    split at hforms
    · rename_i found hfound
      obtain ⟨pair, rfl⟩ := Option.isSome_iff_exists.1 hforms
      exact (pairAt_eq_some hfound).1
    · cases hforms
  · exact .inl h

/-- A declaration of a program is taken up, by itself or as the context of a comment before. -/
theorem exists_programStep {root c : Place} (halone : w.standsAlone c.tree = true)
    {places : List Place} (hmem : ∀ p ∈ places, p ∈ root.children) (hc : c ∈ places)
    {latest : Option Nat} (hlatest : latest ≠ some c.index) :
    .context c .empty ∈ w.programSteps latest places ∨
      ∃ p, .comment p ∈ w.programSteps latest places ∧ w.isDoc p = true ∧
        w.documentedBy p = some c := by
  have hcomment := not_isComment_of_standsAlone halone
  simp only [standsAlone, Bool.and_eq_true, Bool.not_eq_true'] at halone
  induction places generalizing latest with
  | nil => cases hc
  | cons p rest ih =>
    have hrest := fun q hq => hmem q (List.mem_cons_of_mem p hq)
    have hkeep : ∀ {s : Task} {latest : Option Nat},
        (.context c .empty ∈ w.programSteps latest rest ∨
          ∃ p, .comment p ∈ w.programSteps latest rest ∧ w.isDoc p = true ∧
            w.documentedBy p = some c) →
        (.context c .empty ∈ s :: w.programSteps latest rest ∨
          ∃ p, .comment p ∈ s :: w.programSteps latest rest ∧ w.isDoc p = true ∧
            w.documentedBy p = some c) :=
      .imp (List.mem_cons_of_mem _) (.imp fun _ => .imp_left (List.mem_cons_of_mem _))
    rw [programSteps]
    rcases List.mem_cons.1 hc with rfl | hc
    · simp [halone, hlatest]
    split_ifs with hfault hcommentAt htop hlatestAt
    · exact hkeep (ih hrest hc hlatest)
    · by_cases hnext : w.latestAt latest p = some c.index
      · rcases latestAt_eq_some hnext with hbefore | ⟨d, hdoc, hd, hindex⟩
        · exact absurd hbefore hlatest
        · have hrow := Place.mem_row_of_mem_after (hmem p List.mem_cons_self)
            (mem_after_of_documentedBy hd)
          rw [Place.eq_of_index_eq hrow (hrest c hc) hindex] at hd
          exact .inr ⟨p, List.mem_cons_self, hdoc, hd⟩
      · exact hkeep (ih hrest hc hnext)
    · exact ih hrest hc hlatest
    · exact hkeep (ih hrest hc hlatest)
    · exact ih hrest hc hlatest

/-- What a program reports below one of its declarations is what context dispatch on the
declaration reports. -/
theorem reaches_program_iff (hw : w.table = language.table) {root c n : Place}
    (hc : c ∈ root.children) (halone : w.standsAlone c.tree = true)
    (hret : w.Returns (.program root)) (hn : n ∈ c.subtree) (hne : n ≠ c) :
    w.Reaches (.program root) (.report n) ↔ w.Reaches (.context c .empty) (.report n) := by
  have hcomment := not_isComment_of_standsAlone halone
  constructor
  · intro h
    obtain ⟨s, hs, hreach⟩ := h.exists_step (by simp)
    rw [steps] at hs
    split at hs
    swap
    · cases hs
    rename_i children hbody
    have hplace := (body_sublist hbody).subset
      ((w.programSteps_sublist none children).subset (List.mem_map_of_mem hs))
    -- The focus of the step is a child of the program with the node below it, hence `c`.
    obtain ⟨f, hfocus, hnf⟩ := hreach.exists_focus hw
    have hf : f = c :=
      Place.eq_of_index_subtree_eq (Task.mem_children_of_focus hplace hfocus) hc hnf hn rfl
    subst hf
    rcases mem_programSteps hs with ⟨p, rfl⟩ | ⟨p, rfl, -⟩ | ⟨p, rfl, hp⟩
    · obtain rfl : p = f := Option.some.inj hfocus
      rcases Relation.ReflTransGen.cases_head hreach with heq | ⟨_, hnone, -⟩
      · exact absurd (Task.report.inj heq).symm hne
      · cases hnone
    · have hdoc : w.isDoc p = true := by
        by_contra hdoc
        obtain ⟨_, hnone, -⟩ := hreach.exists_step (by simp)
        rw [steps, if_neg hdoc] at hnone
        cases hnone
      exact (reaches_comment_iff hw hdoc hfocus).1 hreach
    · rw [Task.focus, hp] at hfocus
      obtain rfl : p = f := Option.some.inj hfocus
      exact hreach
  · intro h
    obtain ⟨entries, hentries⟩ := hret
    obtain ⟨children, -, -, hbody, -⟩ := visitProgram_eq_ok hentries
    have hsteps : w.steps (.program root) = w.programSteps none children := by
      rw [steps, hbody]
    have hchildren : ∀ p ∈ children, p ∈ root.children :=
      fun p hp => (body_sublist hbody).subset hp
    have hlatest : (none : Option Nat) ≠ some c.index := by simp
    rcases exists_programStep halone hchildren (mem_body hbody hc hcomment) hlatest with
      hstep | ⟨p, hstep, hdoc, hd⟩
    · exact .head (hsteps ▸ hstep) h
    · refine .head (hsteps ▸ hstep) ((reaches_comment_iff hw hdoc ?_).2 h)
      rw [declaredBy_of_documentedBy hd, hcomment]
      rfl

/-! ## Faults among the children of a statement -/

/-- The node is missing or a syntax error. -/
def isFault (tree : Tree) : Bool :=
  tree.missing || tree.kind == errorKind

/-- An exporting or a wrapping statement. -/
def isStatement (w : Walker) (tree : Tree) : Bool :=
  (w.table.rule? tree.kind).any fun rule => rule.role == .exporter || rule.role == .wrapper

/-- The comments among the children of a statement whose chain documents the child. -/
def documenters (w : Walker) (c q : Place) : List Place :=
  c.children.filter fun p => w.isDoc p && (declaredBy p).any (·.index == q.index)

/-- A fault among the children of a statement is reported. Next to the declaration inside the
statement no child is; a statement without a declaration goes through its children, but passes
over export tokens, and leaves a child that is documented to its comments. -/
def reportsChild (w : Walker) (c q : Place) : Bool :=
  match w.innerChild c with
  | some inner => inner.index == q.index && w.fallsBack inner
  | none =>
    if (w.documenters c q).isEmpty then !isExportToken (w.site q)
    else (w.documenters c q).any (!·.tree.missing)

theorem mem_documenters {c p q : Place} (hq : q ∈ c.children) :
    p ∈ w.documenters c q ↔ p ∈ c.children ∧ w.isDoc p = true ∧ declaredBy p = some q := by
  simp only [documenters, List.mem_filter, Bool.and_eq_true, Option.any_eq_true, beq_iff_eq]
  constructor
  · rintro ⟨hp, hdoc, d, hd, hindex⟩
    have hrow := Place.mem_row_of_mem_after hp (mem_after_of_declaredBy hd)
    exact ⟨hp, hdoc, Place.eq_of_index_eq hrow hq hindex ▸ hd⟩
  · rintro ⟨hp, hdoc, hd⟩
    exact ⟨hp, hdoc, q, hd, rfl⟩

theorem not_isNoise_of_isFault {tree : Tree} (h : isFault tree = true) :
    (!tree.missing && isNoise tree.kind) = false := by
  have herror : isNoise errorKind = false := by decide
  rcases Bool.or_eq_true _ _ ▸ h with hmissing | hkind
  · simp [hmissing]
  · simp [beq_iff_eq.1 hkind, herror]

theorem steps_visit_of_isFault {q : Place} (h : isFault q.tree = true) :
    w.steps (.visit q) = [.report q] := by
  rw [steps]
  rcases Bool.or_eq_true _ _ ▸ h with hmissing | hkind
  · rw [if_pos hmissing]
  · rw [Table.bucket?_eq_error_iff.2 (beq_iff_eq.1 hkind)]
    simp

theorem steps_context_of_fallsBack {q : Place} (h : isFault q.tree = true)
    (hback : w.fallsBack q = true) (inherited : Properties) :
    w.steps (.context q inherited) = [.visit q] := by
  rw [steps, not_isNoise_of_isFault h]
  rw [fallsBack] at hback
  cases hrule : w.table.rule? q.tree.kind with
  | none => simp
  | some rule =>
    rw [hrule] at hback
    simp only [Bool.and_eq_true, beq_iff_eq, Option.isNone_iff_eq_none] at hback
    simp [ruleSteps, hback]

/-- A container comes to every child that is no noise and has no comment to document it. -/
theorem mem_visited {c q : Place} (hnoise : (!q.tree.missing && isNoise q.tree.kind) = false)
    {places : List Place} (hmem : ∀ p ∈ places, p ∈ c.children) (hq : q ∈ places)
    (hfree : ∀ p ∈ places, w.isDoc p = true → declaredBy p ≠ some q) {paired : Option Nat}
    (hpaired : paired ≠ some q.index) : q ∈ w.visited paired places := by
  induction places generalizing paired with
  | nil => cases hq
  | cons p rest ih =>
    have hrest := fun r hr => hmem r (List.mem_cons_of_mem p hr)
    have hfree' := fun r hr => hfree r (List.mem_cons_of_mem p hr)
    rw [visited]
    rcases List.mem_cons.1 hq with rfl | hq
    · simp [hnoise, hpaired]
    split_ifs
    · exact ih hrest hq hfree' hpaired
    · exact ih hrest hq hfree' hpaired
    · refine List.mem_cons_of_mem p (ih hrest hq hfree' fun htaken => ?_)
      rw [takenAt] at htaken
      split_ifs at htaken with hdoc
      · obtain ⟨d, hd, hindex⟩ := Option.map_eq_some_iff.1 htaken
        have hrow := Place.mem_row_of_mem_after (hmem p List.mem_cons_self)
          (mem_after_of_declaredBy hd)
        rw [Place.eq_of_index_eq hrow (hrest q hq) hindex] at hd
        exact hfree p List.mem_cons_self hdoc hd
      · exact hpaired htaken

/-- A container comes to every comment. -/
theorem mem_visited_of_isComment {c q : Place} (hcomment : q.tree.isComment = true)
    {places : List Place} (hmem : ∀ p ∈ places, p ∈ c.children) (hq : q ∈ places) :
    q ∈ w.visited none places := by
  have hnoise : isNoise q.tree.kind = false := by
    rw [beq_iff_eq.1 hcomment]
    exact isNoise_comment
  refine mem_visited (by simp [hnoise]) hmem hq (fun p _ _ hd => ?_) (by simp)
  rw [not_isComment_of_declaredBy hd] at hcomment
  cases hcomment

/-! ## Inside one statement -/

/-- Context dispatch on a declaration falls back, or goes on at its children. -/
theorem place_mem_children_of_step (hw : w.table = language.table) {p : Place}
    (hdecl : w.table.isDeclaration p.tree.kind = true) (hback : w.fallsBack p = false)
    {inherited : Properties} {s : Task} (hs : s ∈ w.steps (.context p inherited)) :
    s.place ∈ p.children := by
  have hcontainer : ∀ {places : List Place}, places.Sublist p.children →
      s ∈ (w.visited none places).map .visit → s.place ∈ p.children :=
    fun hsub hs => (GoesThrough.container _ hsub).place_mem hs
  rw [steps] at hs
  split at hs
  · cases hs
  rw [fallsBack] at hback
  cases hrule : w.table.rule? p.tree.kind with
  | none =>
    rw [hrule] at hback
    cases hback
  | some rule =>
    simp only [hrule, ruleSteps] at hs hback
    cases hrole : rule.role with
    | comment =>
      have hkind := language.kind_eq_of_role_comment (hw ▸ hrule) hrole
      exact absurd hkind (language.isDeclaration_iff.1 (hw ▸ hdecl)).2
    | exporter =>
      simp only [hrole] at hs
      cases hchild : w.exportedChild p with
      | some q =>
        simp only [hchild, List.mem_singleton] at hs
        rw [hs]
        exact List.mem_of_find?_eq_some hchild
      | none =>
        simp only [hchild] at hs
        exact hcontainer List.filter_sublist hs
    | wrapper =>
      simp only [hrole] at hs hback
      cases hchild : w.wrappedChild rule p with
      | some q =>
        simp only [hchild, List.mem_singleton] at hs
        rw [hs]
        exact List.mem_of_find?_eq_some hchild
      | none => simp [hchild] at hback
    | declaration =>
      simp only [hrole] at hs
      exact hcontainer List.eraseP_sublist hs
    | nameSpace =>
      simp only [hrole] at hs
      exact hcontainer List.eraseP_sublist hs
    | ambientModule =>
      simp only [hrole] at hs
      exact hcontainer List.eraseP_sublist hs

/-- A fault that context dispatch comes to without a rule for it is reported. -/
theorem reaches_report_of_fallsBack {q : Place} (hfault : isFault q.tree = true)
    (hback : w.fallsBack q = true) (inherited : Properties) :
    w.Reaches (.context q inherited) (.report q) := by
  have hvisit := steps_context_of_fallsBack hfault hback inherited
  have hreport := steps_visit_of_isFault (w := w) hfault
  exact .head (hvisit ▸ List.mem_singleton_self _) (.single (hreport ▸ List.mem_singleton_self _))

/-- A statement with a declaration inside reports of its children at most the declaration
itself. -/
theorem reaches_context_of_innerChild (hw : w.table = language.table) {c q inner : Place}
    (hnoise : (!c.tree.missing && isNoise c.tree.kind) = false) (hq : q ∈ c.children)
    (hfault : isFault q.tree = true) (hinner : w.innerChild c = some inner) :
    w.Reaches (.context c .empty) (.report q) ↔
      inner.index = q.index ∧ w.fallsBack inner = true := by
  obtain ⟨hchild, hdecl⟩ := innerChild_eq_some hinner
  obtain ⟨handed, hsteps⟩ := steps_context_of_innerChild hnoise hinner .empty
  constructor
  · intro h
    have hreach := h.of_single (by simp) hsteps
    obtain ⟨f, hfocus, hn⟩ := hreach.exists_focus hw
    rw [Task.focus, not_isComment_of_isDeclaration hw hdecl] at hfocus
    obtain rfl : inner = f := Option.some.inj hfocus
    obtain rfl := Place.eq_of_index_subtree_eq hchild hq hn q.mem_subtree_self rfl
    refine ⟨rfl, by_contra fun hback => ?_⟩
    refine not_reaches_of_steps_below hw (t := .context inner handed) (by simp) ?_ hreach
    exact fun s => place_mem_children_of_step hw hdecl (Bool.eq_false_iff.2 hback)
  · rintro ⟨hindex, hback⟩
    obtain rfl := Place.eq_of_index_eq hchild hq hindex
    exact .head (hsteps ▸ List.mem_singleton_self _)
      (reaches_report_of_fallsBack hfault hback handed)

/-- What the statement passes over is not built: it has no rule. -/
theorem rule?_eq_none_of_exportedChild (hw : w.table = language.table) {c q : Place}
    (hnone : w.exportedChild c = none) (hq : q ∈ c.children) (hcomment : q.tree.isComment = false) :
    w.table.rule? q.tree.kind = none := by
  have hnot := List.find?_eq_none.1 hnone q hq
  have hkind : q.tree.kind ≠ commentKind := fun h => by
    rw [Tree.isComment, h] at hcomment
    cases hcomment
  by_contra hrule
  have hdecl := language.isDeclaration_iff.2 ⟨hw ▸ hrule, hkind⟩
  have htoken : q.tree.kind ∈ [exportKind, defaultKind, decoratorKind] := by
    simp only [isExported, isExportToken, site_kind, hw, hdecl] at hnot
    simp only [List.mem_cons, List.not_mem_nil, or_false]
    by_contra htoken
    simp_all
  exact hrule (hw ▸ language.rule?_of_token htoken)

/-- The children of a statement without its export tokens. -/
def withoutTokens (w : Walker) (c : Place) : List Place :=
  c.children.filter fun q => !isExportToken (w.site q)

theorem mem_withoutTokens {c p : Place} :
    p ∈ w.withoutTokens c ↔ p ∈ c.children ∧ isExportToken (w.site p) = false := by
  simp [withoutTokens, List.mem_filter]

theorem steps_context_of_exporter {c : Place} {rule : Rule}
    (hnoise : (!c.tree.missing && isNoise c.tree.kind) = false)
    (hrule : w.table.rule? c.tree.kind = some rule) (hrole : rule.role = .exporter)
    (hnone : w.exportedChild c = none) :
    w.steps (.context c .empty) = (w.visited none (w.withoutTokens c)).map .visit := by
  rw [steps, hnoise, hrule]
  simp only [Bool.false_eq_true, if_false, ruleSteps, hrole, hnone, withoutTokens]

section Exporter

variable {c p q : Place} (hq : q ∈ c.children)

include hq

/-- No comment is an export token, so each of them is visited. -/
theorem mem_visited_of_mem_documenters (hp : p ∈ w.documenters c q) :
    p ∈ w.visited none (w.withoutTokens c) := by
  obtain ⟨hchild, hdoc, -⟩ := (mem_documenters hq).1 hp
  have hcomment := isComment_of_isDoc hdoc
  refine mem_visited_of_isComment hcomment (fun p hp => (mem_withoutTokens.1 hp).1)
    (mem_withoutTokens.2 ⟨hchild, ?_⟩)
  rw [isExportToken, site_kind, beq_iff_eq.1 hcomment]
  decide

/-- A comment by way of which the child is reported documents it. -/
theorem mem_documenters_of_reaches (hp : p ∈ c.children) (hcomment : p.tree.isComment = true)
    (hpresent : p.tree.missing = false) (hd : declaredBy p = some q)
    (hreach : w.Reaches (.visit p) (.report q)) : p ∈ w.documenters c q := by
  have hnext := hreach.of_single (by simp) (steps_visit_of_isComment hcomment hpresent)
  have hdoc : w.isDoc p = true := by
    by_contra hdoc
    obtain ⟨_, hnil, -⟩ := hnext.exists_step (by simp)
    rw [steps, if_neg hdoc] at hnil
    cases hnil
  exact (mem_documenters hq).2 ⟨hp, hdoc, hd⟩

/-- If the statement visits the child itself, no comment has taken it. -/
theorem documenters_eq_nil_of_mem_visited (hvisited : q ∈ w.visited none (w.withoutTokens c)) :
    w.documenters c q = [] := by
  refine List.eq_nil_iff_forall_not_mem.2 fun d hd => ?_
  obtain ⟨-, hdoc, hdecl⟩ := (mem_documenters hq).1 hd
  have hsub : (w.withoutTokens c).Sublist c.children := List.filter_sublist
  have hlt := (Place.pairwise_row_lt _ _).sublist hsub
  exact not_mem_visited_of_isDoc hdoc hdecl (fun p hp => (mem_withoutTokens.1 hp).1) hlt
    (mem_visited_of_mem_documenters hq hd) hvisited

theorem mem_visited_of_documenters_eq_nil (hfault : isFault q.tree = true)
    (hfree : w.documenters c q = []) (htoken : isExportToken (w.site q) = false) :
    q ∈ w.visited none (w.withoutTokens c) := by
  have hmem : ∀ p ∈ w.withoutTokens c, p ∈ c.children := fun p hp => (mem_withoutTokens.1 hp).1
  refine mem_visited (not_isNoise_of_isFault hfault) hmem (mem_withoutTokens.2 ⟨hq, htoken⟩) ?_
    (by simp)
  intro p hp hdoc hd
  have hdocumenter := (mem_documenters hq).2 ⟨hmem p hp, hdoc, hd⟩
  rw [hfree] at hdocumenter
  cases hdocumenter

/-- A comment that is there leads to what it documents, and that has no rule. -/
theorem reaches_visit_of_mem_documenters (hw : w.table = language.table)
    (hnone : w.exportedChild c = none) (hfault : isFault q.tree = true)
    (hp : p ∈ w.documenters c q) (hpresent : p.tree.missing = false) :
    w.Reaches (.visit p) (.report q) := by
  obtain ⟨-, hdoc, hd⟩ := (mem_documenters hq).1 hp
  have hcomment := steps_visit_of_isComment (w := w) (isComment_of_isDoc hdoc) hpresent
  have hback : w.fallsBack q = true := by
    rw [fallsBack, rule?_eq_none_of_exportedChild hw hnone hq (not_isComment_of_declaredBy hd)]
  refine .head (hcomment ▸ List.mem_singleton_self _) ?_
  exact (reaches_comment_iff hw hdoc hd).2 (reaches_report_of_fallsBack hfault hback .empty)

end Exporter

/-- An exporting statement without a declaration reports a child that no comment documents
unless the child is an export token, and any other child by way of its comments. -/
theorem reaches_context_of_exporter (hw : w.table = language.table) {c q : Place} {rule : Rule}
    (hnoise : (!c.tree.missing && isNoise c.tree.kind) = false) (hq : q ∈ c.children)
    (hfault : isFault q.tree = true) (hrule : w.table.rule? c.tree.kind = some rule)
    (hrole : rule.role = .exporter) (hnone : w.exportedChild c = none) :
    w.Reaches (.context c .empty) (.report q) ↔
      (w.documenters c q = [] ∧ isExportToken (w.site q) = false) ∨
        ∃ p ∈ w.documenters c q, p.tree.missing = false := by
  have hsteps := steps_context_of_exporter hnoise hrule hrole hnone
  constructor
  · intro h
    obtain ⟨s, hs, hreach⟩ := h.exists_step (by simp)
    rw [hsteps] at hs
    obtain ⟨p, hp, rfl⟩ := List.mem_map.1 hs
    obtain ⟨hpc, htoken⟩ := mem_withoutTokens.1 ((w.visited_sublist none _).subset hp)
    obtain ⟨f, hfocus, hn⟩ := hreach.exists_focus hw
    have hchild : f ∈ c.children := Task.mem_children_of_focus (t := .visit p) hpc hfocus
    obtain rfl := Place.eq_of_index_subtree_eq hchild hq hn q.mem_subtree_self rfl
    rw [Task.focus] at hfocus
    split_ifs at hfocus with hcomment
    · -- The walk takes the way of a comment.
      rw [Bool.and_eq_true, Bool.not_eq_true'] at hcomment
      exact .inr ⟨p, mem_documenters_of_reaches hq hpc hcomment.1 hcomment.2 hfocus hreach,
        hcomment.2⟩
    · obtain rfl : p = f := Option.some.inj hfocus
      exact .inl ⟨documenters_eq_nil_of_mem_visited hq hp, htoken⟩
  · have hstep : ∀ p ∈ w.visited none (w.withoutTokens c),
        .visit p ∈ w.steps (.context c .empty) :=
      fun p hp => hsteps ▸ List.mem_map_of_mem hp
    rintro (⟨hfree, htoken⟩ | ⟨p, hp, hpresent⟩)
    · refine .head (hstep q (mem_visited_of_documenters_eq_nil hq hfault hfree htoken)) ?_
      exact .single (steps_visit_of_isFault (w := w) hfault ▸ List.mem_singleton_self _)
    · exact .head (hstep p (mem_visited_of_mem_documenters hq hp))
        (reaches_visit_of_mem_documenters hq hw hnone hfault hp hpresent)

/-- The statement reports the child exactly if it is one of those that are reported. -/
theorem reaches_context_iff (hw : w.table = language.table) {c q : Place}
    (htop : w.table.isTopLevel c.tree = true) (hstatement : w.isStatement c.tree = true)
    (hq : q ∈ c.children) (hfault : isFault q.tree = true) :
    w.Reaches (.context c .empty) (.report q) ↔ w.reportsChild c q = true := by
  obtain ⟨rule, hrule, hrole⟩ := (Option.any_eq_true _ _).1 hstatement
  simp only [Bool.or_eq_true, beq_iff_eq] at hrole
  have hnoise : (!c.tree.missing && isNoise c.tree.kind) = false := by
    simp [language.isNoise_of_statement (hw ▸ hrule) hrole]
  rw [reportsChild]
  cases hinner : w.innerChild c with
  | some inner => simp [reaches_context_of_innerChild hw hnoise hq hfault hinner]
  | none =>
    simp only [innerChild, hrule] at hinner
    rcases hrole with hrole | hrole
    · simp only [hrole] at hinner
      rw [reaches_context_of_exporter hw hnoise hq hfault hrule hrole hinner]
      cases hdocs : w.documenters c q with
      | nil => simp
      | cons p rest => simp
    · -- A statement at the top level has the namespace that it stands for inside.
      simp only [hrole, wrappedChild] at hinner
      obtain ⟨child, hchild, hkeyword, hspace⟩ :=
        language.exists_nameSpace_of_isTopLevel (hw ▸ hrule) hrole (hw ▸ htop)
      rw [← Place.map_tree_row (c.index + 1) c.tree.children] at hchild
      obtain ⟨p, hp, rfl⟩ := List.mem_map.1 hchild
      have hdecl := language.isDeclaration_of_isNameSpace hspace
      exact absurd (List.find?_eq_none.1 hinner p hp) (by simp [hkeyword, hw, hdecl])

/-! ## Whole walks -/

theorem faultKind_of_isFault {tree : Tree} (h : isFault tree = true) :
    w.faultKind tree = .underlyingParseError := by
  rw [faultKind, if_pos]
  rcases Bool.or_eq_true _ _ ▸ h with hmissing | hkind
  · rw [hmissing, Bool.true_or]
  · rw [Table.bucket?_eq_error_iff.2 (beq_iff_eq.1 hkind)]
    exact Bool.or_true _

/-- A report that returns has been made. -/
theorem exists_mem_reports_report {p : Place} (h : w.Returns (.report p)) :
    ∃ d ∈ w.reports (.report p),
      Diagnostic.forNode w.source p.tree (w.faultKind p.tree) = .ok d := by
  obtain ⟨_, h⟩ := h
  obtain ⟨d, hd, -⟩ := Walk.outcome_bind_eq_ok_iff.1 h
  rw [Walk.outcome_lift] at hd
  refine ⟨d, ?_, hd⟩
  rw [reports, report, hd]
  exact List.mem_singleton_self d

/-- **Which faults inside the statements of a program are reported.** A missing node or a syntax
error among the children of a top-level statement is reported, if it is one of those that
`reportsChild` names. In a tree whose nodes can be told apart, all others are lost. -/
theorem fault_reported_iff (hw : w.table = language.table) {tree : Tree}
    (hroot : tree.kind = rootKind) (hret : (w.visitRoot (.ofRoot tree)).Returns) {c q : Place}
    (hc : c ∈ (Place.ofRoot tree).children) (hpresent : c.tree.missing = false)
    (htop : w.table.isTopLevel c.tree = true) (hstatement : w.isStatement c.tree = true)
    (hq : q ∈ c.children) (hfault : isFault q.tree = true) :
    (w.reportsChild c q = true → ∃ d ∈ (w.visitRoot (.ofRoot tree)).diagnostics,
      Diagnostic.forNode w.source q.tree .underlyingParseError = .ok d) ∧
    (((Place.preorder tree).map fun n => identity n.tree).Nodup →
      (∃ d ∈ (w.visitRoot (.ofRoot tree)).diagnostics,
        Diagnostic.forNode w.source q.tree .underlyingParseError = .ok d) →
      w.reportsChild c q = true) := by
  have htask : w.rootTask (.ofRoot tree) = .program (.ofRoot tree) := by
    have hbucket : w.table.bucket? tree.kind = some .root := by
      rw [hroot]
      rfl
    exact if_pos hbucket
  obtain ⟨hall, hreturns⟩ := (w.performs_rootTask (.ofRoot tree)).2 hret
  rw [List.flatMap_singleton, htask] at hall
  have hprogram := hreturns _ (List.mem_singleton_self _)
  rw [htask] at hprogram
  have halone : w.standsAlone c.tree = true := by
    rw [standsAlone_of_language hw, hpresent, htop]
    rfl
  have hqc : q ∈ c.subtree := Place.mem_subtree_of_child hq q.mem_subtree_self
  have hne : q ≠ c := by
    rintro rfl
    exact Nat.lt_irrefl _ (Place.index_lt_of_mem_children hq q.mem_subtree_self)
  have hiff := (reaches_program_iff hw hc halone hprogram hqc hne).trans
    (reaches_context_iff hw htop hstatement hq hfault)
  rw [hall]
  constructor
  · intro hreports
    obtain ⟨hreport, hsub⟩ := (hiff.2 hreports).returns hprogram
    obtain ⟨d, hd, hnode⟩ := exists_mem_reports_report hreport
    exact ⟨d, hsub.subset hd, faultKind_of_isFault (w := w) hfault ▸ hnode⟩
  · rintro hdistinct ⟨d, hd, hnode⟩
    obtain ⟨n, hreach, hreport⟩ := exists_reaches_of_mem_reports hw hd
    obtain ⟨f, hfocus, hn⟩ := hreach.exists_focus hw
    obtain rfl : .ofRoot tree = f := Option.some.inj hfocus
    -- The report can only be on `q`, and the walk gets there in one way only.
    have hidentity : identity n.tree = identity q.tree := by
      rw [identity_eq_of_forNode (mem_reports_report hreport), identity_eq_of_forNode hnode]
    rw [Place.preorder_eq_subtree] at hdistinct
    have hq : q ∈ (Place.ofRoot tree).subtree := Place.mem_subtree_of_child hc hqc
    obtain rfl := List.inj_on_of_nodup_map hdistinct hn hq hidentity
    exact hiff.1 hreach

/-- `export # let b;` -/
def exportOfDeclaration : Tree :=
  .inLine "export_statement" 0 15 [
    .inLine "export" 0 6 [],
    .inLine "ERROR" 7 8 [],
    .inLine "lexical_declaration" 9 15 []]

/-- `export # a;`, further on in the line -/
def exportOfName : Tree :=
  .inLine "export_statement" 16 27 [
    .inLine "export" 16 22 [],
    .inLine "ERROR" 23 24 [],
    .inLine "identifier" 25 26 [],
    .inLine ";" 26 27 []]

/-- `export # let b; export # a;` -/
def twoFaults : Tree :=
  .inLine "program" 0 27 [exportOfDeclaration, exportOfName]

def forTwoFaults : Walker :=
  .ofText .javaScript "export # let b; export # a;"

/-- The error before the declaration. -/
def faultBeforeDeclaration : Place :=
  ⟨3, .inLine "ERROR" 7 8 [], [.inLine "lexical_declaration" 9 15 []]⟩

/-- The error before the name. -/
def faultBeforeName : Place :=
  ⟨7, .inLine "ERROR" 23 24 [], [.inLine "identifier" 25 26 [], .inLine ";" 26 27 []]⟩

/-- The error before the name is reported, and the one before the declaration is not. -/
theorem fault_reported_iff_twoFaults :
    (∃ entries, (forTwoFaults.visitRoot (.ofRoot twoFaults)).outcome = .ok entries) ∧
      (∃ d ∈ (forTwoFaults.visitRoot (.ofRoot twoFaults)).diagnostics, Diagnostic.forNode
        forTwoFaults.source faultBeforeName.tree .underlyingParseError = .ok d) ∧
      ¬ ∃ d ∈ (forTwoFaults.visitRoot (.ofRoot twoFaults)).diagnostics, Diagnostic.forNode
        forTwoFaults.source faultBeforeDeclaration.tree .underlyingParseError = .ok d := by
  have htable : forTwoFaults.table = Language.javaScript.table := rfl
  obtain ⟨entries, hentries, -⟩ := Walk.exists_ok_of_any (f := fun _ => true)
    (show (forTwoFaults.visitRoot (.ofRoot twoFaults)).outcome.toOption.any (fun _ => true) = true
      by decide +kernel)
  have hroot : twoFaults.kind = rootKind := rfl
  refine ⟨⟨entries, hentries⟩, ?_, fun h => ?_⟩
  · have hc : ⟨5, exportOfName, []⟩ ∈ (Place.ofRoot twoFaults).children := .tail _ (.head _)
    have hq : faultBeforeName ∈ (⟨5, exportOfName, []⟩ : Place).children := .tail _ (.head _)
    exact (fault_reported_iff htable hroot ⟨entries, hentries⟩ hc rfl (by decide +kernel)
      (by decide +kernel) hq (by decide +kernel)).1 (by decide +kernel)
  · have hc : ⟨1, exportOfDeclaration, [exportOfName]⟩ ∈ (Place.ofRoot twoFaults).children :=
      .head _
    have hq : faultBeforeDeclaration ∈
        (⟨1, exportOfDeclaration, [exportOfName]⟩ : Place).children := .tail _ (.head _)
    have hreported := (fault_reported_iff htable hroot ⟨entries, hentries⟩ hc rfl
      (by decide +kernel) (by decide +kernel) hq (by decide +kernel)).2 (by decide +kernel) h
    exact absurd hreported (by decide +kernel)

/-- An error next to an exported declaration goes unreported. -/
theorem fault_beside_declaration_lost :
    ¬ ∀ (w : Walker) (language : Language) (tree : Tree) (c q : Place),
      w.table = language.table → tree.kind = rootKind → (w.visitRoot (.ofRoot tree)).Returns →
      c ∈ (Place.ofRoot tree).children → c.tree.missing = false →
      w.table.isTopLevel c.tree = true → w.isStatement c.tree = true → q ∈ c.children →
      isFault q.tree = true →
      ∃ d ∈ (w.visitRoot (.ofRoot tree)).diagnostics,
        Diagnostic.forNode w.source q.tree .underlyingParseError = .ok d := by
  intro hall
  obtain ⟨entries, hentries, -⟩ := Walk.exists_ok_of_any (f := fun _ => true)
    (show (forTwoFaults.visitRoot (.ofRoot twoFaults)).outcome.toOption.any (fun _ => true) = true
      by decide +kernel)
  have hc : ⟨1, exportOfDeclaration, [exportOfName]⟩ ∈ (Place.ofRoot twoFaults).children := .head _
  obtain ⟨d, hd, hnode⟩ := hall forTwoFaults .javaScript twoFaults _ faultBeforeDeclaration rfl rfl
    ⟨entries, hentries⟩ hc rfl (by decide +kernel) (by decide +kernel) (.tail _ (.head _))
    (by decide +kernel)
  -- No report is on a node that starts in the first statement.
  have hlater : ∀ d ∈ (forTwoFaults.visitRoot (.ofRoot twoFaults)).diagnostics,
      d.start.col = 23 := by
    decide +kernel
  have hstart := hlater d hd
  have hidentity := identity_eq_of_forNode hnode
  simp only [identity, Prod.mk.injEq] at hidentity
  rw [← hidentity.2.1] at hstart
  exact absurd hstart (by decide)

end DocOutline.Walker
