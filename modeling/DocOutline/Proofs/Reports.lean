import DocOutline.Proofs.Tables
import DocOutline.Proofs.Tasks
import Mathlib.Data.List.Pairwise

/-!
# No fault is reported twice

What a task reports lies below one place, its focus: the node of the task itself, or, for a
comment, the node that its chain of comments documents. Two steps of a task with different foci
report different faults. The only way to report a fault twice is to have two steps with the same
focus, and that needs a documentation comment: its context is built for the comment, and then the
same node is documented again by the next comment of the chain, or is taken up by itself.
`Walker.ReportsOnce` says that no such node has a fault inside. `Walker.nodup_diagnostics_visitRoot`
shows that this is exactly what decides whether a walk repeats itself.
-/

namespace DocOutline

namespace Task

/-- The place that a task is about: a comment stands for what its chain of comments documents. -/
def focus : Task → Option Place
  | .report p | .program p => some p
  | .visit p => if p.tree.isComment && !p.tree.missing then Walker.declaredBy p else some p
  | .context p _ => if p.tree.isComment then Walker.declaredBy p else some p
  | .comment p => Walker.declaredBy p

theorem eq_or_mem_after_of_focus {t : Task} {d : Place} (h : t.focus = some d) :
    d = t.place ∨ d ∈ t.place.after := by
  have hself : ∀ {p : Place}, some p = some d → d = p := fun h => (Option.some.inj h).symm
  cases t with
  | report p => exact .inl (hself h)
  | program p => exact .inl (hself h)
  | comment p => exact .inr (Walker.mem_after_of_declaredBy h)
  | visit p =>
    rw [focus] at h
    split_ifs at h
    · exact .inr (Walker.mem_after_of_declaredBy h)
    · exact .inl (hself h)
  | context p inherited =>
    rw [focus] at h
    split_ifs at h
    · exact .inr (Walker.mem_after_of_declaredBy h)
    · exact .inl (hself h)

theorem mem_children_of_focus {t : Task} {c d : Place} (ht : t.place ∈ c.children)
    (hd : t.focus = some d) : d ∈ c.children := by
  rcases eq_or_mem_after_of_focus hd with rfl | hafter
  · exact ht
  · exact Place.mem_row_of_mem_after ht hafter

/-- The steps of a task weigh less than the task. -/
def weight (t : Task) : Nat :=
  4 * t.place.weight + t.level

theorem level_le (t : Task) : t.level ≤ 3 := by
  cases t <;> simp [level]

end Task

namespace Walker

variable {w : Walker} {language : Language}

/-! ## The focus of the steps -/

theorem steps_visit_of_isComment {p : Place} (hcomment : p.tree.isComment = true)
    (hmissing : p.tree.missing = false) : w.steps (.visit p) = [.comment p] := by
  rw [steps, hmissing, w.table.bucket?_of_isComment hcomment]
  rfl

theorem steps_context_of_isComment (hw : w.table = language.table) {p : Place}
    (hcomment : p.tree.isComment = true) (inherited : Properties) :
    w.steps (.context p inherited) = [.comment p] := by
  have hkind : p.tree.kind = commentKind := beq_iff_eq.1 hcomment
  rw [steps, hw, hkind, Language.rule?_comment, isNoise_comment]
  simp [ruleSteps]

/-- What a step of a task is about. It is done at the same node, with the same focus; or at a
child of the node that is in focus; or, from a comment, further along the chain of comments. -/
inductive StepsTo (s t : Task) : Prop
  | same (hplace : s.place = t.place) (hlevel : s.level < t.level) (hfocus : s.focus = t.focus)
  | child (hplace : s.place ∈ t.place.children) (hfocus : t.focus = some t.place)
  | chain (hplace : s.place ∈ t.place.after) (hfocus : s.focus = t.focus)

/-- A container goes through children of the node in focus. -/
theorem stepsTo_of_mem_visited {s t : Task} {places : List Place}
    (hsub : places.Sublist t.place.children) (hfocus : t.focus = some t.place)
    (hs : s ∈ (w.visited none places).map .visit) : StepsTo s t := by
  obtain ⟨q, hq, rfl⟩ := List.mem_map.1 hs
  exact .child (hsub.subset ((w.visited_sublist none places).subset hq)) hfocus

theorem stepsTo_of_mem_visit {s : Task} {p : Place} (hs : s ∈ w.steps (.visit p)) :
    StepsTo s (.visit p) := by
  by_cases hmissing : p.tree.missing = true
  · rw [steps, if_pos hmissing, List.mem_singleton] at hs
    subst hs
    exact .same rfl (by simp [Task.level]) (by simp [Task.focus, hmissing])
  by_cases hcomment : p.tree.isComment = true
  · rw [steps_visit_of_isComment hcomment (Bool.eq_false_iff.2 hmissing),
      List.mem_singleton] at hs
    subst hs
    exact .same rfl (by simp [Task.level]) (by simp [Task.focus, hmissing, hcomment])
  have hfocus : (Task.visit p).focus = some p := by simp [Task.focus, hcomment]
  rw [steps, if_neg hmissing] at hs
  split at hs
  · rw [List.mem_singleton.1 hs]
    exact .same rfl (by simp [Task.level]) hfocus.symm
  · rename_i hbucket
    exact absurd (beq_iff_eq.2 (Table.bucket?_eq_comment_iff.1 hbucket)) hcomment
  · exact stepsTo_of_mem_visited (List.Sublist.refl _) hfocus hs
  · cases hs
  · rw [List.mem_singleton.1 hs]
    exact .same rfl (by simp [Task.level]) hfocus.symm
  · rw [List.mem_singleton.1 hs]
    exact .same rfl (by simp [Task.level]) hfocus.symm

theorem stepsTo_of_mem_context (hw : w.table = language.table) {s : Task} {p : Place}
    {inherited : Properties} (hs : s ∈ w.steps (.context p inherited)) :
    StepsTo s (.context p inherited) := by
  by_cases hcomment : p.tree.isComment = true
  · rw [steps_context_of_isComment hw hcomment, List.mem_singleton] at hs
    subst hs
    exact .same rfl (by simp [Task.level]) (by simp [Task.focus, hcomment])
  have hfocus : (Task.context p inherited).focus = some p := by simp [Task.focus, hcomment]
  have hvisit : StepsTo (.visit p) (.context p inherited) :=
    .same rfl (by simp [Task.level]) (by simp [Task.focus, hcomment])
  rw [steps] at hs
  split at hs
  · cases hs
  split at hs
  · rwa [List.mem_singleton.1 hs]
  rename_i rule hrule
  unfold ruleSteps at hs
  cases hrole : rule.role with
  | comment =>
    rw [hw] at hrule
    exact absurd (beq_iff_eq.2 (Language.kind_eq_of_role_comment language hrule hrole)) hcomment
  | exporter =>
    rw [hrole] at hs
    cases hchild : w.exportedChild p with
    | some q =>
      simp only [hchild, List.mem_singleton] at hs
      subst hs
      exact .child (List.mem_of_find?_eq_some hchild) hfocus
    | none =>
      simp only [hchild] at hs
      exact stepsTo_of_mem_visited List.filter_sublist hfocus hs
  | wrapper =>
    rw [hrole] at hs
    cases hchild : w.wrappedChild rule p with
    | some q =>
      simp only [hchild, List.mem_singleton] at hs
      subst hs
      exact .child (List.mem_of_find?_eq_some hchild) hfocus
    | none =>
      simp only [hchild, List.mem_singleton] at hs
      subst hs
      exact hvisit
  | declaration =>
    rw [hrole] at hs
    exact stepsTo_of_mem_visited List.eraseP_sublist hfocus hs
  | nameSpace =>
    rw [hrole] at hs
    exact stepsTo_of_mem_visited List.eraseP_sublist hfocus hs
  | ambientModule =>
    rw [hrole] at hs
    exact stepsTo_of_mem_visited List.eraseP_sublist hfocus hs

/-- Every step of a task stays with its focus, or goes to a child of it. -/
theorem stepsTo_of_mem (hw : w.table = language.table) {s t : Task} (hs : s ∈ w.steps t) :
    StepsTo s t := by
  cases t with
  | report p => cases hs
  | visit p => exact stepsTo_of_mem_visit hs
  | context p inherited => exact stepsTo_of_mem_context hw hs
  | comment p =>
    rw [steps] at hs
    split at hs
    · obtain ⟨q, hq, rfl⟩ := List.mem_map.1 hs
      have hdoc : w.documentedBy p = some q := Option.mem_toList.1 hq
      exact .chain (mem_after_of_documentedBy hdoc) (declaredBy_of_documentedBy hdoc).symm
    · cases hs
  | program p =>
    rw [steps] at hs
    split at hs
    · rename_i children hbody
      have hplace := (w.programSteps_sublist none children).subset (List.mem_map_of_mem hs)
      exact .child ((body_sublist hbody).subset hplace) rfl
    · cases hs

theorem StepsTo.weight_lt {s t : Task} (h : StepsTo s t) : s.weight < t.weight := by
  have hlevel := s.level_le
  unfold Task.weight
  cases h with
  | same hplace hlevel _ =>
    rw [hplace]
    omega
  | child hplace _ =>
    have := Place.weight_lt_of_mem_children hplace
    omega
  | chain hplace _ =>
    have := Place.weight_lt_of_mem_after hplace
    omega

/-- The focus of a step is the focus of the task, or a child of it. -/
theorem StepsTo.focus_eq_or_mem {s t : Task} {d : Place} (h : StepsTo s t)
    (hd : s.focus = some d) :
    t.focus = some d ∨ t.focus = some t.place ∧ d ∈ t.place.children := by
  cases h with
  | same _ _ hfocus => exact .inl (hfocus ▸ hd)
  | chain _ hfocus => exact .inl (hfocus ▸ hd)
  | child hplace hfocus => exact .inr ⟨hfocus, Task.mem_children_of_focus hplace hd⟩

/-- A step at a child of the node is about that child or one after it. -/
theorem StepsTo.focus_of_mem_children {s t : Task} (h : StepsTo s t)
    (hs : s.place ∈ t.place.children) {d : Place} (hd : s.focus = some d) :
    t.focus = some t.place ∧ d ∈ t.place.children := by
  have hlower : t.place.index < s.place.index := Place.le_index_of_mem_row hs
  have hupper := Place.index_of_mem_subtree (Place.mem_subtree_of_child hs s.place.mem_subtree_self)
  cases h with
  | same hplace _ _ =>
    rw [hplace] at hlower
    exact absurd hlower (Nat.lt_irrefl _)
  | chain hplace _ =>
    have := Place.end_le_of_mem_after hplace
    omega
  | child _ hfocus => exact ⟨hfocus, Task.mem_children_of_focus hs hd⟩

/-- Induction over what a task leads to. -/
theorem task_induction (hw : w.table = language.table) {motive : Task → Prop}
    (step : ∀ t, (∀ s ∈ w.steps t, motive s) → motive t) (t : Task) : motive t := by
  induction hn : t.weight using Nat.strongRecOn generalizing t with
  | ind n ih =>
    refine step t fun s hs => ih s.weight ?_ s rfl
    rw [← hn]
    exact (stepsTo_of_mem hw hs).weight_lt

/-! ## What is reported lies below the focus -/

theorem mem_reports_report {p : Place} {d : Diagnostic} (h : d ∈ w.reports (.report p)) :
    Diagnostic.forNode w.source p.tree (w.faultKind p.tree) = .ok d := by
  rw [reports, report] at h
  cases hnode : Diagnostic.forNode w.source p.tree (w.faultKind p.tree) with
  | error fault =>
    rw [hnode] at h
    cases h
  | ok found =>
    rw [hnode] at h
    rw [List.mem_singleton.1 h]

theorem length_reports_report (p : Place) : (w.reports (.report p)).length ≤ 1 := by
  rw [reports, report]
  cases Diagnostic.forNode w.source p.tree (w.faultKind p.tree) with
  | error fault => exact Nat.zero_le _
  | ok found => exact Nat.le_refl _

/-- What a task reports is reported by one of its steps. -/
theorem exists_step_of_mem_reports {t : Task} (ht : ∀ p, t ≠ .report p) {d : Diagnostic}
    (hd : d ∈ w.reports t) : ∃ s ∈ w.steps t, d ∈ w.reports s :=
  List.mem_flatMap.1 ((w.reports_prefix_steps ht).subset hd)

theorem StepsTo.subtree_subset {s t : Task} {d : Place} (h : StepsTo s t)
    (hd : s.focus = some d) : ∃ c, t.focus = some c ∧ d.subtree ⊆ c.subtree := by
  rcases h.focus_eq_or_mem hd with hfocus | ⟨hfocus, hchild⟩
  · exact ⟨d, hfocus, List.Subset.refl _⟩
  · exact ⟨t.place, hfocus, fun n hn => Place.mem_subtree_of_child hchild hn⟩

/-- The walk of the first task gets to the second. -/
def Reaches (w : Walker) : Task → Task → Prop :=
  Relation.ReflTransGen fun t s => s ∈ w.steps t

/-- A walk that returns has returned from everything it has got to, and reports all that is
reported there. -/
theorem Reaches.returns {t s : Task} (h : w.Reaches t s) (hret : w.Returns t) :
    w.Returns s ∧ (w.reports s).Sublist (w.reports t) := by
  induction h with
  | refl => exact ⟨hret, List.Sublist.refl _⟩
  | @tail u s _ hstep ih =>
    have hu : ∀ p, u ≠ .report p := by
      rintro p rfl
      cases hstep
    obtain ⟨hall, hsteps⟩ := reports_eq_steps hu ih.1
    refine ⟨hsteps s hstep, .trans ?_ ih.2⟩
    rw [hall, List.flatMap_def]
    exact List.sublist_flatten_of_mem (List.mem_map_of_mem hstep)

/-- Whatever is reported is reported at some node that the walk gets to. -/
theorem exists_reaches_of_mem_reports (hw : w.table = language.table) {t : Task} {d : Diagnostic}
    (hd : d ∈ w.reports t) : ∃ n, w.Reaches t (.report n) ∧ d ∈ w.reports (.report n) := by
  induction t using task_induction hw with
  | step t ih =>
    by_cases ht : ∃ p, t = .report p
    · obtain ⟨p, rfl⟩ := ht
      exact ⟨p, .refl, hd⟩
    · obtain ⟨s, hs, hds⟩ := exists_step_of_mem_reports (fun p hp => ht ⟨p, hp⟩) hd
      obtain ⟨n, hreach, hn⟩ := ih s hs hds
      exact ⟨n, .head hs hreach, hn⟩

/-- A node that is reported lies below the focus of every task on the way. -/
theorem Reaches.exists_focus (hw : w.table = language.table) {t : Task} {n : Place}
    (h : w.Reaches t (.report n)) : ∃ c, t.focus = some c ∧ n ∈ c.subtree := by
  induction h using Relation.ReflTransGen.head_induction_on with
  | refl => exact ⟨n, rfl, n.mem_subtree_self⟩
  | head hstep _ ih =>
    obtain ⟨c, hc, hn⟩ := ih
    obtain ⟨c', hc', hsub⟩ := (stepsTo_of_mem hw hstep).subtree_subset hc
    exact ⟨c', hc', hsub hn⟩

/-- Every report is on a node below the focus of the task. -/
theorem exists_node_of_mem_reports (hw : w.table = language.table) {t : Task} {d : Diagnostic}
    (hd : d ∈ w.reports t) : ∃ c n, t.focus = some c ∧ n ∈ c.subtree ∧
      Diagnostic.forNode w.source n.tree (w.faultKind n.tree) = .ok d := by
  obtain ⟨n, hreach, hreport⟩ := exists_reaches_of_mem_reports hw hd
  obtain ⟨c, hc, hn⟩ := hreach.exists_focus hw
  exact ⟨c, n, hc, hn, mem_reports_report hreport⟩

/-! ## Chains of comments -/

/-- A comment that documents nothing has no reports. -/
theorem reports_comment_of_not_isDoc {p : Place} (h : w.isDoc p = false) :
    w.reports (.comment p) = [] := by
  have hbegin := w.reports_prefix_steps (t := .comment p) (by simp)
  rw [steps, h] at hbegin
  exact List.prefix_nil.1 hbegin

/-- The first comment of a chain has a single step. -/
theorem steps_comment_of_documentedBy {p q : Place} (hdoc : w.isDoc p = true)
    (hq : w.documentedBy p = some q) : w.steps (.comment p) = [.context q .empty] := by
  rw [steps, hdoc, hq]
  rfl

theorem reports_prefix_single {s t : Task} (ht : ∀ p, t ≠ .report p) (h : w.steps t = [s]) :
    w.reports t <+: w.reports s := by
  have := w.reports_prefix_steps ht
  rwa [h, List.flatMap_singleton] at this

theorem reports_eq_single {s t : Task} (ht : ∀ p, t ≠ .report p) (h : w.steps t = [s])
    (hret : w.Returns t) : w.reports t = w.reports s ∧ w.Returns s := by
  obtain ⟨hall, hsteps⟩ := reports_eq_steps ht hret
  rw [h, List.flatMap_singleton] at hall
  exact ⟨hall, hsteps s (h ▸ List.mem_singleton_self s)⟩

/-- A documentation comment reports what the context of its chain reports. -/
theorem reports_comment_prefix (hw : w.table = language.table) {p d : Place}
    (hd : declaredBy p = some d) : w.reports (.comment p) <+: w.reports (.context d .empty) := by
  induction p using Place.induction with
  | step p _ ih =>
    by_cases hdoc : w.isDoc p = true
    · obtain ⟨q, hq⟩ := exists_documentedBy (w := w) hd
      have hchain := declaredBy_of_documentedBy hq
      have hfirst := reports_prefix_single (by simp) (steps_comment_of_documentedBy hdoc hq)
      split_ifs at hchain with hcomment
      · refine hfirst.trans (.trans ?_ (ih q (mem_after_of_documentedBy hq) (hchain ▸ hd)))
        exact reports_prefix_single (by simp) (steps_context_of_isComment hw hcomment .empty)
      · rw [hd] at hchain
        rwa [Option.some.inj hchain]
    · rw [reports_comment_of_not_isDoc (Bool.eq_false_iff.2 hdoc)]
      exact List.nil_prefix

theorem reports_comment_eq (hw : w.table = language.table) {p d : Place}
    (hdoc : w.isDoc p = true) (hd : declaredBy p = some d) (hret : w.Returns (.comment p)) :
    w.reports (.comment p) = w.reports (.context d .empty) := by
  induction p using Place.induction with
  | step p _ ih =>
    obtain ⟨q, hq⟩ := exists_documentedBy (w := w) hd
    have hchain := declaredBy_of_documentedBy hq
    obtain ⟨hfirst, hret⟩ :=
      reports_eq_single (by simp) (steps_comment_of_documentedBy hdoc hq) hret
    rw [hfirst]
    split_ifs at hchain with hcomment
    · obtain ⟨hnext, hret⟩ :=
        reports_eq_single (by simp) (steps_context_of_isComment hw hcomment .empty) hret
      rw [hnext]
      exact ih q (mem_after_of_documentedBy hq) (isDoc_of_documentedBy hq hcomment)
        (hchain ▸ hd) hret
    · rw [hd] at hchain
      rw [Option.some.inj hchain]

/-- A container passes over what a documentation comment has taken as its context. -/
theorem not_mem_visited_some {p d : Place} (hd : declaredBy p = some d) {places : List Place}
    (hmem : ∀ q ∈ places, q ∈ p.after) (hlt : places.Pairwise (·.index < ·.index)) :
    d ∉ w.visited (some d.index) places := by
  induction places with
  | nil => exact List.not_mem_nil
  | cons q rest ih =>
    obtain ⟨hq, hrest⟩ := List.pairwise_cons.1 hlt
    have hrec := ih (fun r hr => hmem r (List.mem_cons_of_mem q hr)) hrest
    rw [visited]
    split_ifs with hnoise hpaired
    · exact hrec
    · exact hrec
    rcases Nat.lt_or_ge q.index d.index with hqd | hqd
    · -- `q` is a comment of the chain, so it takes the same context
      have htaken : w.takenAt (some d.index) q = some d.index := by
        rw [takenAt, (declaredBy_of_between hd (hmem q List.mem_cons_self) hqd).2]
        split_ifs <;> rfl
      rw [htaken]
      refine List.not_mem_cons_of_ne_of_not_mem ?_ hrec
      rintro rfl
      exact Nat.lt_irrefl _ hqd
    · have hne : d.index ≠ q.index := fun h => hpaired (congrArg some h)
      refine List.not_mem_cons_of_ne_of_not_mem (fun h => hne (congrArg Place.index h)) fun h => ?_
      have := hq d ((w.visited_sublist _ rest).subset h)
      omega

theorem not_mem_visited_of_isDoc {c p d : Place} (hdoc : w.isDoc p = true)
    (hd : declaredBy p = some d) {paired : Option Nat} {places : List Place}
    (hmem : ∀ q ∈ places, q ∈ c.children) (hlt : places.Pairwise (·.index < ·.index))
    (hp : p ∈ w.visited paired places) : d ∉ w.visited paired places := by
  induction places generalizing paired with
  | nil => cases hp
  | cons q rest ih =>
    obtain ⟨hq, hrest⟩ := List.pairwise_cons.1 hlt
    have hin : ∀ r ∈ rest, r ∈ c.children := fun r hr => hmem r (List.mem_cons_of_mem q hr)
    rw [visited] at hp ⊢
    split_ifs at hp ⊢ with hnoise hpaired
    · exact ih hin hrest hp
    · exact ih hin hrest hp
    have hafter := Place.lt_of_mem_after (mem_after_of_declaredBy hd)
    rcases List.mem_cons.1 hp with rfl | hp
    · have htaken : w.takenAt paired p = some d.index := by
        rw [takenAt, if_pos hdoc, hd]
        rfl
      rw [htaken]
      refine List.not_mem_cons_of_ne_of_not_mem (fun h => ?_) (not_mem_visited_some hd ?_ hrest)
      · rw [h] at hafter
        exact Nat.lt_irrefl _ hafter
      · exact fun r hr => Place.mem_after_of_index_lt (hmem p List.mem_cons_self) (hin r hr)
          (hq r hr)
    · have hqp := hq p ((w.visited_sublist _ rest).subset hp)
      refine List.not_mem_cons_of_ne_of_not_mem (fun h => ?_) (ih hin hrest hp)
      rw [h] at hafter
      omega

/-! ## Faults inside documented nodes -/

/-- The place holds a documentation comment whose chain documents `d`. -/
structure Documents (w : Walker) (p d : Place) : Prop where
  isDoc : w.isDoc p = true
  present : p.tree.missing = false
  declares : declaredBy p = some d

/-- The task takes up the comment. -/
def TakesUp (w : Walker) (t : Task) (p : Place) : Prop :=
  .visit p ∈ w.steps t ∨ .comment p ∈ w.steps t

/-- As a context, the node has nothing to report. -/
def Silent (w : Walker) (d : Place) : Prop :=
  w.reports (.context d .empty) = []

/-- A task that repeats no report: where a documentation comment is taken up, the node that it
documents has no fault inside if another documentation comment or the program itself builds that
node again, and the fault that it is itself, if it is one, is not reported inside it again. -/
structure ReportsOnce (w : Walker) (t : Task) : Prop where
  chain : ∀ p q d, w.TakesUp t p → w.TakesUp t q → p.index < q.index → w.Documents p d →
    w.Documents q d → w.Silent d
  rebuilt : ∀ p d, w.TakesUp t p → w.Documents p d → .context d .empty ∈ w.steps t → w.Silent d
  fault : ∀ p d, w.TakesUp t p → w.Documents p d → .report d ∈ w.steps t →
    (w.reports (.report d)).Disjoint (w.reports (.context d .empty))

theorem TakesUp.of_step {s t : Task} {p : Place} (hs : s ∈ w.steps t)
    (h : s = .visit p ∨ s = .comment p) : w.TakesUp t p := by
  rcases h with rfl | rfl
  · exact .inl hs
  · exact .inr hs

/-- A comment that is taken up reports at most what its context reports. -/
theorem reports_prefix_context (hw : w.table = language.table) {s : Task} {p d : Place}
    (hs : s = .visit p ∨ s = .comment p) (hcomment : p.tree.isComment = true)
    (hmissing : p.tree.missing = false) (hd : declaredBy p = some d) :
    w.reports s <+: w.reports (.context d .empty) := by
  have hchain := reports_comment_prefix hw hd
  rcases hs with rfl | rfl
  · refine .trans ?_ hchain
    exact reports_prefix_single (by simp) (steps_visit_of_isComment hcomment hmissing)
  · exact hchain

theorem reports_eq_nil_of_not_isDoc {s : Task} {p : Place} (hs : s = .visit p ∨ s = .comment p)
    (hcomment : p.tree.isComment = true) (hmissing : p.tree.missing = false)
    (hdoc : w.isDoc p = false) : w.reports s = [] := by
  have hnil := reports_comment_of_not_isDoc hdoc
  rcases hs with rfl | rfl
  · have := reports_prefix_single (by simp) (steps_visit_of_isComment (w := w) hcomment hmissing)
    rw [hnil] at this
    exact List.prefix_nil.1 this
  · exact hnil

/-- A documentation comment that is taken up without a fault reports what its context reports. -/
theorem exists_step_of_takesUp (hw : w.table = language.table) {t : Task} {p d : Place}
    (hp : w.TakesUp t p) (hdoc : w.Documents p d) (hret : ∀ s ∈ w.steps t, w.Returns s) :
    ∃ s ∈ w.steps t, s.place = p ∧ w.reports s = w.reports (.context d .empty) := by
  have hchain := reports_comment_eq hw hdoc.isDoc hdoc.declares
  rcases hp with hp | hp
  · have hsteps := steps_visit_of_isComment (w := w) (isComment_of_isDoc hdoc.isDoc) hdoc.present
    obtain ⟨hfirst, hcomment⟩ := reports_eq_single (by simp) hsteps (hret _ hp)
    exact ⟨_, hp, rfl, by rw [hfirst, hchain hcomment]⟩
  · exact ⟨_, hp, rfl, hchain (hret _ hp)⟩

/-- Two different steps of a task that repeats nothing have no report in common. -/
theorem disjoint_of_nodup {t : Task} (h : ((w.steps t).flatMap w.reports).Nodup) {s₁ s₂ : Task}
    (h₁ : s₁ ∈ w.steps t) (h₂ : s₂ ∈ w.steps t) (hne : s₁.place.index ≠ s₂.place.index) :
    (w.reports s₁).Disjoint (w.reports s₂) := by
  have hsymm : Std.Symm (Function.onFun List.Disjoint w.reports) :=
    ⟨fun _ _ h => List.disjoint_symm h⟩
  exact (List.nodup_flatMap.1 h).2.forall h₁ h₂ fun heq => hne (by rw [heq])

theorem silent_of_disjoint {d : Place}
    (h : (w.reports (.context d .empty)).Disjoint (w.reports (.context d .empty))) : w.Silent d :=
  List.eq_nil_iff_forall_not_mem.2 fun _ hmem => h hmem hmem

/-- A task that returns without a repetition repeats nothing in the contexts of its comments. -/
theorem reportsOnce_of_nodup (hw : w.table = language.table) {t : Task}
    (hret : ∀ s ∈ w.steps t, w.Returns s) (h : ((w.steps t).flatMap w.reports).Nodup) :
    w.ReportsOnce t where
  chain p q d hp hq hlt hpd hqd := by
    obtain ⟨s₁, h₁, rfl, hs₁⟩ := exists_step_of_takesUp hw hp hpd hret
    obtain ⟨s₂, h₂, rfl, hs₂⟩ := exists_step_of_takesUp hw hq hqd hret
    have hdisjoint := disjoint_of_nodup h h₁ h₂ (Nat.ne_of_lt hlt)
    rw [hs₁, hs₂] at hdisjoint
    exact silent_of_disjoint hdisjoint
  rebuilt p d hp hpd hstep := by
    obtain ⟨s, hs, rfl, hreports⟩ := exists_step_of_takesUp hw hp hpd hret
    have hlt := Place.lt_of_mem_after (mem_after_of_declaredBy hpd.declares)
    have hdisjoint := disjoint_of_nodup h hs hstep (Nat.ne_of_lt hlt)
    rw [hreports] at hdisjoint
    exact silent_of_disjoint hdisjoint
  fault p d hp hpd hstep := by
    obtain ⟨s, hs, rfl, hreports⟩ := exists_step_of_takesUp hw hp hpd hret
    have hlt := Place.lt_of_mem_after (mem_after_of_declaredBy hpd.declares)
    rw [← hreports]
    exact List.disjoint_symm (disjoint_of_nodup h hs hstep (Nat.ne_of_lt hlt))

/-! ## Different nodes, different reports -/

/-- What a report says about where the node is. -/
def identity (tree : Tree) : String × Point × Point :=
  (tree.kind, tree.info.startPoint, tree.info.endPoint)

theorem identity_eq_of_forNode {source : Source} {tree : Tree} {kind : DiagnosticKind}
    {d : Diagnostic} (h : Diagnostic.forNode source tree kind = .ok d) :
    identity tree = (d.nodeKind, d.start, d.stop) := by
  obtain ⟨message, -, h⟩ := bind_eq_ok_iff.1 h
  cases h
  rfl

/-- The nodes below a place can be told apart by their reports. -/
def ToldApart (c : Place) : Prop :=
  ∀ m ∈ c.subtree, ∀ n ∈ c.subtree, identity m.tree = identity n.tree → m.index = n.index

theorem ToldApart.child {c d : Place} (h : ToldApart c) (hd : d ∈ c.children) : ToldApart d :=
  fun m hm n hn => h m (Place.mem_subtree_of_child hd hm) n (Place.mem_subtree_of_child hd hn)

/-- Steps with different foci have no report in common. -/
theorem disjoint_of_focus_ne (hw : w.table = language.table) {c d₁ d₂ : Place}
    (hc : ToldApart c) {s₁ s₂ : Task} (h₁ : s₁.focus = some d₁) (h₂ : s₂.focus = some d₂)
    (hd₁ : d₁ ∈ c.children) (hd₂ : d₂ ∈ c.children) (hne : d₁ ≠ d₂) :
    (w.reports s₁).Disjoint (w.reports s₂) := by
  intro δ hδ₁ hδ₂
  obtain ⟨e₁, m, he₁, hm, hreport₁⟩ := exists_node_of_mem_reports hw hδ₁
  obtain ⟨e₂, n, he₂, hn, hreport₂⟩ := exists_node_of_mem_reports hw hδ₂
  rw [h₁] at he₁
  rw [h₂] at he₂
  cases he₁
  cases he₂
  have hindex : m.index = n.index :=
    hc m (Place.mem_subtree_of_child hd₁ hm) n (Place.mem_subtree_of_child hd₂ hn)
      ((identity_eq_of_forNode hreport₁).trans (identity_eq_of_forNode hreport₂).symm)
  exact hne (Place.eq_of_index_subtree_eq hd₁ hd₂ hm hn hindex)

/-- Of the steps through a row, those that are about a later node take up a comment. -/
theorem takesUp_of_focus_ne {c : Place} {steps : List Task} (hrow : w.GoesThrough c steps)
    {s : Task} (hs : s ∈ steps) {d : Place} (hd : s.focus = some d) (hne : d ≠ s.place) :
    (s = .visit s.place ∨ s = .comment s.place) ∧ s.place.tree.isComment = true ∧
      s.place.tree.missing = false ∧ declaredBy s.place = some d := by
  have hself : ∀ {p : Place}, some p = some d → d = p := fun h => (Option.some.inj h).symm
  cases hrow with
  | container places hsub =>
    obtain ⟨p, -, rfl⟩ := List.mem_map.1 hs
    rw [Task.focus] at hd
    split_ifs at hd with hcomment
    · rw [Bool.and_eq_true, Bool.not_eq_true'] at hcomment
      exact ⟨.inl rfl, hcomment.1, hcomment.2, hd⟩
    · exact absurd (hself hd) hne
  | program places hsub =>
    rcases mem_programSteps hs with ⟨p, rfl⟩ | ⟨p, rfl, hcomment, hmissing⟩ | ⟨p, rfl, hcomment⟩
    · exact absurd (hself hd) hne
    · exact ⟨.inr rfl, hcomment, hmissing, hd⟩
    · rw [Task.focus, hcomment] at hd
      exact absurd (hself hd) hne

/-- Of the steps through a row, those at the node that a documentation comment of the row
documents report it or build it again: a container passes over it. -/
theorem report_or_context_of_documents {c : Place} {steps : List Task}
    (hrow : w.GoesThrough c steps) {s₁ s₂ : Task} (h₁ : s₁ ∈ steps) (h₂ : s₂ ∈ steps)
    (hdoc : w.Documents s₁.place s₂.place) :
    s₂ = .report s₂.place ∨ s₂ = .context s₂.place .empty := by
  cases hrow with
  | container places hsub =>
    obtain ⟨p, hp, rfl⟩ := List.mem_map.1 h₁
    obtain ⟨q, hq, rfl⟩ := List.mem_map.1 h₂
    have hlt := (Place.pairwise_row_lt _ _).sublist hsub
    exact absurd hq (not_mem_visited_of_isDoc hdoc.isDoc hdoc.declares
      (fun r hr => hsub.subset hr) hlt hp)
  | program places hsub =>
    rcases mem_programSteps h₂ with ⟨q, rfl⟩ | ⟨q, rfl, hcomment, -⟩ | ⟨q, rfl, -⟩
    · exact .inl rfl
    · exact absurd hcomment (Bool.eq_false_iff.1 (not_isComment_of_declaredBy hdoc.declares))
    · exact .inr rfl

/-- Steps of a row with the same focus have no report in common, if the task repeats nothing in
the contexts of its comments. -/
theorem disjoint_of_focus_eq (hw : w.table = language.table) {t s₁ s₂ : Task}
    (hone : w.ReportsOnce t) (hrow : w.GoesThrough t.place (w.steps t))
    (h₁ : s₁ ∈ w.steps t) (h₂ : s₂ ∈ w.steps t) (hlt : s₁.place.index < s₂.place.index)
    {d : Place} (hd₁ : s₁.focus = some d) (hd₂ : s₂.focus = some d) :
    (w.reports s₁).Disjoint (w.reports s₂) := by
  have hne : d ≠ s₁.place := by
    rintro rfl
    rcases Task.eq_or_mem_after_of_focus hd₂ with heq | hafter
    · exact Nat.ne_of_lt hlt (congrArg Place.index heq)
    · exact Nat.lt_asymm hlt (Place.lt_of_mem_after hafter)
  obtain ⟨hs₁, hcomment₁, hmissing₁, hdecl₁⟩ := takesUp_of_focus_ne hrow h₁ hd₁ hne
  have hup₁ := TakesUp.of_step h₁ hs₁
  have hcontext := reports_prefix_context hw hs₁ hcomment₁ hmissing₁ hdecl₁
  by_cases hdoc₁ : w.isDoc s₁.place = true
  swap
  · rw [reports_eq_nil_of_not_isDoc hs₁ hcomment₁ hmissing₁ (Bool.eq_false_iff.2 hdoc₁)]
    exact List.disjoint_nil_left _
  have hdocuments : w.Documents s₁.place d := ⟨hdoc₁, hmissing₁, hdecl₁⟩
  have hsilent : w.Silent d → (w.reports s₁).Disjoint (w.reports s₂) := by
    intro hsilent
    rw [hsilent] at hcontext
    rw [List.prefix_nil.1 hcontext]
    exact List.disjoint_nil_left _
  by_cases hself : d = s₂.place
  · -- the documented node is itself a step of the row
    subst hself
    rcases report_or_context_of_documents hrow h₁ h₂ hdocuments with hs₂ | hs₂
    · have hdisjoint := hone.fault _ _ hup₁ hdocuments (hs₂ ▸ h₂)
      rw [← hs₂] at hdisjoint
      exact fun δ hδ₁ hδ₂ => hdisjoint hδ₂ (hcontext.subset hδ₁)
    · exact hsilent (hone.rebuilt _ _ hup₁ hdocuments (hs₂ ▸ h₂))
  · -- both steps take up a comment of the same chain
    obtain ⟨hs₂, hcomment₂, hmissing₂, hdecl₂⟩ := takesUp_of_focus_ne hrow h₂ hd₂ hself
    by_cases hdoc₂ : w.isDoc s₂.place = true
    · exact hsilent (hone.chain _ _ d hup₁ (TakesUp.of_step h₂ hs₂) hlt hdocuments
        ⟨hdoc₂, hmissing₂, hdecl₂⟩)
    · rw [reports_eq_nil_of_not_isDoc hs₂ hcomment₂ hmissing₂ (Bool.eq_false_iff.2 hdoc₂)]
      exact List.disjoint_nil_right _

theorem pairwise_of_length_le_one {α : Type} {R : α → α → Prop} {l : List α}
    (h : l.length ≤ 1) : l.Pairwise R := by
  match l, h with
  | [], _ => exact List.Pairwise.nil
  | [a], _ => exact List.pairwise_singleton R a

/-- The steps of a task that repeats nothing in the contexts of its comments have no report in
common. -/
theorem pairwise_disjoint_steps (hw : w.table = language.table) {t : Task}
    (hapart : ∀ c, t.focus = some c → ToldApart c) (hone : w.ReportsOnce t) :
    (w.steps t).Pairwise (Function.onFun List.Disjoint w.reports) := by
  rcases w.steps_cases t with hshort | hrow
  · exact pairwise_of_length_le_one hshort
  refine hrow.pairwise_steps.imp_of_mem fun {s₁ s₂} h₁ h₂ hlt => ?_
  intro δ hδ₁ hδ₂
  obtain ⟨d₁, -, hd₁, -⟩ := exists_node_of_mem_reports hw hδ₁
  obtain ⟨d₂, -, hd₂, -⟩ := exists_node_of_mem_reports hw hδ₂
  by_cases heq : d₁ = d₂
  · subst heq
    exact disjoint_of_focus_eq hw hone hrow h₁ h₂ hlt hd₁ hd₂ hδ₁ hδ₂
  · obtain ⟨hfocus, hmem₁⟩ := (stepsTo_of_mem hw h₁).focus_of_mem_children (hrow.place_mem h₁) hd₁
    obtain ⟨-, hmem₂⟩ := (stepsTo_of_mem hw h₂).focus_of_mem_children (hrow.place_mem h₂) hd₂
    exact disjoint_of_focus_ne hw (hapart _ hfocus) hd₁ hd₂ hmem₁ hmem₂ heq hδ₁ hδ₂

/-! ## Whole walks -/

theorem nodup_reports_report (p : Place) : (w.reports (.report p)).Nodup :=
  pairwise_of_length_le_one (length_reports_report p)

/-- A walk repeats no report, if none of its tasks does. -/
theorem nodup_reports (hw : w.table = language.table) (t : Task)
    (hapart : ∀ c, t.focus = some c → ToldApart c)
    (hone : ∀ s, w.Reaches t s → w.ReportsOnce s) : (w.reports t).Nodup := by
  induction t using task_induction hw with
  | step t ih =>
    by_cases ht : ∃ p, t = .report p
    · obtain ⟨p, rfl⟩ := ht
      exact nodup_reports_report p
    have hsteps : ((w.steps t).flatMap w.reports).Nodup := by
      refine List.nodup_flatMap.2 ⟨fun s hs => ?_, ?_⟩
      · refine ih s hs (fun d hd => ?_) fun r hr => hone r (.head hs hr)
        rcases (stepsTo_of_mem hw hs).focus_eq_or_mem hd with hfocus | ⟨hfocus, hchild⟩
        · exact hapart d hfocus
        · exact (hapart _ hfocus).child hchild
      · exact pairwise_disjoint_steps hw hapart (hone t .refl)
    exact hsteps.sublist (w.reports_prefix_steps fun p hp => ht ⟨p, hp⟩).sublist

/-- A walk that returns and repeats no report has no task that does. -/
theorem reportsOnce_of_reaches (hw : w.table = language.table) {t s : Task}
    (hret : w.Returns t) (hnodup : (w.reports t).Nodup) (hs : w.Reaches t s) :
    w.ReportsOnce s := by
  obtain ⟨hret, hsub⟩ := hs.returns hret
  by_cases hreport : ∃ p, s = .report p
  · obtain ⟨p, rfl⟩ := hreport
    exact reportsOnce_of_nodup hw (fun s hs => absurd hs List.not_mem_nil) List.nodup_nil
  · obtain ⟨hall, hsteps⟩ := reports_eq_steps (fun p hp => hreport ⟨p, hp⟩) hret
    exact reportsOnce_of_nodup hw hsteps (hall ▸ hnodup.sublist hsub)

/-- The task of a whole tree. -/
def rootTask (w : Walker) (root : Place) : Task :=
  if w.table.bucket? root.tree.kind = some .root then .program root else .visit root

theorem performs_rootTask (w : Walker) (root : Place) :
    w.Performs (w.visitRoot root) [w.rootTask root] := by
  unfold visitRoot rootTask
  split
  · rename_i hroot
    rw [if_pos hroot]
    exact performs_program root
  · rename_i hroot
    rw [if_neg hroot]
    exact performs_then_silent (performs_visit root) fun _ => rfl

theorem focus_rootTask {tree : Tree} {c : Place}
    (h : (w.rootTask (.ofRoot tree)).focus = some c) : c = .ofRoot tree := by
  have hplace : (w.rootTask (.ofRoot tree)).place = .ofRoot tree := by
    unfold rootTask
    split_ifs <;> rfl
  rcases Task.eq_or_mem_after_of_focus h with heq | hafter
  · rw [heq, hplace]
  · rw [hplace] at hafter
    exact absurd hafter List.not_mem_nil

/-- **A walk over a whole tree repeats a report exactly where a documented node is built twice.**
In a tree whose nodes can be told apart, no report is made twice as long as none of the tasks that
the walk gets to repeats itself; and if the walk returns, this is the only way. -/
theorem nodup_diagnostics_visitRoot {w : Walker} {language : Language}
    (hw : w.table = language.table) (tree : Tree)
    (hdistinct : ((Place.preorder tree).map fun n => identity n.tree).Nodup) :
    ((∀ t, w.Reaches (w.rootTask (.ofRoot tree)) t → w.ReportsOnce t) →
        (w.visitRoot (.ofRoot tree)).diagnostics.Nodup) ∧
      ((w.visitRoot (.ofRoot tree)).Returns → (w.visitRoot (.ofRoot tree)).diagnostics.Nodup →
        ∀ t, w.Reaches (w.rootTask (.ofRoot tree)) t → w.ReportsOnce t) := by
  obtain ⟨hbegin, hreturns⟩ := w.performs_rootTask (.ofRoot tree)
  rw [List.flatMap_singleton] at hbegin hreturns
  have hapart : ToldApart (.ofRoot tree) := by
    rw [Place.preorder_eq_subtree] at hdistinct
    intro m hm n hn hident
    rw [List.inj_on_of_nodup_map hdistinct hm hn hident]
  constructor
  · intro hone
    refine List.Nodup.sublist hbegin.sublist (nodup_reports hw _ (fun c hc => ?_) hone)
    rwa [focus_rootTask hc]
  · intro hret hnodup t ht
    obtain ⟨hall, hroot⟩ := hreturns hret
    rw [hall] at hnodup
    exact reportsOnce_of_reaches hw (hroot _ (List.mem_singleton_self _)) hnodup ht

/-- `/** A. */ /** B. */ debugger;` -/
def twiceDocumented : Tree :=
  .inLine "program" 0 29 [
    .inLine "comment" 0 9 [],
    .inLine "comment" 10 19 [],
    .inLine "debugger_statement" 20 29 []]

def forTwiceDocumented : Walker :=
  .ofText .javaScript "/** A. */ /** B. */ debugger;"

/-- `/** A. */ export let debugger;`, where `debugger` is read as a statement -/
def onceDocumented : Tree :=
  .inLine "program" 0 30 [
    .inLine "comment" 0 9 [],
    .inLine "export_statement" 10 30 [
      .inLine "export" 10 16 [],
      .inLine "lexical_declaration" 17 30 [
        .inLine "debugger_statement" 21 29 []]]]

def forOnceDocumented : Walker :=
  .ofText .javaScript "/** A. */ export let debugger;"

/-- The statement behind two comments is built for each of them, so some task repeats itself; the
one inside a documented export is built and reported once. -/
theorem nodup_diagnostics_documented :
    ((Place.preorder twiceDocumented).map fun n => identity n.tree).Nodup ∧
      (∃ t, forTwiceDocumented.Reaches (forTwiceDocumented.rootTask (.ofRoot twiceDocumented)) t ∧
        ¬ forTwiceDocumented.ReportsOnce t) ∧
      ((Place.preorder onceDocumented).map fun n => identity n.tree).Nodup ∧
      (forOnceDocumented.visitRoot (.ofRoot onceDocumented)).diagnostics.length = 1 ∧
      ∀ t, forOnceDocumented.Reaches (forOnceDocumented.rootTask (.ofRoot onceDocumented)) t →
        forOnceDocumented.ReportsOnce t := by
  have htwice : ((Place.preorder twiceDocumented).map fun n => identity n.tree).Nodup := by
    decide +kernel
  have honce : ((Place.preorder onceDocumented).map fun n => identity n.tree).Nodup := by
    decide +kernel
  have hlength : (forOnceDocumented.visitRoot (.ofRoot onceDocumented)).diagnostics.length = 1 := by
    decide +kernel
  have htable : forTwiceDocumented.table = Language.javaScript.table := rfl
  have htable' : forOnceDocumented.table = Language.javaScript.table := rfl
  refine ⟨htwice, ?_, honce, hlength, ?_⟩
  · by_contra hnone
    have hnodup := (nodup_diagnostics_visitRoot htable twiceDocumented htwice).1
      fun t ht => by_contra fun hrep => hnone ⟨t, ht, hrep⟩
    exact absurd hnodup (by decide +kernel)
  · obtain ⟨entries, hentries, -⟩ := Walk.exists_ok_of_any (f := fun _ => true)
      (show (forOnceDocumented.visitRoot (.ofRoot onceDocumented)).outcome.toOption.any
        (fun _ => true) = true by decide +kernel)
    have hnodup : (forOnceDocumented.visitRoot (.ofRoot onceDocumented)).diagnostics.Nodup :=
      pairwise_of_length_le_one (Nat.le_of_eq hlength)
    exact (nodup_diagnostics_visitRoot htable' onceDocumented honce).2 ⟨entries, hentries⟩ hnodup

/-- A fault behind two documentation comments is reported twice. -/
theorem fault_reported_twice :
    ¬ ∀ (w : Walker) (language : Language) (tree : Tree), w.table = language.table →
      ((Place.preorder tree).map fun n => identity n.tree).Nodup →
      (w.visitRoot (.ofRoot tree)).diagnostics.Nodup := by
  intro hall
  have hnodup := hall forTwiceDocumented .javaScript twiceDocumented rfl (by decide +kernel)
  exact absurd hnodup (by decide +kernel)

end Walker

end DocOutline
