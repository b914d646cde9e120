import DocOutline.Proofs.Program
import Mathlib.Logic.Relation

/-!
# What a walk does, task by task

A walk does one thing after another: it reports a node, dispatches it in one of the two ways,
takes it up as a documentation comment, or goes through it as a program. Each of these tasks
leads to a list of further tasks, which `Walker.steps` gives without a word about entries,
properties and faults. The walk of a task performs these steps in order: it reports what they
report, up to the first fault (`Walker.reports_prefix_steps`).
-/

namespace DocOutline

/-- One thing that a walk does. -/
inductive Task where
  | report (p : Place)
  | visit (p : Place)
  | context (p : Place) (inherited : Properties)
  | comment (p : Place)
  | program (p : Place)

namespace Walker

/-- Why a node that is left out is left out. -/
def faultKind (w : Walker) (tree : Tree) : DiagnosticKind :=
  if tree.missing || w.table.bucket? tree.kind == some .error then .underlyingParseError
  else .unsupportedNodeKind

/-- What the walk of a task reports. -/
def reports (w : Walker) : Task → List Diagnostic
  | .report p => (w.report p.tree (w.faultKind p.tree)).diagnostics
  | .visit p => (w.visit p).diagnostics
  | .context p inherited => (w.visitContext p inherited).diagnostics
  | .comment p => (w.visitComment p).diagnostics
  | .program p => (w.visitProgram p).diagnostics

/-- The walk of a task ends without a fault. -/
def Returns (w : Walker) : Task → Prop
  | .report p => (w.report p.tree (w.faultKind p.tree)).Returns
  | .visit p => (w.visit p).Returns
  | .context p inherited => (w.visitContext p inherited).Returns
  | .comment p => (w.visitComment p).Returns
  | .program p => (w.visitProgram p).Returns

/-! ## Performing tasks -/

/-- The walk consists of the tasks, as far as its reports go: it reports a beginning of what
the tasks report, and if it returns, all of them have returned and it reports everything. -/
def Performs {α : Type} (w : Walker) (walk : Walk α) (tasks : List Task) : Prop :=
  walk.diagnostics <+: tasks.flatMap w.reports ∧
    (walk.Returns → walk.diagnostics = tasks.flatMap w.reports ∧ ∀ t ∈ tasks, w.Returns t)

section Performs

variable {α β : Type} {w : Walker}

theorem performs_nil_of_diagnostics {walk : Walk α} (h : walk.diagnostics = []) :
    w.Performs walk [] := by
  refine ⟨?_, fun _ => ⟨h, fun t ht => by cases ht⟩⟩
  rw [h]
  exact List.nil_prefix

theorem performs_pure (a : α) : w.Performs (pure a) [] :=
  performs_nil_of_diagnostics rfl

/-- A walk with the reports and the outcome of one task performs it. -/
theorem performs_single {walk : Walk α} {t : Task} (hreports : walk.diagnostics = w.reports t)
    (hreturns : walk.Returns → w.Returns t) : w.Performs walk [t] := by
  have hall : walk.diagnostics = [t].flatMap w.reports := by
    rw [hreports, List.flatMap_singleton]
  refine ⟨⟨[], ?_⟩, fun h => ⟨hall, fun s hs => ?_⟩⟩
  · rw [List.append_nil, hall]
  · rw [List.mem_singleton.1 hs]
    exact hreturns h

theorem performs_bind {walk : Walk α} {next : α → Walk β} {first rest : List Task}
    (hfirst : w.Performs walk first)
    (hrest : ∀ a, walk.outcome = .ok a → w.Performs (next a) rest) :
    w.Performs (walk >>= next) (first ++ rest) := by
  unfold Performs
  rw [List.flatMap_append]
  cases h : walk.outcome with
  | error fault =>
    rw [Walk.diagnostics_bind_error h]
    refine ⟨hfirst.1.trans (List.prefix_append _ _), fun ⟨b, hb⟩ => ?_⟩
    obtain ⟨a, ha, -⟩ := Walk.outcome_bind_eq_ok_iff.1 hb
    rw [h] at ha
    cases ha
  | ok a =>
    obtain ⟨hall, hreturns⟩ := hfirst.2 ⟨a, h⟩
    rw [Walk.diagnostics_bind_ok h, hall]
    refine ⟨(List.prefix_append_right_inj _).2 (hrest a h).1, fun ⟨b, hb⟩ => ?_⟩
    obtain ⟨a', ha', hb⟩ := Walk.outcome_bind_eq_ok_iff.1 hb
    rw [h] at ha'
    cases ha'
    obtain ⟨hall', hreturns'⟩ := (hrest a h).2 ⟨b, hb⟩
    refine ⟨by rw [hall'], fun t ht => ?_⟩
    exact (List.mem_append.1 ht).elim (hreturns t) (hreturns' t)

/-- What follows a walk without reports. -/
theorem performs_bind_silent {walk : Walk α} {next : α → Walk β} {rest : List Task}
    (hsilent : walk.diagnostics = [])
    (hrest : ∀ a, walk.outcome = .ok a → w.Performs (next a) rest) :
    w.Performs (walk >>= next) rest := by
  have := performs_bind (performs_nil_of_diagnostics (w := w) hsilent) hrest
  rwa [List.nil_append] at this

/-- What precedes a walk without reports. -/
theorem performs_then_silent {walk : Walk α} {next : α → Walk β} {first : List Task}
    (hfirst : w.Performs walk first) (hsilent : ∀ a, (next a).diagnostics = []) :
    w.Performs (walk >>= next) first := by
  have := performs_bind hfirst fun a _ => performs_nil_of_diagnostics (w := w) (hsilent a)
  rwa [List.append_nil] at this

theorem performs_visit (p : Place) : w.Performs (w.visit p) [.visit p] :=
  performs_single rfl id

theorem performs_context (p : Place) (inherited : Properties) :
    w.Performs (w.visitContext p inherited) [.context p inherited] :=
  performs_single rfl id

theorem performs_comment (p : Place) : w.Performs (w.visitComment p) [.comment p] :=
  performs_single rfl id

theorem performs_program (p : Place) : w.Performs (w.visitProgram p) [.program p] :=
  performs_single rfl id

theorem performs_report {p : Place} {kind : DiagnosticKind} (h : w.faultKind p.tree = kind) :
    w.Performs (w.report p.tree kind) [.report p] := by
  subst h
  exact performs_single rfl id

@[simp] theorem diagnostics_make (tree : Tree) (payload : Payload) :
    (w.make tree payload).diagnostics = [] := by
  unfold make
  cases h : w.renderer.render tree payload with
  | error fault => rfl
  | ok entry => rfl

end Performs

/-! ## Containers -/

/-- The number of the node that is taken as a context once a place has been looked at. -/
def takenAt (w : Walker) (paired : Option Nat) (p : Place) : Option Nat :=
  if w.isDoc p then (declaredBy p).map (·.index) else paired

/-- The places of a row that a container visits; `paired` is the number of the node that a
comment before has taken as its context. -/
def visited (w : Walker) (paired : Option Nat) : List Place → List Place
  | [] => []
  | p :: rest =>
    if !p.tree.missing && isNoise p.tree.kind then w.visited paired rest
    else if paired = some p.index then w.visited paired rest
    else p :: w.visited (w.takenAt paired p) rest

theorem visited_sublist (w : Walker) (paired : Option Nat) (places : List Place) :
    (w.visited paired places).Sublist places := by
  induction places generalizing paired with
  | nil => exact List.Sublist.refl _
  | cons p rest ih =>
    rw [visited]
    split_ifs
    · exact (ih paired).cons p
    · exact (ih paired).cons p
    · exact (ih _).cons_cons p

/-- The walk to `takenAt`, which reads the comments on its way. -/
def pairedAfter (w : Walker) (paired : Option Nat) (p : Place) : Except Fault (Option Nat) := do
  if ← p.tree.isDocumentation w.source then
    return (← w.declared? (p.after.map w.site)).map (·.index)
  else return paired

theorem pairedAfter_eq_ok {w : Walker} {paired found : Option Nat} {p : Place}
    (h : w.pairedAfter paired p = .ok found) :
    found = w.takenAt paired p := by
  obtain ⟨answer, hdoc, h⟩ := bind_eq_ok_iff.1 h
  rw [takenAt, isDoc_eq_of_ok hdoc]
  cases answer with
  | false =>
    cases h
    rfl
  | true =>
    obtain ⟨site, hsite, h⟩ := bind_eq_ok_iff.1 h
    cases h
    rw [declared?_eq_ok hsite]
    show Option.map _ (Option.map w.site (declaredBy p)) = _
    cases declaredBy p <;> simp

theorem visitSites_cons (w : Walker) (paired : Option Nat) (p : Place) (sites : List Site) :
    w.visitSites paired (w.site p :: sites) =
      if !p.tree.missing && isNoise p.tree.kind then w.visitSites paired sites
      else if paired = some p.index then w.visitSites paired sites
      else do
        let paired ← liftM (w.pairedAfter paired p)
        let entry ← w.visit p
        let entries ← w.visitSites paired sites
        return entry.toList ++ entries := by
  rw [visitSites]
  simp only [site_tree, site_kind, site_later, site_index, site_visit]
  congr 2
  unfold pairedAfter
  cases p.tree.isDocumentation w.source with
  | error fault => rfl
  | ok answer =>
    cases answer with
    | false => rfl
    | true => cases w.declared? (p.after.map w.site) <;> rfl

theorem performs_visitSites (w : Walker) (paired : Option Nat) (places : List Place) :
    w.Performs (w.visitSites paired (places.map w.site))
      ((w.visited paired places).map .visit) := by
  induction places generalizing paired with
  | nil => exact performs_pure []
  | cons p rest ih =>
    rw [List.map_cons, visitSites_cons, visited]
    split_ifs with hnoise hpaired
    · exact ih paired
    · exact ih paired
    · refine performs_bind_silent rfl fun found hfound => ?_
      rw [pairedAfter_eq_ok hfound]
      refine performs_bind (performs_visit p) fun entry _ => ?_
      exact performs_then_silent (ih _) fun entries => rfl

/-! ## Programs -/

/-- The comment gives a pair. -/
def formsPair (w : Walker) (p : Place) : Bool :=
  match w.pairAt p with
  | .ok found => found.isSome
  | .error _ => false

/-- The number of the node that the latest pair documents, once a comment has been taken up. -/
def latestAt (w : Walker) (latest : Option Nat) (p : Place) : Option Nat :=
  if w.formsPair p then (w.documentedBy p).map (·.index) else latest

/-- The tasks of a program at its children; `latest` is the number of the node that the latest
pair documents. -/
def programSteps (w : Walker) (latest : Option Nat) : List Place → List Task
  | [] => []
  | p :: rest =>
    if p.tree.missing || w.table.bucket? p.tree.kind == some .error then
      .report p :: w.programSteps latest rest
    else if p.tree.isComment then
      .comment p :: w.programSteps (w.latestAt latest p) rest
    else if w.table.isTopLevel p.tree then
      if latest = some p.index then w.programSteps latest rest
      else .context p .empty :: w.programSteps latest rest
    else w.programSteps latest rest

theorem performs_declAt (w : Walker) (latest : Option (Nat × Entry)) (p : Place) :
    w.Performs (w.declAt latest p)
      (if latest.map (·.1) = some p.index then [] else [.context p .empty]) := by
  unfold declAt
  cases latest with
  | none => exact performs_context p .empty
  | some found =>
    obtain ⟨index, context⟩ := found
    by_cases h : index = p.index
    · simp only [h, Option.filter_some, beq_self_eq_true, if_true, Option.map_some]
      exact performs_pure _
    · have hne : (index == p.index) = false := beq_eq_false_iff_ne.2 h
      simp only [Option.filter_some, hne, Bool.false_eq_true, if_false, Option.map_some,
        Option.some.injEq, h]
      exact performs_context p .empty

theorem performs_collect (w : Walker) (latest : Option (Nat × Entry)) (places : List Place) :
    w.Performs (w.collect latest (places.map w.site))
      (w.programSteps (latest.map (·.1)) places) := by
  induction places generalizing latest with
  | nil => exact performs_pure _
  | cons p rest ih =>
    rw [List.map_cons, collect_cons, programSteps]
    split
    · rename_i hfault
      have hkind : w.faultKind p.tree = .underlyingParseError := if_pos hfault
      exact performs_bind (performs_report hkind) fun _ _ => ih latest
    split
    · refine performs_bind (performs_comment p) fun found hfound => ?_
      split
      · rename_i pair context hcontext
        have hforms : w.formsPair p = true := by
          rw [formsPair, pairAt_of_context hfound hcontext]
          rfl
        refine performs_bind_silent rfl fun next hnext => ?_
        refine performs_then_silent ?_ fun found => rfl
        have hlatest : w.latestAt (latest.map (·.1)) p =
            (next.map fun next => (next.index, context)).map (·.1) := by
          rw [latestAt, if_pos hforms, documentedBy, documented?_eq_ok hnext]
          simp [Function.comp_def]
        rw [hlatest]
        exact ih _
      · rename_i hnone
        have hforms : w.formsPair p = false := by
          rw [formsPair, pairAt_of_no_context hfound hnone]
          rfl
        rw [latestAt, hforms]
        exact ih latest
    split
    · have hsteps : (if latest.map (·.1) = some p.index then w.programSteps (latest.map (·.1)) rest
          else .context p .empty :: w.programSteps (latest.map (·.1)) rest) =
          (if latest.map (·.1) = some p.index then [] else [.context p .empty]) ++
            w.programSteps (latest.map (·.1)) rest := by
        split_ifs <;> rfl
      rw [hsteps]
      refine performs_bind (w.performs_declAt latest p) fun decl _ => ?_
      exact performs_then_silent (ih latest) fun found => rfl
    · exact ih latest

theorem diagnostics_bodySites (w : Walker) (root : Place) :
    (w.bodySites root).diagnostics = [] := by
  unfold bodySites withoutHeader
  split
  · dsimp only
    split
    · rfl
    · rename_i site _
      cases site.tree.isLegal w.source with
      | error fault => rfl
      | ok legal => cases legal <;> rfl
  · rfl

theorem sweepAllNotes_diagnostic? (owner : Nat) (pairs : List Entry) (claims : List Claim) :
    (Claim.sweepAllNotes owner pairs claims).filterMap Note.diagnostic? = [] := by
  have hsweep : ∀ (children : List Entry) (position : Nat) (claims : List Claim),
      (Claim.sweepNotes position children claims).filterMap Note.diagnostic? = [] := by
    intro children
    induction children with
    | nil =>
      intro position claims
      cases claims <;> rfl
    | cons child children ih =>
      intro position claims
      cases claims with
      | nil => rfl
      | cons claim claims =>
        rw [Claim.sweepNotes, List.filterMap_append, ih]
        split_ifs <;> rfl
  induction pairs generalizing owner claims with
  | nil => rfl
  | cons pair pairs ih =>
    rw [Claim.sweepAllNotes, List.filterMap_append, hsweep, ih]
    rfl

theorem diagnostics_reconciled (w : Walker) (pairs decls : List Entry) :
    (w.reconciled pairs decls).diagnostics = [] := by
  have hmake : (Plan.makeNotes pairs decls).filterMap Note.diagnostic? = [] := by
    rw [Plan.makeNotes, List.filterMap_append, sweepAllNotes_diagnostic?, List.filterMap_map]
    simp [Note.diagnostic?]
  show List.filterMap Note.diagnostic? (Plan.makeNotes pairs decls ++ _) = []
  rw [List.filterMap_append, hmake]
  rfl

/-! ## The steps of a task -/

/-- The child of an exporting statement that is exported. -/
def exportedChild (w : Walker) (p : Place) : Option Place :=
  p.children.find? fun q => w.isExported (w.site q)

/-- The properties that an exporting statement hands to what it exports. -/
def exportedWith (w : Walker) (p : Place) (inherited : Properties) : Properties :=
  inherited.merge
    { exports := some (exportsOf ((p.children.map w.site).takeWhile fun s => !w.isExported s)) }

/-- The declaration inside a wrapping statement. -/
def wrappedChild (w : Walker) (rule : Rule) (p : Place) : Option Place :=
  p.children.find? fun q => !rule.isKeyword q.tree.kind && w.table.isDeclaration q.tree.kind

/-- The tasks of context dispatch on a node that has a rule. -/
def ruleSteps (w : Walker) (rule : Rule) (p : Place) (inherited : Properties) : List Task :=
  match rule.role with
  | .comment => [.comment p]
  | .exporter =>
    match w.exportedChild p with
    | some q => [.context q (w.exportedWith p inherited)]
    | none => (w.visited none (p.children.filter fun q => !isExportToken (w.site q))).map .visit
  | .wrapper =>
    match w.wrappedChild rule p with
    | some q => [.context q inherited]
    | none => [.visit p]
  | .declaration | .nameSpace | .ambientModule =>
    (w.visited none (p.children.eraseP fun q => rule.isKeyword q.tree.kind)).map .visit

/-- The tasks that a task consists of. -/
def steps (w : Walker) : Task → List Task
  | .report _ => []
  | .visit p =>
    if p.tree.missing then [.report p]
    else
      match w.table.bucket? p.tree.kind with
      | some .root => [.program p]
      | some .comment => [.comment p]
      | some .nonTerminal => (w.visited none p.children).map .visit
      | some .terminal => []
      | some .error | none => [.report p]
  | .context p inherited =>
    if !p.tree.missing && isNoise p.tree.kind then []
    else
      match w.table.rule? p.tree.kind with
      | none => [.visit p]
      | some rule => w.ruleSteps rule p inherited
  | .comment p => if w.isDoc p then (w.documentedBy p).toList.map (.context · .empty) else []
  | .program p =>
    match w.body p with
    | .ok children => w.programSteps none children
    | .error _ => []

theorem performs_steps_comment (w : Walker) (p : Place) :
    w.Performs (w.visitComment p) (w.steps (.comment p)) := by
  rw [visitComment_eq]
  refine performs_bind_silent rfl fun answer hanswer => ?_
  rw [steps, isDoc_eq_of_ok hanswer]
  cases answer with
  | false => exact performs_pure none
  | true =>
    simp only [if_true]
    refine performs_bind_silent rfl fun found hfound => ?_
    refine performs_then_silent ?_ fun context => diagnostics_make _ _
    rw [documented?_eq_ok hfound, documentedBy]
    cases p.after.find? fun q => !q.tree.isComment || w.isDoc q with
    | none => exact performs_pure none
    | some q =>
      simp only [Option.map_some, contextOf, site_context]
      exact performs_context q .empty

theorem performs_steps_program (w : Walker) (p : Place) :
    w.Performs (w.visitProgram p) (w.steps (.program p)) := by
  rw [visitProgram_eq_bind]
  refine performs_bind_silent (w.diagnostics_bodySites p) fun sites hsites => ?_
  rw [outcome_bodySites] at hsites
  rw [steps]
  cases hbody : w.body p with
  | error fault =>
    rw [hbody] at hsites
    cases hsites
  | ok children =>
    rw [hbody] at hsites
    cases hsites
    exact performs_then_silent (w.performs_collect none children) fun found =>
      w.diagnostics_reconciled found.1 found.2

theorem performs_steps_visit (w : Walker) (p : Place) :
    w.Performs (w.visit p) (w.steps (.visit p)) := by
  rw [visit_eq, visitAt, steps]
  by_cases hmissing : p.tree.missing = true
  · have hkind : w.faultKind p.tree = .underlyingParseError := by simp [faultKind, hmissing]
    rw [if_pos hmissing, if_pos hmissing]
    exact performs_then_silent (performs_report hkind) fun _ => rfl
  · rw [if_neg hmissing, if_neg hmissing]
    refine performs_bind_silent rfl fun _ _ => ?_
    cases hbucket : w.table.bucket? p.tree.kind with
    | none =>
      have hkind : w.faultKind p.tree = .unsupportedNodeKind := by
        simp [faultKind, hmissing, hbucket]
      exact performs_then_silent (performs_report hkind) fun _ => rfl
    | some bucket =>
      cases bucket with
      | root =>
        rw [← visitProgram_eq]
        exact performs_then_silent (performs_program p) fun _ => diagnostics_make _ _
      | comment => exact performs_comment p
      | error =>
        have hkind : w.faultKind p.tree = .underlyingParseError := by
          simp [faultKind, hbucket]
        exact performs_then_silent (performs_report hkind) fun _ => rfl
      | nonTerminal =>
        exact performs_then_silent (w.performs_visitSites none p.children) fun _ =>
          diagnostics_make _ _
      | terminal => exact performs_nil_of_diagnostics (diagnostics_make _ _)

theorem performs_exporterAt (w : Walker) (p : Place) (inherited : Properties) :
    w.Performs (w.exporterAt p.tree (p.children.map w.site) inherited)
      (match w.exportedChild p with
      | some q => [.context q (w.exportedWith p inherited)]
      | none =>
        (w.visited none (p.children.filter fun q => !isExportToken (w.site q))).map .visit) := by
  unfold exporterAt exportedChild
  simp only [List.find?_map, List.filter_map, Function.comp_def]
  cases p.children.find? fun q => w.isExported (w.site q) with
  | some q =>
    simp only [Option.map_some, site_context]
    exact performs_context q _
  | none => exact performs_then_silent (w.performs_visitSites none _) fun _ => diagnostics_make _ _

theorem performs_wrapperAt (w : Walker) (p : Place) (rule : Rule) (inherited : Properties) :
    w.Performs (w.wrapperAt rule (p.children.map w.site) inherited (w.visit p))
      (match w.wrappedChild rule p with
      | some q => [.context q inherited]
      | none => [.visit p]) := by
  unfold wrapperAt wrappedChild
  simp only [List.find?_map, Function.comp_def, site_kind]
  cases p.children.find? fun q =>
    !rule.isKeyword q.tree.kind && w.table.isDeclaration q.tree.kind with
  | some q =>
    simp only [Option.map_some, site_context]
    exact performs_context q inherited
  | none => exact performs_visit p

theorem performs_declarationAt (w : Walker) (p : Place) (rule : Rule) (inherited : Properties) :
    w.Performs (w.declarationAt p.tree rule (p.children.map w.site) inherited)
      ((w.visited none (p.children.eraseP fun q => rule.isKeyword q.tree.kind)).map .visit) := by
  unfold declarationAt
  simp only [List.eraseP_map, Function.comp_def, site_kind]
  refine performs_then_silent (w.performs_visitSites none _) fun entries => ?_
  cases w.renderer.renderAs p.tree rule.entryKind _ <;> rfl

theorem performs_steps_context (w : Walker) (p : Place) (inherited : Properties) :
    w.Performs (w.visitContext p inherited) (w.steps (.context p inherited)) := by
  rw [visitContext_eq, contextAt, steps]
  by_cases hnoise : (!p.tree.missing && isNoise p.tree.kind) = true
  · rw [if_pos hnoise, if_pos hnoise]
    exact performs_pure none
  · rw [if_neg hnoise, if_neg hnoise]
    cases w.table.rule? p.tree.kind with
    | none => exact performs_visit p
    | some rule =>
      refine performs_bind_silent rfl fun _ _ => ?_
      dsimp only
      unfold ruleSteps
      cases rule.role with
      | comment => exact performs_comment p
      | exporter => exact w.performs_exporterAt p inherited
      | wrapper => exact w.performs_wrapperAt p rule inherited
      | declaration => exact w.performs_declarationAt p rule inherited
      | nameSpace => exact w.performs_declarationAt p rule inherited
      | ambientModule => exact w.performs_declarationAt p rule inherited

/-- **A task reports what its steps report**, in order and up to the first fault. -/
theorem reports_prefix_steps (w : Walker) {t : Task} (ht : ∀ p, t ≠ .report p) :
    w.reports t <+: (w.steps t).flatMap w.reports := by
  cases t with
  | report p => exact absurd rfl (ht p)
  | visit p => exact (w.performs_steps_visit p).1
  | context p inherited => exact (w.performs_steps_context p inherited).1
  | comment p => exact (w.performs_steps_comment p).1
  | program p => exact (w.performs_steps_program p).1

/-- A task that returns has passed all its steps. -/
theorem reports_eq_steps {w : Walker} {t : Task} (ht : ∀ p, t ≠ .report p) (h : w.Returns t) :
    w.reports t = (w.steps t).flatMap w.reports ∧ ∀ s ∈ w.steps t, w.Returns s := by
  cases t with
  | report p => exact absurd rfl (ht p)
  | visit p => exact (w.performs_steps_visit p).2 h
  | context p inherited => exact (w.performs_steps_context p inherited).2 h
  | comment p => exact (w.performs_steps_comment p).2 h
  | program p => exact (w.performs_steps_program p).2 h

end Walker

/-! ## Where the steps are done -/

namespace Task

/-- The place where a task is done. -/
def place : Task → Place
  | .report p | .visit p | .context p _ | .comment p | .program p => p

/-- Tasks at the same place come in this order, the greatest first. -/
def level : Task → Nat
  | .report _ => 0
  | .comment _ | .program _ => 1
  | .visit _ => 2
  | .context _ _ => 3

end Task

namespace Walker

/-- The program takes up its children in order, and none twice. -/
theorem programSteps_sublist (w : Walker) (latest : Option Nat) (places : List Place) :
    ((w.programSteps latest places).map Task.place).Sublist places := by
  induction places generalizing latest with
  | nil => exact List.Sublist.refl _
  | cons p rest ih =>
    rw [programSteps]
    split_ifs
    · exact (ih latest).cons_cons p
    · exact (ih _).cons_cons p
    · exact (ih latest).cons p
    · exact (ih latest).cons_cons p
    · exact (ih latest).cons p

theorem mem_programSteps {w : Walker} {latest : Option Nat} {places : List Place} {t : Task}
    (h : t ∈ w.programSteps latest places) :
    (∃ p, t = .report p) ∨
      (∃ p, t = .comment p ∧ p.tree.isComment = true ∧ p.tree.missing = false) ∨
      ∃ p, t = .context p .empty ∧ p.tree.isComment = false := by
  induction places generalizing latest with
  | nil => cases h
  | cons p rest ih =>
    rw [programSteps] at h
    split_ifs at h with hfault hcomment
    · rcases List.mem_cons.1 h with rfl | h
      · exact .inl ⟨p, rfl⟩
      · exact ih h
    · rcases List.mem_cons.1 h with rfl | h
      · exact .inr (.inl ⟨p, rfl, hcomment, by simp_all⟩)
      · exact ih h
    · exact ih h
    · rcases List.mem_cons.1 h with rfl | h
      · exact .inr (.inr ⟨p, rfl, Bool.eq_false_iff.2 hcomment⟩)
      · exact ih h
    · exact ih h

/-- The steps go through some children of a node, as a container or as a program does. -/
inductive GoesThrough (w : Walker) (p : Place) : List Task → Prop
  | container (places : List Place) (hsub : places.Sublist p.children) :
    w.GoesThrough p ((w.visited none places).map .visit)
  | program (places : List Place) (hsub : places.Sublist p.children) :
    w.GoesThrough p (w.programSteps none places)

/-- Tasks that go through no children have at most one step. -/
theorem steps_cases (w : Walker) (t : Task) :
    (w.steps t).length ≤ 1 ∨ w.GoesThrough t.place (w.steps t) := by
  cases t with
  | report p => exact .inl (Nat.zero_le _)
  | visit p =>
    rw [steps]
    split
    · exact .inl (Nat.le_refl _)
    · split
      · exact .inl (Nat.le_refl _)
      · exact .inl (Nat.le_refl _)
      · exact .inr (.container p.children (List.Sublist.refl _))
      · exact .inl (Nat.zero_le _)
      · exact .inl (Nat.le_refl _)
      · exact .inl (Nat.le_refl _)
  | context p inherited =>
    rw [steps]
    split
    · exact .inl (Nat.zero_le _)
    · split
      · exact .inl (Nat.le_refl _)
      · rename_i rule _
        unfold ruleSteps
        cases rule.role with
        | comment => exact .inl (Nat.le_refl _)
        | exporter =>
          cases w.exportedChild p with
          | some q => exact .inl (Nat.le_refl _)
          | none => exact .inr (.container _ List.filter_sublist)
        | wrapper => cases w.wrappedChild rule p <;> exact .inl (Nat.le_refl _)
        | declaration => exact .inr (.container _ List.eraseP_sublist)
        | nameSpace => exact .inr (.container _ List.eraseP_sublist)
        | ambientModule => exact .inr (.container _ List.eraseP_sublist)
  | comment p =>
    rw [steps]
    split
    · cases w.documentedBy p <;> exact .inl (by simp)
    · exact .inl (Nat.zero_le _)
  | program p =>
    rw [steps]
    cases hbody : w.body p with
    | error fault => exact .inl (Nat.zero_le _)
    | ok children => exact .inr (.program children (body_sublist hbody))

namespace GoesThrough

variable {w : Walker} {p : Place} {steps : List Task}

theorem place_sublist (h : w.GoesThrough p steps) :
    (steps.map Task.place).Sublist p.children := by
  cases h with
  | container places hsub =>
    have hself : ((w.visited none places).map Task.visit).map Task.place =
        w.visited none places := by
      simp [Function.comp_def, Task.place]
    rw [hself]
    exact (w.visited_sublist none places).trans hsub
  | program places hsub => exact (w.programSteps_sublist none places).trans hsub

theorem place_mem (h : w.GoesThrough p steps) {s : Task} (hs : s ∈ steps) :
    s.place ∈ p.children :=
  h.place_sublist.subset (List.mem_map_of_mem hs)

/-- The steps follow the text. -/
theorem pairwise_steps (h : w.GoesThrough p steps) :
    steps.Pairwise (·.place.index < ·.place.index) := by
  have hlt := (Place.pairwise_row_lt _ _).sublist h.place_sublist
  rw [List.pairwise_map] at hlt
  exact hlt

end GoesThrough

end Walker

end DocOutline
