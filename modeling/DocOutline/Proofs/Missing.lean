import DocOutline.Proofs.Provenance
import DocOutline.Proofs.Reports

/-!
# Missing nodes

A missing node stands for a token that the text does not have. Ordinary dispatch reports it and
returns nothing. Context dispatch does so only where it falls back on ordinary dispatch: the kind
of the node has no rule, or the node is a statement that wraps no declaration
(`Walker.fallsBack`). Any other rule is applied to a missing node as to any node: declarations,
documentation comments and exporting statements without a declaration are built
(`Walker.builtInContext`), and the fault is not reported.

The entries of an outline are made of missing nodes in no other way.
-/

namespace DocOutline

/-- The report on a missing node quotes nothing, so it cannot fault. -/
theorem Diagnostic.exists_forNode_missing (source : Source) {tree : Tree}
    (h : tree.missing = true) :
    ∃ d, Diagnostic.forNode source tree .underlyingParseError = .ok d := by
  unfold Diagnostic.forNode Diagnostic.messageFor
  rw [h]
  exact ⟨_, rfl⟩

namespace Walker

variable {w : Walker} {language : Language}

/-! ## Dispatch on a missing node -/

/-- The walk returns nothing and reports the node as a syntax error, and nothing else. -/
def LeavesOut (w : Walker) (walk : Walk (Option Entry)) (p : Place) : Prop :=
  walk.outcome = .ok none ∧
    ∃ d, Diagnostic.forNode w.source p.tree .underlyingParseError = .ok d ∧ walk.diagnostics = [d]

/-- Context dispatch falls back on ordinary dispatch. -/
def fallsBack (w : Walker) (p : Place) : Bool :=
  match w.table.rule? p.tree.kind with
  | none => true
  | some rule => rule.role == .wrapper && (w.wrappedChild rule p).isNone

/-- Context dispatch makes an entry of the node itself, without a look at its bucket. -/
def builtInContext (w : Walker) (p : Place) : Bool :=
  match w.table.rule? p.tree.kind with
  | none => false
  | some rule =>
    match rule.role with
    | .comment => w.isDoc p
    | .exporter => (w.exportedChild p).isNone
    | .wrapper => false
    | .declaration | .nameSpace | .ambientModule => true

theorem leavesOut_visit {p : Place} (hmissing : p.tree.missing = true) :
    w.LeavesOut (w.visit p) p := by
  obtain ⟨d, hd⟩ := Diagnostic.exists_forNode_missing w.source hmissing
  have hvisit : w.visit p = ⟨[.reported d], .ok none⟩ := by
    rw [visit_eq, visitAt, if_pos hmissing, report, hd]
    rfl
  rw [hvisit]
  exact ⟨rfl, d, hd, rfl⟩

theorem leavesOut_visitContext {p : Place} (hmissing : p.tree.missing = true)
    (hback : w.fallsBack p = true) (inherited : Properties) :
    w.LeavesOut (w.visitContext p inherited) p := by
  obtain ⟨houtcome, d, hd, hdiagnostics⟩ := leavesOut_visit (w := w) hmissing
  rw [visitContext_eq, contextAt, hmissing]
  simp only [Bool.not_true, Bool.false_and, Bool.false_eq_true, if_false]
  rw [fallsBack] at hback
  cases hrule : w.table.rule? p.tree.kind with
  | none => exact ⟨houtcome, d, hd, hdiagnostics⟩
  | some rule =>
    rw [hrule] at hback
    simp only [Bool.and_eq_true, beq_iff_eq, Option.isNone_iff_eq_none] at hback
    obtain ⟨hrole, hnone⟩ := hback
    rw [wrappedChild] at hnone
    simp only [hrole, wrapperAt, List.find?_map, Function.comp_def, site_kind, hnone,
      Option.map_none]
    refine ⟨Walk.outcome_bind_eq_ok_iff.2 ⟨(), rfl, houtcome⟩, d, hd, ?_⟩
    rw [Walk.diagnostics_bind_ok (a := ()) rfl, hdiagnostics]
    rfl

/-! ## What context dispatch does instead -/

/-- The declaration inside an exporting or a wrapping statement. -/
def innerChild (w : Walker) (p : Place) : Option Place :=
  match w.table.rule? p.tree.kind with
  | none => none
  | some rule =>
    match rule.role with
    | .exporter => w.exportedChild p
    | .wrapper => w.wrappedChild rule p
    | .comment | .declaration | .nameSpace | .ambientModule => none

theorem innerChild_eq_some {p q : Place} (h : w.innerChild p = some q) :
    q ∈ p.children ∧ w.table.isDeclaration q.tree.kind = true := by
  rw [innerChild] at h
  split at h
  · cases h
  split at h
  · have hexported := List.find?_some h
    simp only [isExported, Bool.and_eq_true, site_kind] at hexported
    exact ⟨List.mem_of_find?_eq_some h, hexported.2⟩
  · have hwrapped := List.find?_some h
    simp only [Bool.and_eq_true] at hwrapped
    exact ⟨List.mem_of_find?_eq_some h, hwrapped.2⟩
  all_goals cases h

/-- Context dispatch on a statement goes on to the declaration inside it. -/
theorem steps_context_of_innerChild {p q : Place}
    (hnoise : (!p.tree.missing && isNoise p.tree.kind) = false) (h : w.innerChild p = some q)
    (inherited : Properties) :
    ∃ handed, w.steps (.context p inherited) = [.context q handed] := by
  rw [steps, hnoise]
  simp only [Bool.false_eq_true, if_false]
  rw [innerChild] at h
  cases hrule : w.table.rule? p.tree.kind with
  | none =>
    rw [hrule] at h
    cases h
  | some rule =>
    rw [hrule] at h
    simp only [ruleSteps]
    cases hrole : rule.role with
    | exporter =>
      simp only [hrole] at h
      rw [h]
      exact ⟨_, rfl⟩
    | wrapper =>
      simp only [hrole] at h
      rw [h]
      exact ⟨_, rfl⟩
    | _ =>
      simp only [hrole] at h
      cases h

/-- What context dispatch can do with a node that is no noise. -/
theorem context_cases (w : Walker) (p : Place) :
    w.fallsBack p = true ∨ w.builtInContext p = true ∨ (∃ q, w.innerChild p = some q) ∨
      ∃ rule, w.table.rule? p.tree.kind = some rule ∧ rule.role = .comment ∧ w.isDoc p = false := by
  unfold fallsBack builtInContext innerChild
  cases hrule : w.table.rule? p.tree.kind with
  | none => exact .inl rfl
  | some rule =>
    cases hrole : rule.role with
    | comment =>
      by_cases hdoc : w.isDoc p = true
      · exact .inr (.inl (by simp [hrole, hdoc]))
      · exact .inr (.inr (.inr ⟨rule, rfl, hrole, Bool.eq_false_iff.2 hdoc⟩))
    | exporter =>
      cases hchild : w.exportedChild p with
      | none => exact .inr (.inl (by simp [hrole]))
      | some q => exact .inr (.inr (.inl ⟨q, by simp [hrole]⟩))
    | wrapper =>
      cases hchild : w.wrappedChild rule p with
      | none => exact .inl (by simp [hrole, hchild])
      | some q => exact .inr (.inr (.inl ⟨q, by simp [hrole, hchild]⟩))
    | declaration => exact .inr (.inl (by simp [hrole]))
    | nameSpace => exact .inr (.inl (by simp [hrole]))
    | ambientModule => exact .inr (.inl (by simp [hrole]))

/-- A missing node that context dispatch builds is depicted, unless the walk faults. -/
theorem depicts_of_builtInContext {p : Place} (hmissing : p.tree.missing = true)
    (hbuilt : w.builtInContext p = true) {inherited : Properties} {found : Option Entry}
    (h : (w.visitContext p inherited).outcome = .ok found) :
    ∃ e, found = some e ∧ w.Depicts p e := by
  rw [visitContext_eq, contextAt, hmissing] at h
  simp only [Bool.not_true, Bool.false_and, Bool.false_eq_true, if_false] at h
  rw [builtInContext] at hbuilt
  cases hrule : w.table.rule? p.tree.kind with
  | none =>
    rw [hrule] at hbuilt
    cases hbuilt
  | some rule =>
    rw [hrule] at h hbuilt
    obtain ⟨-, -, h⟩ := Walk.outcome_bind_eq_ok_iff.1 h
    -- A declaration is made from what its children give.
    have hdeclaration : (rule.role = .declaration ∨ rule.role = .nameSpace ∨
        rule.role = .ambientModule) →
        (w.declarationAt p.tree rule (p.children.map w.site) inherited).outcome = .ok found →
        ∃ e, found = some e ∧ w.Depicts p e := by
      intro hrole h
      obtain ⟨entries, -, h⟩ := Walk.outcome_bind_eq_ok_iff.1 h
      obtain ⟨e, he, h⟩ := Walk.outcome_bind_eq_ok_iff.1 h
      cases h
      rw [Walk.outcome_lift] at he
      exact ⟨e, rfl, depicts_of_renderAs (.declaration hrule hrole) he⟩
    cases hrole : rule.role with
    | comment =>
      simp only [hrole] at h hbuilt
      obtain ⟨context, e, rfl, hmade, -⟩ := visitComment_eq_ok h hbuilt
      exact ⟨e, rfl, depicts_of_renderAs (.comment hbuilt) hmade⟩
    | exporter =>
      simp only [hrole, Option.isNone_iff_eq_none] at h hbuilt
      have hmakes : w.Makes p p.tree.kind := .exporter hrule hrole hbuilt
      rw [exportedChild] at hbuilt
      simp only [exporterAt, List.find?_map, Function.comp_def, hbuilt, Option.map_none] at h
      obtain ⟨entries, -, h⟩ := Walk.outcome_bind_eq_ok_iff.1 h
      obtain ⟨e, rfl, hmade⟩ := make_eq_ok_iff.1 h
      exact ⟨e, rfl, depicts_of_renderAs hmakes hmade⟩
    | wrapper =>
      simp only [hrole] at hbuilt
      cases hbuilt
    | declaration =>
      rw [hrole] at h
      exact hdeclaration (.inl hrole) h
    | nameSpace =>
      rw [hrole] at h
      exact hdeclaration (.inr (.inl hrole)) h
    | ambientModule =>
      rw [hrole] at h
      exact hdeclaration (.inr (.inr hrole)) h

theorem not_isComment_of_isDeclaration (hw : w.table = language.table) {tree : Tree}
    (h : w.table.isDeclaration tree.kind = true) : tree.isComment = false := by
  by_contra hcomment
  have hkind : tree.kind = commentKind := beq_iff_eq.1 (Bool.not_eq_false _ ▸ hcomment)
  rw [hw, hkind, Table.isDeclaration, language.rule?_comment] at h
  cases h

/-- What context dispatch on a declaration reports is a report on a node of the declaration. -/
theorem exists_node_of_isDeclaration (hw : w.table = language.table) {q : Place}
    (hq : w.table.isDeclaration q.tree.kind = true) {inherited : Properties} {d : Diagnostic}
    (hd : d ∈ w.reports (.context q inherited)) :
    ∃ n ∈ q.subtree, Diagnostic.forNode w.source n.tree (w.faultKind n.tree) = .ok d := by
  obtain ⟨c, n, hfocus, hn, hreport⟩ := exists_node_of_mem_reports hw hd
  rw [Task.focus, not_isComment_of_isDeclaration hw hq] at hfocus
  obtain rfl : q = c := Option.some.inj hfocus
  exact ⟨n, hn, hreport⟩

/-- Among nodes that can be told apart, only the fallback leaves a missing node out. -/
theorem fallsBack_of_leavesOut (hw : w.table = language.table) {p : Place}
    (hmissing : p.tree.missing = true) (hapart : ToldApart p) {inherited : Properties}
    (h : w.LeavesOut (w.visitContext p inherited) p) : w.fallsBack p = true := by
  obtain ⟨houtcome, d, hd, hdiagnostics⟩ := h
  have hmem : d ∈ w.reports (.context p inherited) := by
    rw [reports, hdiagnostics]
    exact List.mem_singleton_self d
  have hnoise : (!p.tree.missing && isNoise p.tree.kind) = false := by simp [hmissing]
  rcases w.context_cases p with hback | hbuilt | ⟨q, hq⟩ | ⟨rule, hrule, hrole, hdoc⟩
  · exact hback
  · obtain ⟨e, he, -⟩ := depicts_of_builtInContext hmissing hbuilt houtcome
    cases he
  · -- The statement goes on to a child, and what is reported there is no report on the statement.
    obtain ⟨handed, hsteps⟩ := steps_context_of_innerChild hnoise hq inherited
    obtain ⟨hchild, hdecl⟩ := innerChild_eq_some hq
    have hbelow := (reports_prefix_single (by simp) hsteps).subset hmem
    obtain ⟨n, hn, hreport⟩ := exists_node_of_isDeclaration hw hdecl hbelow
    have hindex := hapart n (Place.mem_subtree_of_child hchild hn) p p.mem_subtree_self
      ((identity_eq_of_forNode hreport).trans (identity_eq_of_forNode hd).symm)
    have := Place.index_lt_of_mem_children hchild hn
    omega
  · -- A plain comment reports nothing.
    have hsteps : w.steps (.context p inherited) = [.comment p] := by
      rw [steps, hnoise, hrule]
      simp [ruleSteps, hrole]
    have hsilent := (reports_prefix_single (by simp) hsteps).subset hmem
    rw [reports_comment_of_not_isDoc hdoc] at hsilent
    cases hsilent

/-! ## Missing nodes in an outline -/

theorem builtInContext_of_makes (hw : w.table = language.table) {n : Place}
    (hmissing : n.tree.missing = true) {kind : String} (h : w.Makes n kind) :
    w.builtInContext n = true := by
  cases h with
  | ordinary present =>
    rw [hmissing] at present
    cases present
  | comment hdoc =>
    have hkind : n.tree.kind = commentKind := beq_iff_eq.1 (isComment_of_isDoc hdoc)
    rw [builtInContext, hw, hkind, language.rule?_comment]
    exact hdoc
  | exporter hrule hrole hnone => simp [builtInContext, hrule, hrole, hnone]
  | declaration hrule hrole =>
    rcases hrole with hrole | hrole | hrole <;> simp [builtInContext, hrule, hrole]

/-- **Which missing nodes are left out, and which are built.** Ordinary dispatch leaves out every
missing node, and context dispatch those on which it falls back; among nodes that can be told
apart it leaves out no others. Instead it builds them, where a rule says so, and no entry of an
outline is made of a missing node in any other way. -/
theorem missing_left_out_or_built (hw : w.table = language.table) :
    (∀ p : Place, p.tree.missing = true →
      w.LeavesOut (w.visit p) p ∧
      (∀ inherited, w.fallsBack p = true → w.LeavesOut (w.visitContext p inherited) p) ∧
      (ToldApart p → ∀ inherited, w.LeavesOut (w.visitContext p inherited) p →
        w.fallsBack p = true) ∧
      ∀ inherited found, w.builtInContext p = true →
        (w.visitContext p inherited).outcome = .ok found →
        ∃ e, found = some e ∧ w.Depicts p e) ∧
    ∀ tree entries, (w.visitRoot (.ofRoot tree)).outcome = .ok entries →
      ∀ m ∈ Entry.preorderList entries, ∃ n ∈ Place.preorder tree,
        w.Depicts n m ∧ (n.tree.missing = true → w.builtInContext n = true) := by
  constructor
  · intro p hmissing
    refine ⟨leavesOut_visit hmissing, fun inherited hback => ?_, fun hapart inherited h => ?_,
      fun inherited found hbuilt h => ?_⟩
    · exact leavesOut_visitContext hmissing hback inherited
    · exact fallsBack_of_leavesOut hw hmissing hapart h
    · exact depicts_of_builtInContext hmissing hbuilt h
  · intro tree entries h m hm
    obtain ⟨n, hn, hdepicts, -⟩ := grown_of_visitRoot h hm
    rw [Place.preorder_eq_subtree]
    exact ⟨n, hn, hdepicts, fun hmissing => builtInContext_of_makes hw hmissing hdepicts.made⟩

end Walker

/-- A node that is missing from a text of a single line. -/
def Tree.gap (kind : String) (column : UInt32) : Tree :=
  .node ⟨kind, column, column, ⟨0, column⟩, ⟨0, column⟩, true⟩ []

namespace Walker

/-- `/** A. */`, and behind it a class of which nothing is there -/
def documentedGap : Tree :=
  .inLine "program" 0 10 [.inLine "comment" 0 9 [], .gap "class" 10]

/-- The class of `documentedGap`. -/
def gapOfClass : Place :=
  ⟨2, .gap "class" 10, []⟩

/-- A semicolon in place of the class. -/
def gapOfSemicolon : Place :=
  ⟨2, .gap ";" 10, []⟩

def forDocumentedGap : Walker :=
  .ofText .javaScript "/** A. */ "

/-- The semicolon is left out, also when a comment documents it. The class is left out by ordinary
dispatch only: its comment has it as a context. -/
theorem missing_left_out_or_built_documentedGap :
    forDocumentedGap.LeavesOut (forDocumentedGap.visit gapOfClass) gapOfClass ∧
      forDocumentedGap.LeavesOut (forDocumentedGap.visitContext gapOfSemicolon .empty)
        gapOfSemicolon ∧
      ¬ forDocumentedGap.LeavesOut (forDocumentedGap.visitContext gapOfClass .empty) gapOfClass ∧
      (∃ e, (forDocumentedGap.visitContext gapOfClass .empty).outcome = .ok (some e) ∧
        forDocumentedGap.Depicts gapOfClass e) ∧
      ∃ entries, (forDocumentedGap.visitRoot (.ofRoot documentedGap)).outcome = .ok entries ∧
        (Entry.preorderList entries).length = 2 ∧
        ∀ m ∈ Entry.preorderList entries, ∃ n ∈ Place.preorder documentedGap,
          forDocumentedGap.Depicts n m ∧
            (n.tree.missing = true → forDocumentedGap.builtInContext n = true) := by
  have htable : forDocumentedGap.table = Language.javaScript.table := rfl
  obtain ⟨hdispatch, hrun⟩ := missing_left_out_or_built htable
  obtain ⟨hvisit, -, honly, hbuilds⟩ := hdispatch gapOfClass rfl
  have hapart : ToldApart gapOfClass := by
    intro m hm n hn _
    rw [List.mem_singleton.1 hm, List.mem_singleton.1 hn]
  obtain ⟨found, hfound, -⟩ := Walk.exists_ok_of_any (f := fun _ => true)
    (show (forDocumentedGap.visitContext gapOfClass .empty).outcome.toOption.any
      (fun _ => true) = true by decide +kernel)
  obtain ⟨e, rfl, hdepicts⟩ := hbuilds .empty found (by decide +kernel) hfound
  obtain ⟨entries, hentries, hlength⟩ :
      ∃ entries, (forDocumentedGap.visitRoot (.ofRoot documentedGap)).outcome = .ok entries ∧
        ((Entry.preorderList entries).length == 2) = true :=
    Walk.exists_ok_of_any (by decide +kernel)
  refine ⟨hvisit, ?_, fun h => ?_, ⟨e, hfound, hdepicts⟩, entries, hentries,
    beq_iff_eq.1 hlength, hrun documentedGap entries hentries⟩
  · exact (hdispatch gapOfSemicolon rfl).2.1 .empty (by decide +kernel)
  · exact absurd (honly hapart .empty h) (by decide +kernel)

/-- A missing class is built where context dispatch comes to it. -/
theorem missing_class_built :
    ¬ ∀ (w : Walker) (language : Language) (p : Place) (inherited : Properties),
      w.table = language.table → p.tree.missing = true →
      w.LeavesOut (w.visit p) p ∧ w.LeavesOut (w.visitContext p inherited) p := by
  intro hall
  obtain ⟨-, hnone, -⟩ := hall forDocumentedGap .javaScript gapOfClass .empty rfl rfl
  obtain ⟨found, hfound, hsome⟩ := Walk.exists_ok_of_any (f := Option.isSome)
    (show (forDocumentedGap.visitContext gapOfClass .empty).outcome.toOption.any
      Option.isSome = true by decide +kernel)
  rw [hnone] at hfound
  cases hfound
  cases hsome

end Walker

end DocOutline
