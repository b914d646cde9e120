import DocOutline.Proofs.Conservation
import DocOutline.Proofs.Missing

/-!
# Export status on the way down

What an exporting statement says of its declaration is handed down, through any number of exporting
and wrapping statements, to the node that is built in the end. That node is found by going on to
the declaration inside, as long as there is one (`Walker.EndsAt`). A declaration and an exporting
statement are built with what was handed down to them, so no flag is lost on the way. A wrapping
statement without a declaration is not: context dispatch falls back on ordinary dispatch there, and
the entry has no properties at all (`Walker.flags_kept_unless_fallsBack`).
-/

namespace DocOutline

/-! ## Flags of entries -/

/-- Every flag that is set in the properties is set in those of the entry. -/
def Entry.Carries (entry : Entry) (p : Properties) : Prop :=
  ∀ flag, p.flag? flag = some true → entry.flag? flag = some true

theorem Properties.merge_empty (p : Properties) : p.merge .empty = p := by
  simp [merge, empty, mergeWith_none]

theorem Properties.flag?_merge_left {p q : Properties} {flag : Flag}
    (h : p.flag? flag = some true) : (p.merge q).flag? flag = some true := by
  rw [flag?_merge, mergeWith_eq_some_true_iff]
  exact .inl h

theorem Properties.flag?_merge_right {p q : Properties} {flag : Flag}
    (h : q.flag? flag = some true) : (p.merge q).flag? flag = some true := by
  rw [flag?_merge, mergeWith_eq_some_true_iff]
  exact .inr h

theorem Entry.Carries.of_merge {entry : Entry} {p q : Properties}
    (h : entry.Carries (p.merge q)) : entry.Carries p := by
  intro flag hflag
  exact h flag (Properties.flag?_merge_left hflag)

/-- A declaration is built with all flags of its properties. -/
theorem Renderer.carries_of_renderAs {renderer : Renderer} {tree : Tree} {kind : String}
    {entries : List Entry} {p : Properties} {e : Entry}
    (h : renderer.renderAs tree kind (.declaration entries p) = .ok e) : e.Carries p := by
  intro flag hflag
  rw [Entry.flag?, (renderAs_eq_ok_iff.1 h).properties_eq, Payload.shownProperties,
    Properties.nonEmpty?]
  by_cases hempty : p.isEmpty = true
  · have hp : p = .empty := by simpa [Properties.isEmpty] using hempty
    rw [hp, Properties.flag?_empty] at hflag
    cases hflag
  · rw [if_neg hempty]
    exact hflag

namespace Walker

variable {w : Walker} {language : Language} {p q n : Place} {inherited : Properties} {m : Entry}

/-! ## One step down -/

/-- Ordinary dispatch gives no properties. -/
theorem properties_of_visit (h : (w.visit p).outcome = .ok (some m)) : m.properties = none := by
  have hmake : ∀ {payload : Payload}, payload.shownProperties = none →
      (w.make p.tree payload).outcome = .ok (some m) → m.properties = none := by
    intro payload hpayload h
    obtain ⟨e, he, hmade⟩ := make_eq_ok_iff.1 h
    cases he
    rw [(Renderer.renderAs_eq_ok_iff.1 hmade).properties_eq, hpayload]
  rw [visit_eq, visitAt] at h
  split at h
  · obtain ⟨-, -, h⟩ := Walk.outcome_bind_eq_ok_iff.1 h
    cases h
  obtain ⟨-, -, h⟩ := Walk.outcome_bind_eq_ok_iff.1 h
  split at h
  · obtain ⟨entries, -, h⟩ := Walk.outcome_bind_eq_ok_iff.1 h
    exact hmake rfl h
  · rcases visitComment_cases h with ⟨-, hnone⟩ | ⟨-, context, -, hmade⟩
    · cases hnone
    · exact hmake rfl hmade
  · obtain ⟨-, -, h⟩ := Walk.outcome_bind_eq_ok_iff.1 h
    cases h
  · obtain ⟨entries, -, h⟩ := Walk.outcome_bind_eq_ok_iff.1 h
    exact hmake rfl h
  · exact hmake rfl h
  · obtain ⟨-, -, h⟩ := Walk.outcome_bind_eq_ok_iff.1 h
    cases h

/-- What a node hands to the declaration inside it. Only an exporting statement has something to
add. -/
def handedOn (w : Walker) (p : Place) (inherited : Properties) : Properties :=
  match w.table.rule? p.tree.kind with
  | some rule => if rule.role = .exporter then w.exportedWith p inherited else inherited
  | none => inherited

theorem handedOn_of_exporter {rule : Rule} (hrule : w.table.rule? p.tree.kind = some rule)
    (hrole : rule.role = .exporter) (inherited : Properties) :
    w.handedOn p inherited = w.exportedWith p inherited := by
  simp [handedOn, hrule, hrole]

theorem handedOn_of_not_exporter {rule : Rule} (hrule : w.table.rule? p.tree.kind = some rule)
    (hrole : rule.role ≠ .exporter) (inherited : Properties) :
    w.handedOn p inherited = inherited := by
  simp [handedOn, hrule, hrole]

/-- Whatever is handed on has the flags that came from above. -/
theorem exists_handedOn_eq (w : Walker) (p : Place) (inherited : Properties) :
    ∃ more, w.handedOn p inherited = inherited.merge more := by
  unfold handedOn
  split
  · split_ifs
    · exact ⟨_, rfl⟩
    · exact ⟨.empty, inherited.merge_empty.symm⟩
  · exact ⟨.empty, inherited.merge_empty.symm⟩

/-- Context dispatch on a declaration goes on to the declaration inside it, or falls back on
ordinary dispatch, or builds the node with what was handed on to it. -/
theorem visitContext_step (hdecl : w.table.isDeclaration p.tree.kind = true)
    (h : (w.visitContext p inherited).outcome = .ok (some m)) :
    (∃ q, w.innerChild p = some q ∧
      (w.visitContext q (w.handedOn p inherited)).outcome = .ok (some m)) ∨
    (w.innerChild p = none ∧ w.fallsBack p = true ∧ (w.visit p).outcome = .ok (some m)) ∨
    (w.innerChild p = none ∧ w.fallsBack p = false ∧ ∃ kind entries own,
      w.renderer.renderAs p.tree kind
        (.declaration entries ((w.handedOn p inherited).merge own)) = .ok m) := by
  rw [visitContext_eq, contextAt] at h
  split at h
  · cases h
  obtain ⟨rule, hrule, hcomment⟩ := (Option.any_eq_true _ _).1 hdecl
  rw [hrule] at h
  obtain ⟨-, -, h⟩ := Walk.outcome_bind_eq_ok_iff.1 h
  cases hrole : rule.role with
  | comment => simp [hrole] at hcomment
  | exporter =>
    rw [handedOn_of_exporter hrule hrole]
    simp only [hrole, exporterAt, List.find?_map, List.filter_map, Function.comp_def] at h
    cases hchild : w.exportedChild p with
    | some q =>
      refine .inl ⟨q, by simp [innerChild, hrule, hrole, hchild], ?_⟩
      rw [exportedChild] at hchild
      simp only [hchild, Option.map_some, site_context] at h
      exact h
    | none =>
      refine .inr (.inr ⟨by simp [innerChild, hrule, hrole, hchild],
        by simp [fallsBack, hrule, hrole], ?_⟩)
      rw [exportedChild] at hchild
      simp only [hchild, Option.map_none] at h
      obtain ⟨entries, -, h⟩ := Walk.outcome_bind_eq_ok_iff.1 h
      obtain ⟨e, he, hmade⟩ := make_eq_ok_iff.1 h
      cases he
      refine ⟨p.tree.kind, entries, .empty, ?_⟩
      rwa [Properties.merge_empty]
  | wrapper =>
    rw [handedOn_of_not_exporter hrule (by simp [hrole])]
    simp only [hrole, wrapperAt, List.find?_map, Function.comp_def, site_kind] at h
    cases hchild : w.wrappedChild rule p with
    | some q =>
      refine .inl ⟨q, by simp [innerChild, hrule, hrole, hchild], ?_⟩
      rw [wrappedChild] at hchild
      simpa only [hchild, Option.map_some, site_context] using h
    | none =>
      refine .inr (.inl ⟨by simp [innerChild, hrule, hrole, hchild],
        by simp [fallsBack, hrule, hrole, hchild], ?_⟩)
      rw [wrappedChild] at hchild
      simpa only [hchild, Option.map_none] using h
  | declaration | nameSpace | ambientModule =>
    rw [handedOn_of_not_exporter hrule (by simp [hrole])]
    rw [hrole] at h
    obtain ⟨entries, -, h⟩ := Walk.outcome_bind_eq_ok_iff.1 h
    obtain ⟨e, hmade, h⟩ := Walk.outcome_bind_eq_ok_iff.1 h
    cases h
    rw [Walk.outcome_lift] at hmade
    exact .inr (.inr ⟨by simp [innerChild, hrule, hrole], by simp [fallsBack, hrule, hrole],
      rule.entryKind, entries, _, hmade⟩)

/-! ## All the way down -/

/-- The node that context dispatch comes to from a node, going on to the declaration inside as long
as there is one. -/
inductive EndsAt (w : Walker) : Place → Place → Prop
  | here {p : Place} (h : w.innerChild p = none) : w.EndsAt p p
  | inside {p q e : Place} (h : w.innerChild p = some q) (hq : w.EndsAt q e) : w.EndsAt p e

/-- The entry is that of the node where the way down ends. It has no properties if context dispatch
falls back there, and otherwise all flags that were handed on at the beginning of the way. -/
theorem carries_of_endsAt (p : Place) : ∀ {inherited : Properties} {m : Entry},
    w.table.isDeclaration p.tree.kind = true →
    (w.visitContext p inherited).outcome = .ok (some m) →
    ∃ e, w.EndsAt p e ∧ w.Renders e.tree m ∧ (w.fallsBack e = true → m.properties = none) ∧
      (w.fallsBack e = false → m.Carries (w.handedOn p inherited)) := by
  induction p using Place.induction with
  | step p ih _ =>
    intro inherited m hdecl h
    rcases visitContext_step hdecl h with ⟨q, hq, hcontext⟩ | ⟨hend, hback, hvisit⟩ |
      ⟨hend, hback, kind, entries, own, hmade⟩
    · obtain ⟨hchild, hdecl'⟩ := innerChild_eq_some hq
      obtain ⟨e, hends, hrenders, hlost, hkept⟩ := ih q hchild hdecl' hcontext
      refine ⟨e, .inside hq hends, hrenders, hlost, fun hback => ?_⟩
      obtain ⟨more, hmore⟩ := w.exists_handedOn_eq q (w.handedOn p inherited)
      have hall := hkept hback
      rw [hmore] at hall
      exact hall.of_merge
    · refine ⟨p, .here hend, (visit_eq_some hvisit).1, fun _ => properties_of_visit hvisit, ?_⟩
      intro hkeeps
      rw [hback] at hkeeps
      cases hkeeps
    · refine ⟨p, .here hend, ⟨kind, _, hmade⟩, ?_, fun _ => ?_⟩
      · intro hloses
        rw [hback] at hloses
        cases hloses
      · exact (Renderer.carries_of_renderAs hmade).of_merge

/-! ## Exporting statements -/

/-- The children of an exporting statement before the declaration that it exports: the first child
with a rule that is neither a comment nor a decorator. Without one these are all children. -/
def beforeExported (w : Walker) (n : Place) : List Place :=
  n.children.takeWhile fun q =>
    !(w.table.isDeclaration q.tree.kind && q.tree.kind != decoratorKind)

theorem isExported_site (hw : w.table = language.table) (q : Place) :
    w.isExported (w.site q) =
      (w.table.isDeclaration q.tree.kind && q.tree.kind != decoratorKind) := by
  have htoken : w.table.isDeclaration q.tree.kind = true → isExportToken (w.site q) = false := by
    intro hdecl
    by_contra htoken
    have hmem : q.tree.kind ∈ [exportKind, defaultKind, decoratorKind] := by
      simp only [isExportToken, site_kind, Bool.not_eq_false, Bool.or_eq_true, beq_iff_eq] at htoken
      rcases htoken with hkind | hkind <;> simp [hkind]
    rw [hw, Table.isDeclaration, language.rule?_of_token hmem] at hdecl
    cases hdecl
  rw [isExported, site_kind]
  cases hdecl : w.table.isDeclaration q.tree.kind with
  | false => simp
  | true => simp [htoken hdecl]

/-- The tokens before the declaration tell how it is exported. -/
theorem exportsOf_before (hw : w.table = language.table) (n : Place) :
    exportsOf ((n.children.map w.site).takeWhile fun s => !w.isExported s) =
      ⟨(w.beforeExported n).any (·.tree.kind == exportKind),
        (w.beforeExported n).any (·.tree.kind == defaultKind)⟩ := by
  have hbefore : ((n.children.map w.site).takeWhile fun s => !w.isExported s) =
      (w.beforeExported n).map w.site := by
    rw [List.takeWhile_map, beforeExported]
    congr 2
    funext q
    rw [Function.comp_apply, isExported_site hw]
  rw [hbefore, exportsOf]
  simp [List.any_map, Function.comp_def]

/-- **Export status is kept on the way down, unless a statement wraps nothing.** The entry of an
exporting statement is that of the node where the way down ends. If context dispatch falls back
there, all properties are lost. Otherwise the entry has every flag from above, and it is marked as
exported, and as exported by default, where such a token stands before the declaration. -/
theorem flags_kept_unless_fallsBack (hw : w.table = language.table)
    (hkind : n.tree.kind = "export_statement")
    (h : (w.visitContext n inherited).outcome = .ok (some m)) :
    ∃ e, w.EndsAt n e ∧ w.Renders e.tree m ∧ (w.fallsBack e = true → m.properties = none) ∧
      (w.fallsBack e = false → m.Carries inherited ∧
        ((∃ q ∈ w.beforeExported n, q.tree.kind = exportKind) →
          m.flag? .exported = some true) ∧
        ((∃ q ∈ w.beforeExported n, q.tree.kind = defaultKind) →
          m.flag? .exportedByDefault = some true)) := by
  have hrule : w.table.rule? n.tree.kind = some ⟨"export_statement", .exporter, none, []⟩ := by
    rw [hw, hkind]
    cases language <;> decide
  have hdecl : w.table.isDeclaration n.tree.kind = true := by
    rw [Table.isDeclaration, hrule]
    rfl
  obtain ⟨e, hends, hrenders, hlost, hkept⟩ := carries_of_endsAt n hdecl h
  refine ⟨e, hends, hrenders, hlost, fun hback => ?_⟩
  have hall := hkept hback
  rw [handedOn_of_exporter hrule rfl, exportedWith, exportsOf_before hw] at hall
  refine ⟨hall.of_merge, ?_, ?_⟩
  · rintro ⟨q, hq, htoken⟩
    refine hall .exported (Properties.flag?_merge_right (congrArg some ?_))
    exact List.any_eq_true.2 ⟨q, hq, beq_iff_eq.2 htoken⟩
  · rintro ⟨q, hq, htoken⟩
    refine hall .exportedByDefault (Properties.flag?_merge_right (congrArg some ?_))
    exact List.any_eq_true.2 ⟨q, hq, beq_iff_eq.2 htoken⟩

/-- `export declare class E {}` -/
def exportedAmbientClass : Tree :=
  .inLine "export_statement" 0 25 [
    .inLine "export" 0 6 [],
    .inLine "ambient_declaration" 7 25 [
      .inLine "declare" 7 14 [],
      .inLine "class_declaration" 15 25 [
        .inLine "class" 15 20 [],
        .inLine "type_identifier" 21 22 [],
        .inLine "class_body" 23 25 []]]]

def forExportedAmbientClass : Walker :=
  .ofText .typeScript "export declare class E \x7b\x7d"

/-- The class is marked as exported, and as what it was said to be from above. -/
theorem flags_kept_unless_fallsBack_exportedAmbientClass :
    ∃ m e, (forExportedAmbientClass.visitContext (.ofRoot exportedAmbientClass)
        { ambientModule := some true }).outcome = .ok (some m) ∧
      forExportedAmbientClass.EndsAt (.ofRoot exportedAmbientClass) e ∧
      forExportedAmbientClass.Renders e.tree m ∧
      m.Carries { ambientModule := some true } ∧ m.flag? .exported = some true := by
  have htable : forExportedAmbientClass.table = Language.typeScript.table := rfl
  obtain ⟨found, hfound, hsome⟩ :
      ∃ found, (forExportedAmbientClass.visitContext (.ofRoot exportedAmbientClass)
          { ambientModule := some true }).outcome = .ok found ∧
        (found.any fun m => m.properties.isSome) = true :=
    Walk.exists_ok_of_any (by decide +kernel)
  obtain ⟨m, rfl, hm⟩ := (Option.any_eq_true _ _).1 hsome
  obtain ⟨e, hends, hrenders, hlost, hkept⟩ := flags_kept_unless_fallsBack htable rfl hfound
  have hback : forExportedAmbientClass.fallsBack e = false := by
    by_contra hback
    rw [hlost (by simpa using hback)] at hm
    cases hm
  obtain ⟨hcarries, hexported, -⟩ := hkept hback
  have htoken : ((forExportedAmbientClass.beforeExported (.ofRoot exportedAmbientClass)).any
      (·.tree.kind == exportKind)) = true := by
    decide +kernel
  refine ⟨m, e, hfound, hends, hrenders, hcarries, hexported ?_⟩
  simpa using htoken

/-- `export declare global {}` -/
def exportedGlobal : Tree :=
  .inLine "export_statement" 0 24 [
    .inLine "export" 0 6 [],
    .inLine "ambient_declaration" 7 24 [
      .inLine "declare" 7 14 [],
      .inLine "global" 15 21 [],
      .inLine "statement_block" 22 24 []]]

def forExportedGlobal : Walker :=
  .ofText .typeScript "export declare global \x7b\x7d"

/-- The exported statement that declares nothing is not marked as exported. -/
theorem export_status_lost :
    ¬ ∀ (w : Walker) (language : Language) (n : Place) (inherited : Properties) (m : Entry),
      w.table = language.table → n.tree.kind = "export_statement" → n.tree.missing = false →
      (w.visitContext n inherited).outcome = .ok (some m) →
      m.Carries inherited ∧
        ((∃ q ∈ w.beforeExported n, q.tree.kind = exportKind) → m.flag? .exported = some true) ∧
        ((∃ q ∈ w.beforeExported n, q.tree.kind = defaultKind) →
          m.flag? .exportedByDefault = some true) := by
  intro hall
  obtain ⟨found, hfound, hnone⟩ :
      ∃ found, (forExportedGlobal.visitContext (.ofRoot exportedGlobal) .empty).outcome = .ok found ∧
        (found.any fun m => m.properties.isNone) = true :=
    Walk.exists_ok_of_any (by decide +kernel)
  obtain ⟨m, rfl, hm⟩ := (Option.any_eq_true _ _).1 hnone
  obtain ⟨-, hexported, -⟩ :=
    hall forExportedGlobal .typeScript (.ofRoot exportedGlobal) .empty m rfl rfl rfl hfound
  have htoken : ((forExportedGlobal.beforeExported (.ofRoot exportedGlobal)).any
      (·.tree.kind == exportKind)) = true := by
    decide +kernel
  have hflag := hexported (by simpa using htoken)
  rw [Entry.flag?, Option.isNone_iff_eq_none.1 hm] at hflag
  cases hflag

end Walker

end DocOutline
