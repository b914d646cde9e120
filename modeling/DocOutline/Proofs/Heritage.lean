import DocOutline.Proofs.ExportStatus
import DocOutline.Proofs.Twins

/-!
# Inheritance

A declaration records one keyword of inheritance. The search for it goes from child to child, into
heritage clauses at any depth, and stops at the first keyword.

Here the search is described by what it could come to if it did not stop (`Table.ComesTo`): the
nodes of a row, and the nodes below any of them that is a heritage clause. Nodes are numbered in
preorder, so the first keyword is the one with the least number (`Table.FirstKeyword`), and the
search finds that one (`Table.finds_inheritanceIn?`). A declaration records it and nothing else
(`Walker.inheritance_of_firstKeyword`).
-/

namespace DocOutline

/-- A keyword of inheritance. -/
def isInheritanceKeyword (kind : String) : Bool :=
  kind == extendsKind || kind == implementsKind

/-- What a keyword of inheritance says. -/
def Inheritance.ofKeyword (kind : String) : Inheritance :=
  ⟨kind == extendsKind, kind == implementsKind⟩

theorem Inheritance.eq_ofKeyword_iff {kind : String} (h : isInheritanceKeyword kind = true)
    (inheritance : Inheritance) :
    inheritance = .ofKeyword kind ↔
      kind = extendsKind ∧ inheritance = ⟨true, false⟩ ∨
        kind = implementsKind ∧ inheritance = ⟨false, true⟩ := by
  have hne : extendsKind ≠ implementsKind := by decide
  rw [isInheritanceKeyword, Bool.or_eq_true, beq_iff_eq, beq_iff_eq] at h
  rcases h with rfl | rfl
  · simp [ofKeyword, hne, beq_false_of_ne hne]
  · simp [ofKeyword, hne.symm, beq_false_of_ne hne.symm]

namespace Table

variable {table : Table} {row rest : List Place} {p q r : Place}

/-! ## What a search can come to -/

/-- A search for inheritance in a row of places can come to a place: it enters heritage clauses and
nothing else. -/
inductive ComesTo (table : Table) : List Place → Place → Prop
  | here {row : List Place} {q : Place} (hq : q ∈ row) : ComesTo table row q
  | inside {row : List Place} {q r : Place} (hq : q ∈ row)
    (hheritage : table.isHeritage q.tree.kind = true) (hr : ComesTo table q.children r) :
    ComesTo table row r

/-- The first keyword of inheritance in preorder among the places to which a search can come. -/
structure FirstKeyword (table : Table) (row : List Place) (q : Place) : Prop where
  comesTo : table.ComesTo row q
  keyword : isInheritanceKeyword q.tree.kind = true
  least : ∀ r, table.ComesTo row r → isInheritanceKeyword r.tree.kind = true → q.index ≤ r.index

/-- The result of a search: the first keyword, or nothing where there is no keyword. -/
def Finds (table : Table) (row : List Place) : Option Inheritance → Prop
  | some inheritance => ∃ q, table.FirstKeyword row q ∧ inheritance = .ofKeyword q.tree.kind
  | none => ∀ q, table.ComesTo row q → isInheritanceKeyword q.tree.kind = false

theorem comesTo_cons_iff :
    table.ComesTo (q :: rest) r ↔ table.ComesTo [q] r ∨ table.ComesTo rest r := by
  constructor
  · intro h
    cases h with
    | here hr =>
      rcases List.mem_cons.1 hr with rfl | hr
      · exact .inl (.here List.mem_cons_self)
      · exact .inr (.here hr)
    | inside hp hheritage hr =>
      rcases List.mem_cons.1 hp with rfl | hp
      · exact .inl (.inside List.mem_cons_self hheritage hr)
      · exact .inr (.inside hp hheritage hr)
  · have hmono : ∀ {part : List Place}, part ⊆ q :: rest → table.ComesTo part r →
        table.ComesTo (q :: rest) r := by
      intro part hpart h
      cases h with
      | here hr => exact .here (hpart hr)
      | inside hp hheritage hr => exact .inside (hpart hp) hheritage hr
    rintro (h | h)
    · exact hmono (by simp) h
    · exact hmono (List.subset_cons_self q rest) h

theorem comesTo_singleton_iff :
    table.ComesTo [q] r ↔
      r = q ∨ table.isHeritage q.tree.kind = true ∧ table.ComesTo q.children r := by
  constructor
  · intro h
    cases h with
    | here hr => exact .inl (List.mem_singleton.1 hr)
    | inside hp hheritage hr =>
      obtain rfl := List.mem_singleton.1 hp
      exact .inr ⟨hheritage, hr⟩
  · rintro (rfl | ⟨hheritage, hr⟩)
    · exact .here List.mem_cons_self
    · exact .inside List.mem_cons_self hheritage hr

theorem ComesTo.exists_mem_subtree (h : table.ComesTo row r) : ∃ q ∈ row, r ∈ q.subtree := by
  induction h with
  | here hq => exact ⟨_, hq, Place.mem_subtree_self _⟩
  | inside hq _ _ ih =>
    obtain ⟨child, hchild, hr⟩ := ih
    exact ⟨_, hq, Place.mem_subtree_of_child hchild hr⟩

/-- The first keyword is unique below a node. -/
theorem FirstKeyword.eq {n : Place} (hrow : ∀ c ∈ row, c ∈ n.children)
    (hq : table.FirstKeyword row q) (hr : table.FirstKeyword row r) : q = r := by
  have hmem : ∀ {m : Place}, table.ComesTo row m → m ∈ n.subtree := by
    intro m hm
    obtain ⟨c, hc, hmc⟩ := hm.exists_mem_subtree
    exact Place.mem_subtree_of_child (hrow c hc) hmc
  have hindex : q.index = r.index :=
    Nat.le_antisymm (hq.least r hr.comesTo hr.keyword) (hr.least q hq.comesTo hq.keyword)
  have hnodup : (n.subtree.map (·.index)).Nodup := by
    rw [Place.index_subtree]
    exact List.nodup_range'
  exact List.inj_on_of_nodup_map hnodup (hmem hq.comesTo) (hmem hr.comesTo) hindex

namespace Finds

variable {result : Option Inheritance} (h : table.Finds row result)

include h

theorem eq_none_iff :
    result = none ↔ ∀ q, table.ComesTo row q → isInheritanceKeyword q.tree.kind = false := by
  cases result with
  | none => exact ⟨fun _ => h, fun _ => rfl⟩
  | some inheritance =>
    obtain ⟨k, hk, -⟩ := h
    constructor
    · intro hnone
      cases hnone
    · intro hall
      have hnot := hall k hk.comesTo
      rw [hk.keyword] at hnot
      cases hnot

theorem eq_some_iff {n : Place} (hrow : ∀ c ∈ row, c ∈ n.children) (inheritance : Inheritance) :
    result = some inheritance ↔
      ∃ q, table.FirstKeyword row q ∧ inheritance = .ofKeyword q.tree.kind := by
  cases result with
  | none =>
    constructor
    · intro hsome
      cases hsome
    · rintro ⟨q, hq, -⟩
      have hnot := h q hq.comesTo
      rw [hq.keyword] at hnot
      cases hnot
  | some found =>
    obtain ⟨k, hk, rfl⟩ := h
    constructor
    · intro heq
      exact ⟨k, hk, (Option.some.inj heq).symm⟩
    · rintro ⟨q, hq, rfl⟩
      rw [hk.eq hrow hq]

end Finds

/-! ## What the search finds -/

/-- The search goes on to the rest of a row where the first node of the row has no keyword. -/
theorem finds_cons (hrow : (q :: rest).Pairwise fun p r => p.index + p.tree.size ≤ r.index)
    (hhead : table.Finds [q] (table.inheritance? q.tree))
    (hrest : table.Finds rest (table.inheritanceIn? (rest.map (·.tree)))) :
    table.Finds (q :: rest) (table.inheritanceIn? ((q :: rest).map (·.tree))) := by
  rw [List.map_cons, inheritanceIn?]
  cases hfound : table.inheritance? q.tree with
  | some inheritance =>
    rw [hfound] at hhead
    obtain ⟨k, hk, heq⟩ := hhead
    refine ⟨k, ⟨comesTo_cons_iff.2 (.inl hk.comesTo), hk.keyword, fun r hcomes hkeyword => ?_⟩, heq⟩
    rcases comesTo_cons_iff.1 hcomes with hr | hr
    · exact hk.least r hr hkeyword
    · -- The whole subtree of the first node has smaller numbers than the rest of the row.
      obtain ⟨c, hc, hkc⟩ := hk.comesTo.exists_mem_subtree
      obtain rfl := List.mem_singleton.1 hc
      obtain ⟨d, hd, hrd⟩ := hr.exists_mem_subtree
      have hbefore := (List.pairwise_cons.1 hrow).1 d hd
      have hkindex := Place.index_of_mem_subtree hkc
      have hrindex := Place.index_of_mem_subtree hrd
      omega
  | none =>
    rw [hfound] at hhead
    show table.Finds (q :: rest) (table.inheritanceIn? (rest.map (·.tree)))
    cases hfound' : table.inheritanceIn? (rest.map (·.tree)) with
    | none =>
      rw [hfound'] at hrest
      intro r hr
      rcases comesTo_cons_iff.1 hr with hr | hr
      · exact hhead r hr
      · exact hrest r hr
    | some inheritance =>
      rw [hfound'] at hrest
      obtain ⟨k, hk, heq⟩ := hrest
      refine ⟨k, ⟨comesTo_cons_iff.2 (.inr hk.comesTo), hk.keyword, fun r hr hkeyword => ?_⟩, heq⟩
      rcases comesTo_cons_iff.1 hr with hr | hr
      · rw [hhead r hr] at hkeyword
        cases hkeyword
      · exact hk.least r hr hkeyword

theorem finds_row (hrow : row.Pairwise fun p r => p.index + p.tree.size ≤ r.index)
    (hall : ∀ q ∈ row, table.Finds [q] (table.inheritance? q.tree)) :
    table.Finds row (table.inheritanceIn? (row.map (·.tree))) := by
  induction row with
  | nil =>
    intro r hr
    obtain ⟨c, hc, -⟩ := hr.exists_mem_subtree
    cases hc
  | cons q rest ih =>
    refine finds_cons hrow (hall q List.mem_cons_self) ?_
    exact ih (List.pairwise_cons.1 hrow).2 fun r hr => hall r (List.mem_cons_of_mem q hr)

/-- A keyword is found as itself, and nothing inside it is first. -/
theorem finds_keyword (h : isInheritanceKeyword q.tree.kind = true) :
    table.Finds [q] (some (.ofKeyword q.tree.kind)) := by
  refine ⟨q, ⟨.here List.mem_cons_self, h, fun r hcomes _ => ?_⟩, rfl⟩
  obtain ⟨c, hc, hr⟩ := hcomes.exists_mem_subtree
  obtain rfl := List.mem_singleton.1 hc
  exact (Place.index_of_mem_subtree hr).1

theorem finds_inheritance? (table : Table) (q : Place) :
    table.Finds [q] (table.inheritance? q.tree) := by
  induction q using Place.induction with
  | step q children _ =>
    rw [inheritance?_eq]
    split_ifs with hextends himplements hheritage
    · have hfound : table.Finds [q] (some (.ofKeyword q.tree.kind)) :=
        finds_keyword (by rw [hextends]; rfl)
      rwa [hextends] at hfound
    · have hfound : table.Finds [q] (some (.ofKeyword q.tree.kind)) :=
        finds_keyword (by rw [himplements]; rfl)
      rwa [himplements] at hfound
    · have hkeyword : isInheritanceKeyword q.tree.kind = false := by
        simp [isInheritanceKeyword, hextends, himplements]
      have hbelow := finds_row (Place.pairwise_row _ _) children
      rw [Place.map_tree_row] at hbelow
      cases hfound : table.inheritanceIn? q.tree.children with
      | none =>
        rw [hfound] at hbelow
        intro r hr
        rcases comesTo_singleton_iff.1 hr with rfl | ⟨-, hr⟩
        · exact hkeyword
        · exact hbelow r hr
      | some inheritance =>
        rw [hfound] at hbelow
        obtain ⟨k, hk, heq⟩ := hbelow
        refine ⟨k, ⟨comesTo_singleton_iff.2 (.inr ⟨hheritage, hk.comesTo⟩), hk.keyword, ?_⟩, heq⟩
        intro r hr hr'
        rcases comesTo_singleton_iff.1 hr with rfl | ⟨-, hr⟩
        · rw [hkeyword] at hr'
          cases hr'
        · exact hk.least r hr hr'
    · intro r hr
      rcases comesTo_singleton_iff.1 hr with rfl | ⟨hinside, -⟩
      · simp [isInheritanceKeyword, hextends, himplements]
      · exact absurd hinside hheritage

/-- **The search for inheritance finds the first keyword in preorder.** -/
theorem finds_inheritanceIn? (hrow : row.Pairwise fun p r => p.index + p.tree.size ≤ r.index) :
    table.Finds row (table.inheritanceIn? (row.map (·.tree))) :=
  finds_row hrow fun q _ => finds_inheritance? table q

end Table

/-! ## What a declaration records -/

/-- The inheritance that an entry records. -/
def Entry.inheritance? (entry : Entry) : Option Inheritance :=
  entry.properties.bind (·.inheritance)

/-- The children of a declaration without the one keyword that introduces it. -/
def Rule.withoutKeyword (rule : Rule) (places : List Place) : List Place :=
  places.eraseP fun q => rule.isKeyword q.tree.kind

theorem Properties.inheritance_nonEmpty? (p : Properties) :
    p.nonEmpty?.bind (·.inheritance) = p.inheritance := by
  rw [nonEmpty?]
  by_cases hempty : p.isEmpty = true
  · have hp : p = .empty := by simpa [isEmpty] using hempty
    rw [if_pos hempty, hp]
    rfl
  · rw [if_neg hempty]
    rfl

namespace Walker

variable {w : Walker} {p : Place} {rule : Rule} {inherited : Properties} {found : Option Entry}

/-- A declaration that returns records what its children say, and what was said before. -/
theorem exists_of_declarationAt
    (h : (w.declarationAt p.tree rule (p.children.map w.site) inherited).outcome = .ok found) :
    ∃ e, found = some e ∧ e.properties = (inherited.merge (ownProperties w.table rule
      ((rule.withoutKeyword p.children).map (·.tree)))).nonEmpty? := by
  unfold declarationAt at h
  simp only [List.eraseP_map, Function.comp_def, site_kind, List.map_map, site_tree] at h
  obtain ⟨entries, -, h⟩ := Walk.outcome_bind_eq_ok_iff.1 h
  obtain ⟨e, hmade, h⟩ := Walk.outcome_bind_eq_ok_iff.1 h
  cases h
  rw [Walk.outcome_lift] at hmade
  exact ⟨e, rfl, (Renderer.renderAs_eq_ok_iff.1 hmade).properties_eq⟩

theorem inheritance?_of_declarationAt (hinherited : inherited.inheritance = none)
    (h : (w.declarationAt p.tree rule (p.children.map w.site) inherited).outcome = .ok found) :
    ∃ e, found = some e ∧ e.inheritance? =
      w.table.inheritanceIn? ((rule.withoutKeyword p.children).map (·.tree)) := by
  obtain ⟨e, rfl, hproperties⟩ := exists_of_declarationAt h
  refine ⟨e, rfl, ?_⟩
  rw [Entry.inheritance?, hproperties, Properties.inheritance_nonEmpty?, Properties.merge,
    hinherited]
  rfl

/-- Context dispatch builds a declaration, unless its kind is noise. -/
theorem visitContext_of_declares (hrule : w.table.rule? p.tree.kind = some rule)
    (hrole : rule.role = .declaration ∨ rule.role = .nameSpace ∨ rule.role = .ambientModule)
    (hnoise : (!p.tree.missing && isNoise p.tree.kind) = false) (inherited : Properties) :
    (w.visitContext p inherited).outcome =
      (w.declarationAt p.tree rule (p.children.map w.site) inherited).outcome := by
  rw [visitContext_eq, contextAt, hnoise, hrule]
  simp only [Bool.false_eq_true, if_false, Walk.outcome_bind]
  rcases hrole with hrole | hrole | hrole
  · rw [hrole]
    rfl
  · rw [hrole]
    rfl
  · rw [hrole]
    rfl

/-- **A declaration records the first keyword of inheritance.** Where nothing was said about
inheritance before, the first keyword in preorder among the children of a declaration, without the
keyword that introduces it, and inside their heritage clauses decides: its flag is set and the other
is not. Without such a keyword no inheritance is recorded. -/
theorem inheritance_of_firstKeyword (hrule : w.table.rule? p.tree.kind = some rule)
    (hrole : rule.role = .declaration ∨ rule.role = .nameSpace ∨ rule.role = .ambientModule)
    (hinherited : inherited.inheritance = none)
    (h : (w.declarationAt p.tree rule (p.children.map w.site) inherited).outcome = .ok found) :
    ∃ e, found = some e ∧
      ((!p.tree.missing && isNoise p.tree.kind) = false →
        (w.visitContext p inherited).outcome = .ok (some e)) ∧
      (∀ inheritance, e.inheritance? = some inheritance ↔
        ∃ q, w.table.FirstKeyword (rule.withoutKeyword p.children) q ∧
          (q.tree.kind = extendsKind ∧ inheritance = ⟨true, false⟩ ∨
            q.tree.kind = implementsKind ∧ inheritance = ⟨false, true⟩)) ∧
      (e.inheritance? = none ↔
        ∀ q, w.table.ComesTo (rule.withoutKeyword p.children) q →
          isInheritanceKeyword q.tree.kind = false) := by
  obtain ⟨e, rfl, hrecorded⟩ := inheritance?_of_declarationAt hinherited h
  have hsublist : (rule.withoutKeyword p.children).Sublist p.children := List.eraseP_sublist
  have hfinds : w.table.Finds (rule.withoutKeyword p.children) e.inheritance? := by
    rw [hrecorded]
    exact Table.finds_inheritanceIn? ((Place.pairwise_row _ _).sublist hsublist)
  refine ⟨e, rfl, fun hnoise => ?_, fun inheritance => ?_, hfinds.eq_none_iff⟩
  · rw [visitContext_of_declares hrule hrole hnoise, h]
  · rw [hfinds.eq_some_iff fun c hc => hsublist.subset hc]
    apply exists_congr
    intro q
    apply and_congr_right
    intro hq
    exact Inheritance.eq_ofKeyword_iff hq.keyword inheritance

/-- `class A extends B implements C {}` -/
def extendingClass : Tree :=
  .inLine "class_declaration" 0 33 [
    .inLine "class" 0 5 [],
    .inLine "type_identifier" 6 7 [],
    .inLine "class_heritage" 8 30 [
      .inLine "extends_clause" 8 17 [
        .inLine "extends" 8 15 [],
        .inLine "identifier" 16 17 []],
      .inLine "implements_clause" 18 30 [
        .inLine "implements" 18 28 [],
        .inLine "type_identifier" 29 30 []]],
    .inLine "class_body" 31 33 []]

def forExtendingClass : Walker :=
  .ofText .typeScript "class A extends B implements C \x7b\x7d"

/-- The rule of `extendingClass`. -/
def classRule : Rule :=
  ⟨"class_declaration", .declaration, some "class", ["class"]⟩

/-- The word `extends` of `extendingClass`. -/
def extendsOfClass : Place :=
  ⟨5, .inLine "extends" 8 15 [], [.inLine "identifier" 16 17 []]⟩

/-- The word `extends` is the first keyword, in a clause inside a clause. It alone is recorded. -/
theorem inheritance_of_firstKeyword_extendingClass :
    forExtendingClass.table.FirstKeyword
        (classRule.withoutKeyword (Place.ofRoot extendingClass).children) extendsOfClass ∧
      ∃ e, (forExtendingClass.visitContext (.ofRoot extendingClass) .empty).outcome =
          .ok (some e) ∧
        e.inheritance? = some ⟨true, false⟩ := by
  have hrule : forExtendingClass.table.rule? (Place.ofRoot extendingClass).tree.kind =
      some classRule := by
    decide +kernel
  obtain ⟨found, hfound, -⟩ :
      ∃ found, (forExtendingClass.declarationAt (Place.ofRoot extendingClass).tree classRule
          ((Place.ofRoot extendingClass).children.map forExtendingClass.site) .empty).outcome =
            .ok found ∧
        found.isSome = true :=
    Walk.exists_ok_of_any (by decide +kernel)
  obtain ⟨e, rfl, hcontext, hsome, -⟩ :=
    inheritance_of_firstKeyword hrule (.inl rfl) rfl hfound
  have hfirst : forExtendingClass.table.FirstKeyword
      (classRule.withoutKeyword (Place.ofRoot extendingClass).children) extendsOfClass := by
    refine ⟨?_, rfl, fun r hr hkeyword => ?_⟩
    · -- From the children to the heritage of the class, and on to its first clause.
      refine .inside (q := ⟨3, _, _⟩) (List.mem_cons_of_mem _ List.mem_cons_self) (by decide) ?_
      refine .inside (q := ⟨4, _, _⟩) List.mem_cons_self (by decide) ?_
      exact .here List.mem_cons_self
    · obtain ⟨c, hc, hrc⟩ := hr.exists_mem_subtree
      have hall : ((classRule.withoutKeyword (Place.ofRoot extendingClass).children).all fun c =>
          c.subtree.all fun r => !isInheritanceKeyword r.tree.kind || decide (5 ≤ r.index)) =
          true := by
        decide +kernel
      have hr' := List.all_eq_true.1 (List.all_eq_true.1 hall c hc) r hrc
      rw [hkeyword] at hr'
      show 5 ≤ r.index
      simpa using hr'
  exact ⟨hfirst, e, hcontext (by decide +kernel),
    (hsome ⟨true, false⟩).2 ⟨extendsOfClass, hfirst, .inl ⟨rfl, rfl⟩⟩⟩

end Walker

end DocOutline
