import DocOutline.Proofs.Provenance
import DocOutline.Proofs.Tables

/-!
# Where the entries of an outline come from

Without an offset every entry of an outline, however deep, is the likeness of one node of the tree:
it has the text and the place of the node, and the kind of the node or the name that a rule gives to
it (`Walker.Portrays`). With the tables of the languages this node is never an error, noise or a
node of an unknown kind. Context dispatch goes by the rules and does not ask for the bucket, so
this is a fact about the tables: every kind that has a rule has a bucket too.

Main result: `Walker.portrayed_of_visitRoot`.
-/

namespace DocOutline.Walker

variable {w : Walker} {language : Language}

/-- The entry shows the node: its text, its place, and its kind up to a renaming. The node is of a
kind that can be shown. -/
structure Portrays (w : Walker) (n : Place) (m : Entry) : Prop where
  text : n.tree.text w.source = .ok m.text
  extent : n.tree.extent = .ok m.extent
  kind : m.kind = n.tree.kind ∨
    ∃ rule, w.table.rule? n.tree.kind = some rule ∧ rule.rename = some m.kind
  bucket : w.table.bucket? n.tree.kind ∈
    [some .root, some .comment, some .nonTerminal, some .terminal]
  noise : isNoise n.tree.kind = false

/-- A rule gives an entry the kind of its node, or its new name. -/
theorem entryKind_of_rule {table : Table} {kind : String} {rule : Rule}
    (h : table.rule? kind = some rule) :
    rule.entryKind = kind ∨ rule.rename = some rule.entryKind := by
  have hkind := (Table.rule?_eq_some h).2
  unfold Rule.entryKind
  cases rule.rename with
  | none => exact .inl hkind
  | some name => exact .inr rfl

theorem kind_of_makes {n : Place} {kind : String} (h : w.Makes n kind) :
    kind = n.tree.kind ∨
      ∃ rule, w.table.rule? n.tree.kind = some rule ∧ rule.rename = some kind := by
  cases h with
  | ordinary => exact .inl rfl
  | comment => exact .inl rfl
  | exporter => exact .inl rfl
  | declaration hrule _ =>
    exact (entryKind_of_rule hrule).imp id fun hrename => ⟨_, hrule, hrename⟩

/-- Entries are made of nodes that have a bucket, and not that of errors. -/
theorem bucket_of_makes (hw : w.table = language.table) {n : Place} {kind : String}
    (h : w.Makes n kind) : w.table.bucket? n.tree.kind ∈
      [some .root, some .comment, some .nonTerminal, some .terminal] := by
  have hrule : ∀ {rule : Rule}, w.table.rule? n.tree.kind = some rule → rule.role ≠ .comment →
      w.table.bucket? n.tree.kind = some .nonTerminal := by
    rw [hw]
    exact language.bucket?_of_rule
  cases h with
  | @ordinary bucket _ hbucket hcomment herror =>
    rw [hbucket]
    cases bucket <;> simp_all
  | comment hdoc =>
    rw [w.table.bucket?_of_isComment (isComment_of_isDoc hdoc)]
    decide
  | exporter hfound hrole _ =>
    rw [hrule hfound (by simp [hrole])]
    decide
  | declaration hfound hrole =>
    rw [hrule hfound (by rintro heq; simp [heq] at hrole)]
    decide

theorem Depicts.portrays (hw : w.table = language.table) (hoffset : w.renderer.offset = none)
    {n : Place} {m : Entry} (h : w.Depicts n m) : w.Portrays n m := by
  have hbucket := bucket_of_makes hw h.made
  have hextent := h.extent
  rw [hoffset] at hextent
  obtain ⟨own, hown, heq⟩ := bind_eq_ok_iff.1 hextent
  cases heq
  refine ⟨h.text, hown, kind_of_makes h.made, hbucket, ?_⟩
  cases hfound : w.table.bucket? n.tree.kind with
  | none => simp [hfound] at hbucket
  | some bucket => exact language.isNoise_of_bucket (hw ▸ hfound)

/-- **Every entry of an outline portrays a node of the tree.** Its children portray children of that
node, in the order in which they stand there; only a program is free in this. Its context, which
only a documentation comment has, portrays a node at or below a later sibling. -/
theorem portrayed_of_visitRoot (hw : w.table = language.table) (hoffset : w.renderer.offset = none)
    {tree : Tree} {entries : List Entry} (h : (w.visitRoot (.ofRoot tree)).outcome = .ok entries)
    {m : Entry} (hm : m ∈ Entry.preorderList entries) :
    ∃ n ∈ Place.preorder tree, w.Portrays n m ∧
      (w.table.bucket? n.tree.kind ≠ some .root →
        ∃ cs, cs.Sublist n.children ∧ cs.Pairwise (·.index < ·.index) ∧
          List.Forall₂ w.Portrays cs m.children) ∧
      ∀ x, m.context = some x →
        w.isDoc n = true ∧ ∃ q ∈ n.after, ∃ r ∈ q.subtree, w.Portrays r x := by
  obtain ⟨n, hn, hdepicts, hchildren, hcontext⟩ := grown_of_visitRoot h hm
  rw [← Place.preorder_eq_subtree] at hn
  refine ⟨n, hn, hdepicts.portrays hw hoffset, fun hroot => ?_, fun x hx => ?_⟩
  · obtain ⟨cs, hsub, hcs⟩ := hchildren hroot
    refine ⟨cs, hsub, (Place.pairwise_row_lt _ _).sublist hsub, ?_⟩
    exact hcs.imp fun c e hce => hce.portrays hw hoffset
  · obtain ⟨hdoc, q, hq, r, hr, hx⟩ := hcontext x hx
    exact ⟨hdoc, q, hq, r, hr, hx.portrays hw hoffset⟩

/-- `/** A. */ export class B { c = 1; }` -/
def exportedClass : Tree :=
  .inLine "program" 0 35 [
    .inLine "comment" 0 9 [],
    .inLine "export_statement" 10 35 [
      .inLine "export" 10 16 [],
      .inLine "class_declaration" 17 35 [
        .inLine "class" 17 22 [],
        .inLine "identifier" 23 24 [],
        .inLine "class_body" 25 35 [
          .inLine "field_definition" 27 32 [
            .inLine "property_identifier" 27 28 [],
            .inLine "number" 31 32 []]]]]]

def forExportedClass : Walker :=
  .ofText .javaScript "/** A. */ export class B { c = 1; }"

/-- The class, which loses its keyword and is renamed, is found below the export statement. -/
theorem portrayed_of_visitRoot_exportedClass :
    ∃ entries m x, (forExportedClass.visitRoot (.ofRoot exportedClass)).outcome = .ok entries ∧
      m ∈ Entry.preorderList entries ∧ m.context = some x ∧ x.kind = "class" ∧
      x.children.length = 2 ∧
      ∃ n ∈ Place.preorder exportedClass, forExportedClass.Portrays n m ∧
        ∃ q ∈ n.after, ∃ r ∈ q.subtree, forExportedClass.Portrays r x := by
  have htable : forExportedClass.table = Language.javaScript.table := rfl
  obtain ⟨entries, hentries, hfound⟩ : ∃ entries,
      (forExportedClass.visitRoot (.ofRoot exportedClass)).outcome = .ok entries ∧
        ((Entry.preorderList entries).any fun m => m.context.any fun x =>
          x.kind == "class" && x.children.length == 2) = true :=
    Walk.exists_ok_of_any (by decide +kernel)
  obtain ⟨m, hm, hcontext⟩ := List.any_eq_true.1 hfound
  obtain ⟨x, hx, hclass⟩ := (Option.any_eq_true _ _).1 hcontext
  rw [Bool.and_eq_true, beq_iff_eq, beq_iff_eq] at hclass
  obtain ⟨n, hn, hself, -, hbelow⟩ := portrayed_of_visitRoot htable rfl hentries hm
  exact ⟨entries, m, x, hentries, hm, hx, hclass.1, hclass.2, n, hn, hself, (hbelow x hx).2⟩

end DocOutline.Walker
