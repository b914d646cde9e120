import DocOutline.Proofs.Twins

/-!
# Sealed nodes

Errors, comments and tokens are taken as a whole, and so are nodes of unknown kinds: a walk renders
or reports them, and never looks at what lies below. The one exception are heritage clauses, which
are searched for keywords even where the table does not know their kind.

Besides ordinary dispatch a walk looks at children when it passes through a statement, when it
strips the keyword of a declaration, when it looks for inheritance, and when it asks what stands
at the top level. All of these start from a rule or from a heritage clause, and the tables of the
languages give no rule to a sealed kind other than the one of comments. So two trees that differ
below sealed nodes only have the same outline and the same reports
(`Walker.visitRoot_eq_of_sameAbove`).
-/

namespace DocOutline

/-! ## Kinds that seal -/

/-- A node of this kind is an error, a comment, a token, or of an unknown kind that is no heritage
clause. -/
def Table.isSealed (table : Table) (kind : String) : Bool :=
  match table.bucket? kind with
  | some .error | some .comment | some .terminal => true
  | some .root | some .nonTerminal => false
  | none => !table.isHeritage kind

/-- No walk looks below a sealed node. -/
theorem Language.looksInto_of_isSealed (language : Language) {kind : String}
    (h : language.table.isSealed kind = true) : language.table.looksInto kind = false := by
  have hbucket : language.table.bucket? kind ≠ some .root ∧
      language.table.bucket? kind ≠ some .nonTerminal := by
    constructor <;> intro hbucket <;> simp [Table.isSealed, hbucket] at h
  have hdeclaration : language.table.isDeclaration kind = false := by
    rw [Table.isDeclaration]
    cases hrule : language.table.rule? kind with
    | none => rfl
    | some rule =>
      by_contra hrole
      exact hbucket.2 (language.bucket?_of_rule hrule (by simpa using hrole))
  have hheritage : language.table.isHeritage kind = false := by
    by_contra hheritage
    rw [Bool.not_eq_false] at hheritage
    rcases language.bucket?_of_isHeritage hheritage with hnone | hnode
    · simp [Table.isSealed, hnone, hheritage] at h
    · exact hbucket.2 hnode
  simp [Table.looksInto, hbucket, hdeclaration, hheritage]

/-- What stands at the top level is decided by the kind of a node, and by those of its children if a
walk looks at them. -/
theorem Table.isTopLevel_eq {table : Table} {tree tree' : Tree} (hkind : tree.kind = tree'.kind)
    (hchildren : table.looksInto tree.kind = true →
      tree.children.map Tree.kind = tree'.children.map Tree.kind) :
    table.isTopLevel tree = table.isTopLevel tree' := by
  unfold isTopLevel
  rw [← hkind]
  cases hrule : table.rule? tree.kind with
  | none => rfl
  | some rule =>
    by_cases hrole : rule.role = .wrapper
    · have hlooks : table.looksInto tree.kind = true := by
        simp [looksInto, isDeclaration, hrule, hrole]
      have hfirst := congrArg (fun kinds => (List.find? (fun kind => !isNoise kind &&
        !rule.isKeyword kind) kinds).any table.isNameSpace) (hchildren hlooks)
      simp only [List.find?_map, Option.any_map] at hfirst
      exact congrArg (fun first => _ || (rule.role == .wrapper && first)) hfirst
    · simp only [beq_eq_false_iff_ne.2 hrole, Bool.false_and]

/-! ## Trees that differ below sealed nodes -/

namespace Tree

/-- The trees are the same, except for what lies below sealed nodes. -/
inductive SameAbove (table : Table) : Tree → Tree → Prop
  | sealed {info : NodeInfo} (h : table.isSealed info.kind = true)
    (children children' : List Tree) :
    SameAbove table (.node info children) (.node info children')
  | node (info : NodeInfo) {children children' : List Tree}
    (h : List.Forall₂ (SameAbove table) children children') :
    SameAbove table (.node info children) (.node info children')

theorem SameAbove.info_eq {table : Table} {tree tree' : Tree} (h : SameAbove table tree tree') :
    tree.info = tree'.info := by
  cases h <;> rfl

/-- What a walk looks at below two such nodes corresponds. -/
theorem SameAbove.children {language : Language} {tree tree' : Tree}
    (h : SameAbove language.table tree tree')
    (hlooks : language.table.looksInto tree.kind = true) :
    List.Forall₂ (SameAbove language.table) tree.children tree'.children := by
  cases h with
  | @sealed info hsealed _ _ =>
    have hnot : language.table.looksInto info.kind = false := language.looksInto_of_isSealed hsealed
    have hlooks : language.table.looksInto info.kind = true := hlooks
    rw [hnot] at hlooks
    cases hlooks
  | node info h => exact h

end Tree

namespace Walker

/-- The places have the same nodes there and after them, except for what lies below sealed nodes. -/
structure SameFrom (table : Table) (p q : Place) : Prop where
  tree : p.tree.SameAbove table q.tree
  later : List.Forall₂ (Tree.SameAbove table) p.later q.later

theorem rows_of_sameAbove {table : Table} {trees trees' : List Tree}
    (h : List.Forall₂ (Tree.SameAbove table) trees trees') (i j : Nat) :
    Rows (SameFrom table) (fun _ => False) (Place.row i trees) (Place.row j trees') := by
  induction h generalizing i j with
  | nil => exact .nil
  | cons htree hlater ih => exact .keep ⟨htree, hlater⟩ (ih _ _)

theorem twins_of_sameAbove {w : Walker} {language : Language} (hw : w.table = language.table) :
    Twins .strict w w (SameFrom w.table) (fun _ => False) Eq where
  table := rfl
  source := rfl
  stripHeader := rfl
  info h := h.tree.info_eq
  children h hlooks := by
    rw [hw] at h hlooks ⊢
    exact rows_of_sameAbove (h.tree.children hlooks) _ _
  after h := rows_of_sameAbove h.later _ _
  plain h := h.elim
  language h := h.elim
  header _ _ h := h
  topLevel _ _ _ _ h := by
    refine Table.isTopLevel_eq (congrArg NodeInfo.kind h.tree.info_eq) fun hlooks => ?_
    rw [hw] at h hlooks
    exact map_eq_of_forall₂ (h.tree.children hlooks) fun t t' ht =>
      congrArg NodeInfo.kind ht.info_eq
  matching := .eq
  render {p q payload payload'} hpq hpayload kind := by
    rw [hpayload.eq, Renderer.renderAs_eq hpq.tree.info_eq]
    exact .refl (fun _ => rfl) _

/-- **What lies below a sealed node is never seen**: two trees that differ there only have the same
outline, or the same fault, and the same reports. -/
theorem visitRoot_eq_of_sameAbove {w : Walker} {language : Language}
    (hw : w.table = language.table) {tree tree' : Tree} (h : tree.SameAbove w.table tree') :
    (w.visitRoot (.ofRoot tree)).outcome = (w.visitRoot (.ofRoot tree')).outcome ∧
      (w.visitRoot (.ofRoot tree)).diagnostics = (w.visitRoot (.ofRoot tree')).diagnostics := by
  have hroot : SameFrom w.table (.ofRoot tree) (.ofRoot tree') := ⟨h, .nil⟩
  have halike := (twins_of_sameAbove hw).visitRoot hroot
  rw [List.forall₂_eq_eq_eq] at halike
  exact halike.eq_of_strict

/-- `/** A. */ export default "s" debugger; #`, with the same trees below a comment, a token, an
unknown node and an error -/
def sealedNodes (below : List Tree) : Tree :=
  .inLine "program" 0 40 [
    .inLine "comment" 0 9 below,
    .inLine "export_statement" 10 38 [
      .inLine "export" 10 16 [],
      .inLine "default" 17 24 [],
      .inLine "string" 25 28 below,
      .inLine "debugger_statement" 29 38 below],
    .inLine "ERROR" 39 40 below]

def forSealedNodes : Walker :=
  .ofText .javaScript "/** A. */ export default \"s\" debugger; #"

theorem sameAbove_sealedNodes (below below' : List Tree) :
    (sealedNodes below).SameAbove forSealedNodes.table (sealedNodes below') := by
  have hplain : ∀ {kind start stop}, Tree.SameAbove forSealedNodes.table
      (.inLine kind start stop []) (.inLine kind start stop []) := .node _ .nil
  have hexport : List.Forall₂ (Tree.SameAbove forSealedNodes.table)
      [.inLine "export" 10 16 [], .inLine "default" 17 24 [], .inLine "string" 25 28 below,
        .inLine "debugger_statement" 29 38 below]
      [.inLine "export" 10 16 [], .inLine "default" 17 24 [], .inLine "string" 25 28 below',
        .inLine "debugger_statement" 29 38 below'] :=
    .cons hplain (.cons hplain (.cons (.sealed (by decide +kernel) _ _)
      (.cons (.sealed (by decide +kernel) _ _) .nil)))
  exact .node _ (.cons (.sealed (by decide +kernel) _ _) (.cons (.node _ hexport)
    (.cons (.sealed (by decide +kernel) _ _) .nil)))

/-- An error below each of the sealed nodes changes nothing. -/
theorem visitRoot_eq_of_sameAbove_sealedNodes :
    ∃ entries, (forSealedNodes.visitRoot (.ofRoot (sealedNodes []))).outcome = .ok entries ∧
      entries.length = 1 ∧
      (forSealedNodes.visitRoot (.ofRoot (sealedNodes []))).diagnostics.length = 2 ∧
      (forSealedNodes.visitRoot (.ofRoot (sealedNodes [.inLine "ERROR" 3 4 []]))).outcome =
        .ok entries ∧
      (forSealedNodes.visitRoot (.ofRoot (sealedNodes []))).diagnostics =
        (forSealedNodes.visitRoot
          (.ofRoot (sealedNodes [.inLine "ERROR" 3 4 []]))).diagnostics := by
  have htable : forSealedNodes.table = Language.javaScript.table := rfl
  obtain ⟨entries, hentries, hlength⟩ : ∃ entries,
      (forSealedNodes.visitRoot (.ofRoot (sealedNodes []))).outcome = .ok entries ∧
        (entries.length == 1) = true := Walk.exists_ok_of_any (by decide +kernel)
  obtain ⟨houtcome, hdiagnostics⟩ := visitRoot_eq_of_sameAbove htable
    (sameAbove_sealedNodes [] [.inLine "ERROR" 3 4 []])
  exact ⟨entries, hentries, beq_iff_eq.1 hlength, by decide +kernel, houtcome ▸ hentries,
    hdiagnostics⟩

end Walker

end DocOutline
