import DocOutline.Proofs.Statements

/-!
# What a container shows

A container goes through its children and remembers one node at a time: the one that the latest
documentation comment has taken as its context. That is as good as remembering all of them. The
nodes between a comment and what it documents are comments, and they all document the same node
in the end, so what is forgotten is either taken again at once or already passed.

So a container shows those of its children that are no noise and that no documentation comment
among them documents (`Walker.visited_eq_filter`), each as ordinary dispatch renders it, and it
reports what these visits report (`Walker.visitChildren_eq_gather`).
-/

namespace DocOutline

theorem eq_filter_of_sublist {α : Type} {p : α → Bool} {s l : List α} (hsub : s.Sublist l)
    (hnodup : l.Nodup) (hmem : ∀ a ∈ l, p a = true ↔ a ∈ s) : s = l.filter p := by
  induction hsub with
  | slnil => rfl
  | cons a hsub ih =>
    obtain ⟨ha, hnodup⟩ := List.nodup_cons.1 hnodup
    have hpa : ¬ p a = true := fun h => ha (hsub.subset ((hmem a List.mem_cons_self).1 h))
    rw [List.filter_cons_of_neg hpa]
    exact ih hnodup fun b hb => hmem b (List.mem_cons_of_mem a hb)
  | cons_cons a hsub ih =>
    obtain ⟨ha, hnodup⟩ := List.nodup_cons.1 hnodup
    have hpa : p a = true := (hmem a List.mem_cons_self).2 List.mem_cons_self
    rw [List.filter_cons_of_pos hpa, ← ih hnodup]
    intro b hb
    rw [hmem b (List.mem_cons_of_mem a hb), List.mem_cons, or_iff_right]
    rintro rfl
    exact ha hb

namespace Walker

variable {w : Walker} {c p : Place} {places : List Place}

/-! ## Nodes that comments have taken -/

/-- A documentation comment before the node, among the places, documents it: the node is the
first sibling after the comment that is no comment. -/
def isTakenAmong (w : Walker) (places : List Place) (p : Place) : Bool :=
  places.any fun d =>
    d.index < p.index && w.isDoc d && (declaredBy d).any (·.index == p.index)

/-- The node is no noise, or it is missing, and no comment among the places has taken it. -/
def isShownAmong (w : Walker) (places : List Place) (p : Place) : Bool :=
  (p.tree.missing || !isNoise p.tree.kind) && !w.isTakenAmong places p

theorem isTakenAmong_iff (hsub : places.Sublist c.children) (hp : p ∈ c.children) :
    w.isTakenAmong places p = true ↔
      ∃ d ∈ places, w.isDoc d = true ∧ declaredBy d = some p := by
  simp only [isTakenAmong, List.any_eq_true, Bool.and_eq_true, decide_eq_true_eq,
    Option.any_eq_true, beq_iff_eq]
  constructor
  · rintro ⟨d, hd, ⟨-, hdoc⟩, q, hq, hindex⟩
    have hrow := Place.mem_row_of_mem_after (hsub.subset hd) (mem_after_of_declaredBy hq)
    exact ⟨d, hd, hdoc, Place.eq_of_index_eq hrow hp hindex ▸ hq⟩
  · rintro ⟨d, hd, hdoc, hq⟩
    exact ⟨d, hd, ⟨Place.lt_of_mem_after (mem_after_of_declaredBy hq), hdoc⟩, p, hq, rfl⟩

theorem not_noise_of_mem_visited {paired : Option Nat} (h : p ∈ w.visited paired places) :
    (!p.tree.missing && isNoise p.tree.kind) = false := by
  induction places generalizing paired with
  | nil => cases h
  | cons q rest ih =>
    rw [visited] at h
    split_ifs at h with hnoise
    · exact ih h
    · exact ih h
    · rcases List.mem_cons.1 h with rfl | h
      · simpa using hnoise
      · exact ih h

theorem mem_visited_iff (hsub : places.Sublist c.children) (hp : p ∈ places) :
    w.isShownAmong places p = true ↔ p ∈ w.visited none places := by
  have hmem : ∀ q ∈ places, q ∈ c.children := fun q hq => hsub.subset hq
  have hlt : places.Pairwise (·.index < ·.index) := (Place.pairwise_row_lt _ _).sublist hsub
  have htaken := isTakenAmong_iff (w := w) hsub (hmem p hp)
  rw [isShownAmong, Bool.and_eq_true, Bool.not_eq_true', ← Bool.not_eq_true, htaken]
  constructor
  · rintro ⟨hnoise, hfree⟩
    refine mem_visited ?_ hmem hp (fun d hd hdoc htaken => hfree ⟨d, hd, hdoc, htaken⟩) (by simp)
    cases hmissing : p.tree.missing <;> simp_all
  · intro hvisited
    refine ⟨?_, ?_⟩
    · have hnoise := not_noise_of_mem_visited hvisited
      cases hmissing : p.tree.missing <;> simp_all
    · rintro ⟨d, hd, hdoc, hdp⟩
      have hd' := mem_visited_of_isComment (w := w) (isComment_of_isDoc hdoc) hmem hd
      exact not_mem_visited_of_isDoc hdoc hdp hmem hlt hd' hvisited

/-- To remember the latest node that a comment has taken is to remember all of them. -/
theorem visited_eq_filter (hsub : places.Sublist c.children) :
    w.visited none places = places.filter (w.isShownAmong places) := by
  have hnodup : places.Nodup :=
    ((Place.pairwise_row_lt _ _).sublist hsub).imp fun h heq => by
      rw [heq] at h
      exact Nat.lt_irrefl _ h
  exact eq_filter_of_sublist (w.visited_sublist none places) hnodup fun p hp =>
    mem_visited_iff hsub hp

/-! ## What the visits give -/

/-- A container returns what ordinary dispatch makes of the nodes that it visits. -/
theorem gather_visited {paired : Option Nat} {entries : List Entry}
    (h : (w.visitSites paired (places.map w.site)).outcome = .ok entries) :
    gather (fun _ => true) (fun p => (w.visit p).outcome) (w.visited paired places) =
      .ok entries := by
  induction places generalizing paired entries with
  | nil =>
    cases h
    rfl
  | cons p places ih =>
    rw [List.map_cons, visitSites_cons] at h
    rw [visited]
    split_ifs at h ⊢
    · exact ih h
    · exact ih h
    · obtain ⟨found, hfound, h⟩ := Walk.outcome_bind_eq_ok_iff.1 h
      obtain ⟨entry, hentry, h⟩ := Walk.outcome_bind_eq_ok_iff.1 h
      obtain ⟨rest, hrest, h⟩ := Walk.outcome_bind_eq_ok_iff.1 h
      cases h
      rw [pairedAfter_eq_ok hfound] at hrest
      exact (gather_cons_eq_ok_iff rfl).2 ⟨entry, rest, hentry, ih hrest, rfl⟩

/-- A container returns the entries of the children that it shows, in order, and reports what
the visits of these children report. -/
theorem visitChildren_eq_gather (hsub : places.Sublist c.children) {entries : List Entry}
    (h : (w.visitChildren places).outcome = .ok entries) :
    gather (w.isShownAmong places) (fun p => (w.visit p).outcome) places = .ok entries ∧
      (w.visitChildren places).diagnostics =
        (places.filter (w.isShownAmong places)).flatMap fun p => (w.visit p).diagnostics := by
  have hgather := gather_visited h
  have hreports := ((w.performs_visitSites none places).2 ⟨entries, h⟩).1
  rw [visited_eq_filter hsub] at hgather hreports
  constructor
  · simpa [gather] using hgather
  · rw [visitChildren, hreports, List.flatMap_map]
    rfl

/-- `{ /** A. */ /* x */ a() {} b() {} debugger; }` -/
def documentedMethod : Tree :=
  .inLine "class_body" 0 45 [
    .inLine "\x7b" 0 1 [],
    .inLine "comment" 2 11 [],
    .inLine "comment" 12 19 [],
    .inLine "method_definition" 20 26 [],
    .inLine "method_definition" 27 33 [],
    .inLine "debugger_statement" 34 43 [],
    .inLine "\x7d" 44 45 []]

def forDocumentedMethod : Walker :=
  .ofText .javaScript "\x7b /** A. */ /* x */ a() \x7b\x7d b() \x7b\x7d debugger; \x7d"

/-- The comment and the second method are shown; the first method is the context of the comment. -/
theorem visitChildren_eq_gather_documentedMethod :
    ∃ entries places, places = (Place.ofRoot documentedMethod).children.tail ∧
      (forDocumentedMethod.visitChildren places).outcome = .ok entries ∧ entries.length = 2 ∧
      gather (forDocumentedMethod.isShownAmong places)
        (fun p => (forDocumentedMethod.visit p).outcome) places = .ok entries ∧
      (forDocumentedMethod.visitChildren places).diagnostics =
        (places.filter (forDocumentedMethod.isShownAmong places)).flatMap fun p =>
          (forDocumentedMethod.visit p).diagnostics := by
  obtain ⟨entries, h, hlength⟩ : ∃ entries, (forDocumentedMethod.visitChildren
      (Place.ofRoot documentedMethod).children.tail).outcome = .ok entries ∧
        (entries.length == 2) = true := Walk.exists_ok_of_any (by decide +kernel)
  exact ⟨entries, _, rfl, h, beq_iff_eq.1 hlength,
    visitChildren_eq_gather (List.tail_sublist _) h⟩

end Walker

end DocOutline
