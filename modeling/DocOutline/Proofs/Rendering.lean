import DocOutline.Proofs.Dispatch
import DocOutline.Proofs.Extents

/-!
# Where entries come from

Every entry that a walk returns is made out of one node. Ordinary dispatch and a documentation
comment make the entry of the node itself; context dispatch passes through exporting and
wrapping statements, so it makes the entry of some node in the subtree. An offset moves all
entries alike, hence two entries with the same key come from nodes that start at the same point
(`Walker.Renders.start_eq`).
-/

namespace DocOutline

/-! ## Extents under an offset -/

namespace Renderer

/-- The extent of a node begins at the start of the node, or there moved by the offset. -/
theorem extent_eq_ok {offset : Option Extent} {tree : Tree} {e : Extent}
    (h : extent offset tree = .ok e) :
    match offset with
    | none => e.location.first = tree.info.startPoint
    | some origin =>
      e.location.row.start.toNat =
          origin.location.row.start.toNat + tree.info.startPoint.line.toNat ∧
        e.location.column.start.toNat =
          origin.location.column.start.toNat + tree.info.startPoint.col.toNat := by
  obtain ⟨own, hown, h⟩ := bind_eq_ok_iff.1 h
  obtain ⟨position, -, hown⟩ := bind_eq_ok_iff.1 hown
  cases hown
  cases offset with
  | none =>
    cases h
    rfl
  | some origin =>
    obtain ⟨-, hrow, hcolumn⟩ := Extent.shifted_eq_ok_iff.1 h
    exact ⟨(Span.shift_eq_ok_iff.1 hrow).1, (Span.shift_eq_ok_iff.1 hcolumn).1⟩

theorem start_eq_of_extent_eq {offset : Option Extent} {tree tree' : Tree} {e e' : Extent}
    (h : extent offset tree = .ok e) (h' : extent offset tree' = .ok e')
    (hfirst : e.location.first = e'.location.first) :
    tree.info.startPoint = tree'.info.startPoint := by
  have hs := extent_eq_ok h
  have hs' := extent_eq_ok h'
  cases offset with
  | none => rw [← hs, ← hs', hfirst]
  | some origin =>
    rw [Point.eq_iff] at hfirst ⊢
    simp only [Location.first] at hfirst hs hs'
    omega

end Renderer

/-! ## Entries of one node -/

namespace Payload

/-- The children that an entry gets from its payload. -/
def entries : Payload → List Entry
  | .children items => items
  | .declaration items _ => items
  | .leaf | .properties _ | .documented _ => []

/-- The context that an entry gets from its payload. -/
def context : Payload → Option Entry
  | .documented context => context
  | _ => none

/-- The properties that an entry gets from its payload. -/
def shownProperties : Payload → Option Properties
  | .properties p | .declaration _ p => p.nonEmpty?
  | .leaf | .children _ | .documented _ => none

/-- The content that an entry gets from its payload, its text and its place. -/
def content (payload : Payload) (renderer : Renderer) (text : String) (origin : Extent) :
    Except Fault (Option DocComment) :=
  match payload with
  | .documented _ => renderer.content text origin
  | _ => .ok none

end Payload

namespace Renderer

/-- The entry has kind, place and text of the node, and all else from the payload. -/
structure RendersAs (renderer : Renderer) (tree : Tree) (kind : String) (payload : Payload)
    (e : Entry) : Prop where
  kind_eq : e.kind = kind
  extent_eq : Renderer.extent renderer.offset tree = .ok e.extent
  text_eq : tree.text renderer.source = .ok e.text
  children_eq : e.children = payload.entries
  context_eq : e.context = payload.context
  properties_eq : e.properties = payload.shownProperties
  content_eq : payload.content renderer e.text e.extent = .ok e.comment

/-- What is made out of a node is determined, field by field, by the node and the payload. -/
theorem renderAs_eq_ok_iff {renderer : Renderer} {tree : Tree} {kind : String}
    {payload : Payload} {e : Entry} :
    renderer.renderAs tree kind payload = .ok e ↔ renderer.RendersAs tree kind payload e := by
  constructor
  · intro h
    obtain ⟨extent, hextent, h⟩ := bind_eq_ok_iff.1 h
    obtain ⟨text, htext, h⟩ := bind_eq_ok_iff.1 h
    cases payload with
    | documented context =>
      obtain ⟨comment, hcomment, h⟩ := bind_eq_ok_iff.1 h
      cases h
      exact ⟨rfl, hextent, htext, rfl, rfl, rfl, hcomment⟩
    | _ =>
      cases h
      exact ⟨rfl, hextent, htext, rfl, rfl, rfl, rfl⟩
  · obtain ⟨kind', text, position, location, children, context, properties, comment⟩ := e
    rintro ⟨rfl, hextent, htext, rfl, rfl, rfl, hcomment⟩
    refine bind_eq_ok_iff.2 ⟨_, hextent, bind_eq_ok_iff.2 ⟨_, htext, ?_⟩⟩
    cases payload with
    | documented context => exact bind_eq_ok_iff.2 ⟨_, hcomment, rfl⟩
    | _ =>
      cases hcomment
      rfl

end Renderer

namespace Walker

/-- The entry is made out of the node. -/
def Renders (w : Walker) (tree : Tree) (e : Entry) : Prop :=
  ∃ kind payload, w.renderer.renderAs tree kind payload = .ok e

/-- Entries with the same key come from nodes that start at the same point. -/
theorem Renders.start_eq {w : Walker} {tree tree' : Tree} {e e' : Entry}
    (h : w.Renders tree e) (h' : w.Renders tree' e') (hkey : e.key = e'.key) :
    tree.info.startPoint = tree'.info.startPoint := by
  obtain ⟨kind, payload, h⟩ := h
  obtain ⟨kind', payload', h'⟩ := h'
  exact Renderer.start_eq_of_extent_eq (Renderer.renderAs_eq_ok_iff.1 h).extent_eq
    (Renderer.renderAs_eq_ok_iff.1 h').extent_eq hkey

theorem make_eq_ok {w : Walker} {tree : Tree} {payload : Payload} {e : Entry}
    (h : (w.make tree payload).outcome = .ok (some e)) :
    w.Renders tree e ∧ e.context = payload.context := by
  obtain ⟨entry, hentry, h⟩ := Walk.outcome_bind_eq_ok_iff.1 h
  cases h
  exact ⟨⟨tree.kind, payload, hentry⟩, (Renderer.renderAs_eq_ok_iff.1 hentry).context_eq⟩

/-! ## Documentation comments -/

/-- The entry of a documentation comment has as context what context dispatch makes of the
sibling that the comment documents. -/
theorem visitComment_eq_some {w : Walker} {p : Place} {e : Entry}
    (h : (w.visitComment p).outcome = .ok (some e)) :
    w.isDoc p = true ∧ w.Renders p.tree e ∧
      ∀ x, e.context = some x →
        ∃ q, w.documentedBy p = some q ∧ (w.visitContext q .empty).outcome = .ok (some x) := by
  rcases visitComment_cases h with ⟨-, hnone⟩ | ⟨hdoc, context, hcontext, hmade⟩
  · cases hnone
  · obtain ⟨hrenders, hshown⟩ := make_eq_ok hmade
    refine ⟨hdoc, hrenders, fun x hx => ?_⟩
    rw [hshown, Payload.context] at hx
    exact exists_of_documentedContext (hx ▸ hcontext)

/-! ## Ordinary dispatch -/

/-- Ordinary dispatch makes the entry of the node itself. Only a documentation comment has a
context. -/
theorem visit_eq_some {w : Walker} {p : Place} {e : Entry}
    (h : (w.visit p).outcome = .ok (some e)) :
    w.Renders p.tree e ∧ (e.context = none ∨ (w.visitComment p).outcome = .ok (some e)) := by
  rw [visit_eq] at h
  unfold visitAt at h
  split at h
  · obtain ⟨-, -, h⟩ := Walk.outcome_bind_eq_ok_iff.1 h
    cases h
  · obtain ⟨-, -, h⟩ := Walk.outcome_bind_eq_ok_iff.1 h
    split at h
    · obtain ⟨entries, -, h⟩ := Walk.outcome_bind_eq_ok_iff.1 h
      exact ⟨(make_eq_ok h).1, .inl (make_eq_ok h).2⟩
    · exact ⟨(visitComment_eq_some h).2.1, .inr h⟩
    · obtain ⟨-, -, h⟩ := Walk.outcome_bind_eq_ok_iff.1 h
      cases h
    · obtain ⟨entries, -, h⟩ := Walk.outcome_bind_eq_ok_iff.1 h
      exact ⟨(make_eq_ok h).1, .inl (make_eq_ok h).2⟩
    · exact ⟨(make_eq_ok h).1, .inl (make_eq_ok h).2⟩
    · obtain ⟨-, -, h⟩ := Walk.outcome_bind_eq_ok_iff.1 h
      cases h

/-! ## Context dispatch -/

/-- Context dispatch makes the entry of a node in the subtree. Only a documentation comment has
a context. -/
theorem visitContext_eq_some {w : Walker} (p : Place) :
    ∀ {inherited : Properties} {e : Entry},
      (w.visitContext p inherited).outcome = .ok (some e) →
      ∃ n ∈ p.subtree, w.Renders n.tree e ∧
        (e.context = none ∨ (w.visitComment n).outcome = .ok (some e)) := by
  induction p using Place.induction with
  | step p children _ =>
    intro inherited e h
    have hself : ∀ {e}, (w.visit p).outcome = .ok (some e) →
        ∃ n ∈ p.subtree, w.Renders n.tree e ∧
          (e.context = none ∨ (w.visitComment n).outcome = .ok (some e)) :=
      fun h => ⟨p, p.mem_subtree_self, visit_eq_some h⟩
    -- A child found inside a statement is a place below it.
    have hinner : ∀ {found : Site → Bool} {inner : Site} {inherited : Properties},
        (p.children.map w.site).find? found = some inner →
        (inner.context inherited).outcome = .ok (some e) →
        ∃ n ∈ p.subtree, w.Renders n.tree e ∧
          (e.context = none ∨ (w.visitComment n).outcome = .ok (some e)) := by
      intro found inner inherited hfound hcontext
      obtain ⟨q, hq, rfl⟩ := List.mem_map.1 (List.mem_of_find?_eq_some hfound)
      rw [site_context] at hcontext
      obtain ⟨n, hn, hrenders⟩ := children q hq hcontext
      exact ⟨n, Place.mem_subtree_of_child hq hn, hrenders⟩
    rw [visitContext_eq] at h
    unfold contextAt at h
    split at h
    · cases h
    · split at h
      · exact hself h
      · obtain ⟨-, -, h⟩ := Walk.outcome_bind_eq_ok_iff.1 h
        split at h
        · exact ⟨p, p.mem_subtree_self, (visitComment_eq_some h).2.1, .inr h⟩
        · unfold exporterAt at h
          split at h
          · exact hinner ‹_› h
          · obtain ⟨entries, -, h⟩ := Walk.outcome_bind_eq_ok_iff.1 h
            exact ⟨p, p.mem_subtree_self, (make_eq_ok h).1, .inl (make_eq_ok h).2⟩
        · unfold wrapperAt at h
          dsimp only at h
          split at h
          · exact hinner ‹_› h
          · exact hself h
        all_goals
          obtain ⟨entries, -, h⟩ := Walk.outcome_bind_eq_ok_iff.1 h
          obtain ⟨entry, hentry, h⟩ := Walk.outcome_bind_eq_ok_iff.1 h
          rw [Walk.outcome_lift] at hentry
          cases h
          exact ⟨p, p.mem_subtree_self, ⟨_, _, hentry⟩,
            .inl (Renderer.renderAs_eq_ok_iff.1 hentry).context_eq⟩

end Walker

end DocOutline
