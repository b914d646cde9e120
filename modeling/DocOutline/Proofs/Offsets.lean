import DocOutline.Comment.Reader
import DocOutline.Proofs.Twins

/-!
# Outlines under an offset

An offset moves every entry by the same amount. Keys are moved alike, so two declarations start at
the same point under the offset exactly if they do so without it, and pairs and declarations are
reconciled by the same plan. The content of comments plays no part in any of this, so how the
contents of two outlines compare is left open (`Entry.Moved`).

The offset can make a walk fault, because coordinates grow. It cannot prevent a fault: what a
walk adds up under an offset is never less than what it adds up without.
-/

namespace DocOutline

/-! ## Extents that are moved -/

namespace Extent

/-- Moving is one to one on the points where extents start. -/
theorem first_eq_iff_of_shifted {a b c d origin : Extent} (hab : b.shifted origin = .ok a)
    (hcd : d.shifted origin = .ok c) :
    a.location.first = c.location.first ↔ b.location.first = d.location.first := by
  obtain ⟨-, hrow, hcolumn⟩ := shifted_eq_ok_iff.1 hab
  obtain ⟨-, hrow', hcolumn'⟩ := shifted_eq_ok_iff.1 hcd
  rw [Span.shift_eq_ok_iff] at hrow hcolumn hrow' hcolumn'
  simp only [Point.eq_iff, Location.first]
  omega

/-- No coordinate of the start of the first extent is greater than that of the second. -/
structure StartsWithin (x e : Extent) : Prop where
  byte : x.position.start.toNat ≤ e.position.start.toNat
  line : x.location.first.line.toNat ≤ e.location.first.line.toNat
  col : x.location.first.col.toNat ≤ e.location.first.col.toNat

theorem startsWithin_of_shifted {x e origin : Extent} (h : x.shifted origin = .ok e) :
    x.StartsWithin e := by
  obtain ⟨hposition, hrow, hcolumn⟩ := shifted_eq_ok_iff.1 h
  have hbyte := (ByteRange.shift_eq_ok_iff.1 hposition).1
  have hline := (Span.shift_eq_ok_iff.1 hrow).1
  have hcol := (Span.shift_eq_ok_iff.1 hcolumn).1
  refine ⟨by omega, ?_, ?_⟩ <;> simp only [Location.first] <;> omega

theorem exists_placePoint {x e : Extent} (h : x.StartsWithin e) {p q : Point}
    (hp : placePoint e.location.first p = .ok q) :
    ∃ q', placePoint x.location.first p = .ok q' := by
  obtain ⟨hline, hcol⟩ := placePoint_eq_ok_iff.1 hp
  have hcol' : placedCol x.location.first.col.toNat p ≤ q.col.toNat := by
    have := h.col
    rw [hcol]
    unfold placedCol
    split_ifs <;> omega
  have hline' : x.location.first.line.toNat + p.line.toNat ≤ q.line.toNat := by
    have := h.line
    omega
  refine ⟨⟨.ofNat (x.location.first.line.toNat + p.line.toNat),
    .ofNat (placedCol x.location.first.col.toNat p)⟩, placePoint_eq_ok_iff.2 ⟨?_, ?_⟩⟩
  · exact UInt32.toNat_ofNat_of_lt (Nat.lt_of_le_of_lt hline' q.line.toNat_lt)
  · exact UInt32.toNat_ofNat_of_lt (Nat.lt_of_le_of_lt hcol' q.col.toNat_lt)

/-- What can be placed in an extent can be placed in one that starts before it. -/
theorem exists_placedIn {x e : Extent} (h : x.StartsWithin e) {own placed : Extent}
    (hplaced : own.placedIn e = .ok placed) : ∃ placed', own.placedIn x = .ok placed' := by
  obtain ⟨hposition, hfirst, hlast⟩ := placedIn_eq_ok_iff.1 hplaced
  obtain ⟨first, hfirst'⟩ := exists_placePoint h hfirst
  obtain ⟨last, hlast'⟩ := exists_placePoint h hlast
  have hfits : own.position.stop.toNat + x.position.start.toNat < UInt32.size := by
    have := h.byte
    have := (ByteRange.shift_eq_ok_iff.1 hposition).2
    have := placed.position.stop.toNat_lt
    simp only [UInt32.size]
    omega
  exact ⟨⟨_, .between first last⟩, placedIn_eq_ok_iff.2 ⟨dif_pos hfits, hfirst', hlast'⟩⟩

end Extent

theorem DocComment.exists_placedIn_of_startsWithin {x e : Extent} (h : x.StartsWithin e)
    {doc placed : DocComment} (hplaced : doc.placedIn e = .ok placed) :
    ∃ placed', doc.placedIn x = .ok placed' := by
  obtain ⟨placed', hplaced', -⟩ := exists_placedIn (P := fun _ => True) fun inner hinner => by
    obtain ⟨y, hy⟩ := exists_of_placedIn hplaced inner hinner
    obtain ⟨y', hy'⟩ := Extent.exists_placedIn h hy
    exact ⟨y', hy', trivial⟩
  exact ⟨placed', hplaced'⟩

/-! ## Entries that are moved -/

/-- How the contents of a comment at the given extent compare. -/
abbrev ContentRel : Type :=
  Extent → Option DocComment → Option DocComment → Prop

/-- The first entry is the second one moved to where `origin` starts, with all children and
contexts, and their contents are in the relation `Content`. -/
inductive Entry.Moved (Content : ContentRel) (origin : Extent) : Entry → Entry → Prop
  | intro {e e' : Entry} (kind : e.kind = e'.kind) (text : e.text = e'.text)
    (properties : e.properties = e'.properties)
    (extent : e'.extent.shifted origin = .ok e.extent)
    (children : List.Forall₂ (Entry.Moved Content origin) e.children e'.children)
    (context : Option.Rel (Entry.Moved Content origin) e.context e'.context)
    (comment : Content e'.extent e.comment e'.comment) :
    Entry.Moved Content origin e e'

/-- The first entry is the second one moved to where `origin` starts, with all children and
contexts. The contents of comments are left out of account. -/
def Entry.Shifted : Extent → Entry → Entry → Prop :=
  Entry.Moved fun _ _ _ => True

theorem Matching.moved (Content : ContentRel) (origin : Extent) :
    Matching (Entry.Moved Content origin) where
  kind h := by cases h; assumption
  properties h := by cases h; assumption
  children h := by cases h; assumption
  context h := by cases h; assumption
  key h h' := by
    obtain ⟨-, -, -, hextent, -, -, -⟩ := h
    obtain ⟨-, -, -, hextent', -, -, -⟩ := h'
    exact Extent.first_eq_iff_of_shifted hextent hextent'
  mergeProperties h more := by
    obtain ⟨hkind, htext, hproperties, hextent, hchildren, hcontext, hcomment⟩ := h
    unfold Entry.mergeProperties
    split_ifs
    · exact ⟨hkind, htext, hproperties, hextent, hchildren, hcontext, hcomment⟩
    · refine ⟨hkind, htext, ?_, hextent, hchildren, hcontext, hcomment⟩
      simp only [hproperties]
  withContext h h' := by
    obtain ⟨hkind, htext, hproperties, hextent, hchildren, -, hcomment⟩ := h
    exact ⟨hkind, htext, hproperties, hextent, hchildren, .some h', hcomment⟩

/-- A fault of the first walk is tolerated, and one of the second if the two have different
readers for comments. -/
def Tolerance.ofReaders (m₁ m₂ : Option MarkupReader) : Tolerance :=
  ⟨True, m₁ ≠ m₂⟩

theorem Agree.of_first {α β : Type} {tol : Tolerance} (hfirst : tol.first) {r : α → β → Prop}
    {fault : Fault} (y : Except Fault β) : Agree tol r (.error fault) y := by
  cases y with
  | error fault' => exact .inl hfirst
  | ok b => exact hfirst

section Renderers

variable {renderer : Renderer} {origin : Extent} {m₁ m₂ : Option MarkupReader}

theorem agree_extent (tree : Tree) :
    Agree (.ofReaders m₁ m₂) (fun e x => x.shifted origin = .ok e)
      (Renderer.extent (some origin) tree) (Renderer.extent none tree) := by
  unfold Renderer.extent
  refine .bind (.refl (fun _ => rfl) _) fun own own' _ _ heq => ?_
  subst heq
  show Agree _ _ (own.shifted origin) (.ok own)
  cases hshift : own.shifted origin with
  | error fault => exact .of_first trivial _
  | ok e => exact hshift

/-- With the same reader, what can be read in an extent can be read in one that starts before
it. -/
theorem exists_content {renderer' : Renderer} (hmarkup : renderer'.markup = renderer.markup)
    {x e : Extent} (h : x.StartsWithin e) {text : String} {content : Option DocComment}
    (hcontent : renderer.content text e = .ok content) :
    ∃ content', renderer'.content text x = .ok content' := by
  unfold Renderer.content at hcontent ⊢
  rw [hmarkup]
  cases hread : renderer.markup with
  | none => exact ⟨none, rfl⟩
  | some read =>
    rw [hread] at hcontent
    obtain ⟨doc, hdoc, hcontent⟩ := bind_eq_ok_iff.1 hcontent
    obtain ⟨placed, hplaced, -⟩ := bind_eq_ok_iff.1 hcontent
    obtain ⟨placed', hplaced'⟩ := DocComment.exists_placedIn_of_startsWithin h hplaced
    exact ⟨some placed', bind_eq_ok_iff.2 ⟨doc, hdoc, bind_eq_ok_iff.2 ⟨placed', hplaced', rfl⟩⟩⟩

theorem agree_content (text : String) {e x : Extent} (h : x.shifted origin = .ok e) :
    Agree (.ofReaders m₁ m₂) (fun _ _ => True)
      (Renderer.content { renderer with offset := some origin, markup := m₁ } text e)
      (Renderer.content { renderer with offset := none, markup := m₂ } text x) := by
  cases hfirst : Renderer.content { renderer with offset := some origin, markup := m₁ } text e with
  | error fault => exact .of_first trivial _
  | ok content =>
    cases hsecond : Renderer.content { renderer with offset := none, markup := m₂ } text x with
    | ok content' => trivial
    | error fault =>
      -- The second fault can only come from another reader.
      show m₁ ≠ m₂
      rintro rfl
      obtain ⟨content', hcontent'⟩ : ∃ content',
          Renderer.content { renderer with offset := none, markup := m₁ } text x = .ok content' :=
        exists_content rfl (Extent.startsWithin_of_shifted h) hfirst
      rw [hcontent'] at hsecond
      cases hsecond

/-- The renderers give contents in the relation `Content`, also where there is none. -/
structure AgreeOnContents (Content : ContentRel) (origin : Extent) (renderer : Renderer)
    (m₁ m₂ : Option MarkupReader) : Prop where
  absent (x : Extent) : Content x none none
  content (text : String) {e x : Extent} (h : x.shifted origin = .ok e) :
    Agree (.ofReaders m₁ m₂) (Content x)
      (Renderer.content { renderer with offset := some origin, markup := m₁ } text e)
      (Renderer.content { renderer with offset := none, markup := m₂ } text x)

theorem agree_renderAs {Content : ContentRel}
    (hcontents : AgreeOnContents Content origin renderer m₁ m₂) (tree : Tree) (kind : String)
    {payload payload' : Payload}
    (hpayload : Payload.Matches (Entry.Moved Content origin) payload payload') :
    Agree (.ofReaders m₁ m₂) (Entry.Moved Content origin)
      (Renderer.renderAs { renderer with offset := some origin, markup := m₁ } tree kind payload)
      (Renderer.renderAs { renderer with offset := none, markup := m₂ } tree kind payload') := by
  unfold Renderer.renderAs
  refine .bind (agree_extent tree) fun e x _ _ hextent => ?_
  refine .bind (.refl (fun _ => rfl) _) fun text text' _ _ heq => ?_
  subst heq
  have hnone := hcontents.absent x
  cases hpayload with
  | leaf => exact ⟨rfl, rfl, rfl, hextent, .nil, .none, hnone⟩
  | children h => exact ⟨rfl, rfl, rfl, hextent, h, .none, hnone⟩
  | declaration h properties => exact ⟨rfl, rfl, rfl, hextent, h, .none, hnone⟩
  | documented h =>
    refine .bind (hcontents.content text hextent) fun comment comment' _ _ hcomment => ?_
    exact ⟨rfl, rfl, rfl, hextent, .nil, h, hcomment⟩

end Renderers

/-! ## Walks -/

theorem Rows.refl (Plain : Place → Prop) (places : List Place) : Rows Eq Plain places places := by
  induction places with
  | nil => exact .nil
  | cons p places ih => exact .keep rfl ih

namespace Walker

/-- The walker with another offset and another reader for comments. -/
def under (w : Walker) (offset : Option Extent) (markup : Option MarkupReader) : Walker :=
  { w with renderer := { w.renderer with offset, markup } }

theorem twins_under {w : Walker} {origin : Extent} {m₁ m₂ : Option MarkupReader}
    {Content : ContentRel} (hcontents : AgreeOnContents Content origin w.renderer m₁ m₂) :
    Twins (.ofReaders m₁ m₂) (w.under (some origin) m₁) (w.under none m₂) Eq (fun _ => False)
      (Entry.Moved Content origin) where
  table := rfl
  source := rfl
  stripHeader := rfl
  info h := by rw [h]
  children h _ := by
    rw [h]
    exact .refl _ _
  after h := by
    rw [h]
    exact .refl _ _
  plain h := h.elim
  language h := h.elim
  header _ _ h := h
  topLevel _ _ _ _ h := by rw [h]
  matching := .moved Content origin
  render {p q payload payload'} h hpayload kind := by
    subst h
    exact agree_renderAs hcontents p.tree kind hpayload

theorem twins_shifted (w : Walker) (origin : Extent) (m₁ m₂ : Option MarkupReader) :
    Twins (.ofReaders m₁ m₂) (w.under (some origin) m₁) (w.under none m₂) Eq (fun _ => False)
      (Entry.Shifted origin) :=
  twins_under ⟨fun _ => trivial, agree_content⟩

/-- **An offset only moves the outline, and a reader only fills in comments.** If both walks return,
they report the same, and the outline under the offset is the other one moved. With the same reader,
the walk without offset returns whenever the one under the offset does. -/
theorem visitRoot_under_offset (w : Walker) (origin : Extent) (m₁ m₂ : Option MarkupReader)
    (root : Place) :
    (∀ entries entries', ((w.under (some origin) m₁).visitRoot root).outcome = .ok entries →
      ((w.under none m₂).visitRoot root).outcome = .ok entries' →
      ((w.under (some origin) m₁).visitRoot root).diagnostics =
          ((w.under none m₂).visitRoot root).diagnostics ∧
        List.Forall₂ (Entry.Shifted origin) entries entries') ∧
    (((w.under (some origin) m₁).visitRoot root).Returns →
      ((w.under none m₁).visitRoot root).Returns) := by
  constructor
  · intro entries entries' h h'
    have halike := (twins_shifted w origin m₁ m₂).visitRoot (p := root) rfl
    have houtcome := halike.outcome
    rw [h, h'] at houtcome
    exact ⟨halike.diagnostics (.inl ⟨⟨entries, h⟩, ⟨entries', h'⟩⟩), houtcome⟩
  · rintro ⟨entries, h⟩
    have houtcome := ((twins_shifted w origin m₁ m₁).visitRoot (p := root) rfl).outcome
    rw [h] at houtcome
    cases h' : ((w.under none m₁).visitRoot root).outcome with
    | ok entries' => exact ⟨entries', h'⟩
    | error fault =>
      rw [h'] at houtcome
      exact absurd rfl houtcome

/-- `/** A. @b c */ class D {}` -/
def documentedClass : Tree :=
  .inLine "program" 0 25 [
    .inLine "comment" 0 14 [],
    .inLine "class_declaration" 15 25 [
      .inLine "class" 15 20 [],
      .inLine "identifier" 21 22 [],
      .inLine "class_body" 23 25 []]]

def forDocumentedClass : Walker :=
  .ofText .javaScript "/** A. @b c */ class D {}"

/-- Further on in a larger text. -/
def furtherOn : Extent :=
  ⟨⟨100, 125, by decide⟩, ⟨⟨3, 3⟩, ⟨4, 29⟩⟩⟩

/-- The class and its comment are moved, whether or not the comment is read. -/
theorem visitRoot_under_offset_documentedClass :
    ∃ entries entries',
      ((forDocumentedClass.under (some furtherOn) (some Comment.read)).visitRoot
        (.ofRoot documentedClass)).outcome = .ok entries ∧
      ((forDocumentedClass.under none none).visitRoot (.ofRoot documentedClass)).outcome =
        .ok entries' ∧
      entries.length = 1 ∧ List.Forall₂ (Entry.Shifted furtherOn) entries entries' ∧
      ((forDocumentedClass.under none (some Comment.read)).visitRoot
        (.ofRoot documentedClass)).Returns := by
  obtain ⟨entries, hentries, hlength⟩ : ∃ entries,
      ((forDocumentedClass.under (some furtherOn) (some Comment.read)).visitRoot
        (.ofRoot documentedClass)).outcome = .ok entries ∧ (entries.length == 1) = true :=
    Walk.exists_ok_of_any (by decide +kernel)
  obtain ⟨entries', hentries', -⟩ : ∃ entries',
      ((forDocumentedClass.under none none).visitRoot (.ofRoot documentedClass)).outcome =
        .ok entries' ∧ (entries'.length == 1) = true :=
    Walk.exists_ok_of_any (by decide +kernel)
  obtain ⟨hmoved, hreturns⟩ := visitRoot_under_offset forDocumentedClass furtherOn
    (some Comment.read) none (.ofRoot documentedClass)
  exact ⟨entries, entries', hentries, hentries', beq_iff_eq.1 hlength,
    (hmoved entries entries' hentries hentries').2, hreturns ⟨entries, hentries⟩⟩

end Walker

end DocOutline
