import DocOutline.Entry.Decoding
import DocOutline.Outline.Basic
import DocOutline.Proofs.PrintedJson
import Mathlib.Data.List.Nodup

/-!
# Entries survive JSON

An entry that is written as JSON, compact or indented, and read again is the same entry, as long as
its JSON is not nested deeper than JSON is read; otherwise nothing is read (`Entry.read?_written`).

Texts are dealt with elsewhere, so what remains is that decoding undoes encoding. A record is
written as an object whose members have different names, and such an object is taken as it is
(`Json.record?_of_nodup`); its fields are then found by their names. A field that is left out has
a default to which it decodes, and that is the value for which it was left out. For entries the
induction is on children and context (`Entry.induction`).
-/

namespace DocOutline

/-! ## Records -/

namespace Json

variable {α : Type} {encode : α → Json} {decode : Json → Option α}
  {members : List (String × Json)} {name : String}

/-- An object whose members have different names is taken as it is. -/
theorem record?_of_nodup (firm loose : List String) (h : (members.map (·.1)).Nodup) :
    record? firm loose (.obj members) = some members := by
  have hcount : ∀ name : String, (members.filter (·.1 == name)).length ≤ 1 := by
    intro name
    have hle := List.nodup_iff_count_le_one.1 h name
    rwa [List.count, List.countP_map, List.countP_eq_length_filter] at hle
  simp [record?, hcount]

/-- What is left out where there is nothing, and is never written as `null`, reads back. -/
theorem want?_of_lookup {a : Option α} (h : ∀ b ∈ a, decode (encode b) = some b)
    (hnull : ∀ b, encode b ≠ .null) (hname : members.lookup name = a.map encode) :
    want? members name decode = some a := by
  rw [want?, hname]
  cases a with
  | none => rfl
  | some b =>
    have := hnull b
    simp [h b rfl]

theorem list?_map {as : List α} (h : ∀ a ∈ as, decode (encode a) = some a) :
    list? decode (.arr (as.map encode)) = some as := by
  rw [list?]
  induction as with
  | nil => rfl
  | cons a as ih =>
    have hrest := ih fun b hb => h b (List.mem_cons_of_mem a hb)
    simp [List.mapM_cons, h a List.mem_cons_self, hrest]

@[simp] theorem need?_cons_self (value : Json) :
    need? ((name, value) :: members) name decode = decode value := by
  simp [need?]

@[simp] theorem need?_cons_of_ne {key : String} (h : name ≠ key) (value : Json) :
    need? ((key, value) :: members) name decode = need? members name decode := by
  simp [need?, List.lookup_cons, beq_eq_false_iff_ne.2 h]

/-- A text that is written as `null` where there is none reads back as itself. -/
@[simp] theorem want?_cons_ofText? (text : Option String) :
    want? ((name, ofText? text) :: members) name toText? = some text := by
  cases text <;> simp [want?, ofText?, toText?]

@[simp] theorem want?_cons_of_ne {key : String} (h : name ≠ key) (value : Json) :
    want? ((key, value) :: members) name decode = want? members name decode := by
  simp [want?, List.lookup_cons, beq_eq_false_iff_ne.2 h]

@[simp] theorem toUInt32?_ofUInt32 (n : UInt32) : (ofUInt32 n).toUInt32? = some n := by
  simp [ofUInt32, toUInt32?, n.toNat_lt_size]

@[simp] theorem toText?_str (s : String) : (str s).toText? = some s := rfl

@[simp] theorem toBool?_bool (b : Bool) : (bool b).toBool? = some b := rfl

theorem lookup_optionalMember (key name : String) (encode : α → Json) (a : Option α) :
    (optionalMember name encode a).lookup key = if key = name then a.map encode else none := by
  cases a with
  | none => simp [optionalMember]
  | some a =>
    by_cases h : key = name
    · simp [optionalMember, h]
    · simp [optionalMember, List.lookup_cons, beq_eq_false_iff_ne.2 h, h]

theorem names_optionalMember (name : String) (encode : α → Json) (a : Option α) :
    ((optionalMember name encode a).map (·.1)).Sublist [name] := by
  cases a <;> simp [optionalMember]

end Json

/-! ## Places -/

theorem Span.ofJson?_toJson (s : Span) : Span.ofJson? s.toJson = some s := by
  simp [Span.ofJson?, Span.toJson, Json.record?]

theorem ByteRange.ofJson?_toJson (r : ByteRange) : ByteRange.ofJson? r.toJson = some r := by
  simp [ByteRange.ofJson?, ByteRange.toJson, ByteRange.between, r.start_le_stop]

theorem Location.ofJson?_toJson (l : Location) : Location.ofJson? l.toJson = some l := by
  simp [Location.ofJson?, Location.toJson, Json.record?, Span.ofJson?_toJson]

theorem Extent.ofJson?_toJson (e : Extent) : Extent.ofJson? e.toJson = some e := by
  simp [Extent.ofJson?, Extent.toJson, Json.record?, ByteRange.ofJson?_toJson,
    Location.ofJson?_toJson]

/-! ## Properties -/

theorem Exports.ofJson?_toJson (e : Exports) : Exports.ofJson? e.toJson = some e := by
  simp [Exports.ofJson?, Exports.toJson, Json.record?]

theorem Inheritance.ofJson?_toJson (i : Inheritance) :
    Inheritance.ofJson? i.toJson = some i := by
  simp [Inheritance.ofJson?, Inheritance.toJson, Json.record?]

theorem Properties.ofJson?_toJson (p : Properties) : Properties.ofJson? p.toJson = some p := by
  have hnames : ((Json.optionalMember "exports" Exports.toJson p.exports ++
      Json.optionalMember "inheritance" Inheritance.toJson p.inheritance ++
      Json.optionalMember "namespace" Json.bool p.nameSpace ++
      Json.optionalMember "module" Json.bool p.ambientModule).map (·.1)).Sublist
        (["exports"] ++ ["inheritance"] ++ ["namespace"] ++ ["module"]) := by
    simp only [List.map_append]
    exact (((Json.names_optionalMember ..).append (Json.names_optionalMember ..)).append
      (Json.names_optionalMember ..)).append (Json.names_optionalMember ..)
  rw [Properties.ofJson?, Properties.toJson, Json.record?_of_nodup _ _ (hnames.nodup (by decide))]
  simp only [Option.pure_def, Option.bind_eq_bind, Option.bind_some]
  rw [Json.want?_of_lookup (fun e _ => Exports.ofJson?_toJson e) (by simp [Exports.toJson])
      (a := p.exports),
    Json.want?_of_lookup (fun i _ => Inheritance.ofJson?_toJson i) (by simp [Inheritance.toJson])
      (a := p.inheritance),
    Json.want?_of_lookup (fun b _ => Json.toBool?_bool b) (by simp) (a := p.nameSpace),
    Json.want?_of_lookup (fun b _ => Json.toBool?_bool b) (by simp) (a := p.ambientModule)]
  · rfl
  all_goals simp [List.lookup_append, Json.lookup_optionalMember]

/-! ## Content of comments -/

theorem Comment.MarkupStyle.ofJson?_name (style : Comment.MarkupStyle) :
    Comment.MarkupStyle.ofJson? (.str style.name) = some style := by
  cases style <;> rfl

theorem DocTag.ofJson?_toJson (tag : DocTag) : DocTag.ofJson? tag.toJson = some tag := by
  simp [DocTag.ofJson?, DocTag.toJson, Json.record?, Extent.ofJson?_toJson]

theorem CodeFence.ofJson?_toJson (fence : CodeFence) :
    CodeFence.ofJson? fence.toJson = some fence := by
  simp [CodeFence.ofJson?, CodeFence.toJson, Json.record?, Extent.ofJson?_toJson]

theorem DocComment.ofJson?_toJson (doc : DocComment) :
    DocComment.ofJson? doc.toJson = some doc := by
  simp [DocComment.ofJson?, DocComment.toJson, Json.record?, Comment.MarkupStyle.ofJson?_name,
    Json.list?_map fun tag _ => DocTag.ofJson?_toJson tag,
    Json.list?_map fun fence _ => CodeFence.ofJson?_toJson fence]

/-! ## Entries -/

namespace Entry

theorem listToJson_eq_map (entries : List Entry) : listToJson entries = entries.map toJson := by
  induction entries with
  | nil => rw [listToJson, List.map_nil]
  | cons entry rest ih => rw [listToJson, ih, List.map_cons]

/-- The members of an entry. -/
def members (entry : Entry) : List (String × Json) :=
  [("kind", .str entry.kind), ("text", .str entry.text), ("position", entry.position.toJson),
      ("location", entry.location.toJson)] ++
    Json.optionalMember "children" (fun children => .arr (children.map toJson))
      (if entry.children = [] then none else some entry.children) ++
    Json.optionalMember "context" toJson entry.context ++
    Json.optionalMember "properties" Properties.toJson entry.properties ++
    Json.optionalMember "comment" DocComment.toJson entry.comment

theorem toJson_eq (entry : Entry) : entry.toJson = .obj entry.members := by
  obtain ⟨kind, text, position, location, children, context, properties, comment⟩ := entry
  cases children <;> cases context <;>
    simp [toJson, members, childrenMember, contextMember, Json.optionalMember, listToJson_eq_map]

theorem nodup_names_members (entry : Entry) : (entry.members.map (·.1)).Nodup := by
  have hnames : (entry.members.map (·.1)).Sublist
      (["kind", "text", "position", "location"] ++ ["children"] ++ ["context"] ++ ["properties"] ++
        ["comment"]) := by
    simp only [members, List.map_append]
    exact ((((List.Sublist.refl _).append (Json.names_optionalMember ..)).append
      (Json.names_optionalMember ..)).append (Json.names_optionalMember ..)).append
      (Json.names_optionalMember ..)
  exact hnames.nodup (by decide)

theorem listOf?_eq_mapM (items : List Json) : listOf? items = items.mapM ofJson? := by
  induction items with
  | nil => rw [listOf?, List.mapM_nil]; rfl
  | cons item rest ih => rw [listOf?, ih, List.mapM_cons]

theorem itemsOf?_eq_list? (json : Json) : itemsOf? json = Json.list? ofJson? json := by
  cases json <;> simp [itemsOf?, Json.list?, listOf?_eq_mapM]

theorem childrenOf?_eq (members : List (String × Json)) :
    childrenOf? members =
      (members.lookup "children").elim (some []) (Json.list? ofJson?) := by
  induction members with
  | nil => rw [childrenOf?]; rfl
  | cons member members ih =>
    obtain ⟨name, value⟩ := member
    rw [childrenOf?, ih]
    by_cases h : name = "children"
    · simp [h, itemsOf?_eq_list?]
    · simp [h, List.lookup_cons, beq_eq_false_iff_ne.2 (Ne.symm h)]

theorem contextOf?_eq (members : List (String × Json)) :
    contextOf? members = Json.want? members "context" ofJson? := by
  induction members with
  | nil => rw [contextOf?]; rfl
  | cons member members ih =>
    obtain ⟨name, value⟩ := member
    rw [contextOf?, ih]
    by_cases h : name = "context"
    · cases value <;> simp [h, Json.want?, Json.isNull]
    · simp [h, Ne.symm h]

/-- Reading an entry undoes writing it. -/
theorem ofJson?_toJson (entry : Entry) : ofJson? entry.toJson = some entry := by
  induction entry using Entry.induction with
  | step entry hchildren hcontext =>
    have hnull : ∀ context : Entry, context.toJson ≠ .null := by simp [toJson_eq]
    have hchildren' : childrenOf? entry.members = some entry.children := by
      rw [childrenOf?_eq]
      by_cases h : entry.children = []
      · simp [members, List.lookup_append, List.lookup_cons, Json.lookup_optionalMember, h]
      · simp [members, List.lookup_append, List.lookup_cons, Json.lookup_optionalMember, h,
          Json.list?_map hchildren]
    have hcontext' : contextOf? entry.members = some entry.context := by
      rw [contextOf?_eq]
      refine Json.want?_of_lookup hcontext hnull ?_
      simp [members, List.lookup_append, List.lookup_cons, Json.lookup_optionalMember]
    have hproperties : Json.want? entry.members "properties" Properties.ofJson? =
        some entry.properties := by
      refine Json.want?_of_lookup (fun p _ => Properties.ofJson?_toJson p)
        (by simp [Properties.toJson]) ?_
      simp [members, List.lookup_append, List.lookup_cons, Json.lookup_optionalMember]
    have hcomment : Json.want? entry.members "comment" DocComment.ofJson? = some entry.comment := by
      refine Json.want?_of_lookup (fun doc _ => DocComment.ofJson?_toJson doc)
        (by simp [DocComment.toJson]) ?_
      simp [members, List.lookup_append, List.lookup_cons, Json.lookup_optionalMember]
    rw [toJson_eq, ofJson?, Json.record?_of_nodup _ _ entry.nodup_names_members, hchildren',
      hcontext']
    cases entry
    simp_all [ofMembers?, members, ByteRange.ofJson?_toJson, Location.ofJson?_toJson]

end Entry

/-! ## Numbers of entries -/

namespace Json

variable {α : Type}

theorem areWhole_map {encode : α → Json} {as : List α}
    (h : ∀ a ∈ as, (encode a).isWhole = true) : areWhole (as.map encode) = true := by
  induction as with
  | nil => rfl
  | cons a as ih =>
    have hrest := ih fun b hb => h b (List.mem_cons_of_mem a hb)
    simp [areWhole, h a List.mem_cons_self, hrest]

@[simp] theorem membersAreWhole_append (ms ns : List (String × Json)) :
    membersAreWhole (ms ++ ns) = (membersAreWhole ms && membersAreWhole ns) := by
  induction ms with
  | nil => simp [membersAreWhole]
  | cons m ms ih => simp [membersAreWhole, ih, Bool.and_assoc]

theorem membersAreWhole_optionalMember {name : String} {encode : α → Json} {a : Option α}
    (h : ∀ b ∈ a, (encode b).isWhole = true) :
    membersAreWhole (optionalMember name encode a) = true := by
  cases a with
  | none => rfl
  | some b => simp [optionalMember, membersAreWhole, h b rfl]

@[simp] theorem isWhole_bool (b : Bool) : (bool b).isWhole = true := by
  simp [isWhole]

@[simp] theorem isWhole_ofUInt32 (n : UInt32) : (ofUInt32 n).isWhole = true := by
  simp [ofUInt32, isWhole]

@[simp] theorem isWhole_ofText? (text : Option String) : (ofText? text).isWhole = true := by
  cases text <;> simp [ofText?, isWhole]

end Json

section Whole

open Json (isWhole areWhole membersAreWhole)

theorem Point.isWhole_toJson (p : Point) : p.toJson.isWhole = true := by
  simp [Point.toJson, isWhole, membersAreWhole]

theorem Extent.isWhole_toJson (e : Extent) : e.toJson.isWhole = true := by
  simp [Extent.toJson, ByteRange.toJson, Location.toJson, Span.toJson, isWhole, areWhole,
    membersAreWhole]

theorem Properties.isWhole_toJson (p : Properties) : p.toJson.isWhole = true := by
  rw [Properties.toJson, isWhole]
  simp only [Json.membersAreWhole_append, Bool.and_eq_true]
  refine ⟨⟨⟨?_, ?_⟩, ?_⟩, ?_⟩ <;> apply Json.membersAreWhole_optionalMember
  · simp [Exports.toJson, isWhole, membersAreWhole]
  · simp [Inheritance.toJson, isWhole, membersAreWhole]
  · exact fun b _ => Json.isWhole_bool b
  · exact fun b _ => Json.isWhole_bool b

theorem DocComment.isWhole_toJson (doc : DocComment) : doc.toJson.isWhole = true := by
  have htags : ∀ tag ∈ doc.tags, tag.toJson.isWhole = true := by
    simp [DocTag.toJson, isWhole, membersAreWhole, Extent.isWhole_toJson]
  have hfences : ∀ fence ∈ doc.fences, fence.toJson.isWhole = true := by
    simp [CodeFence.toJson, isWhole, membersAreWhole, Extent.isWhole_toJson]
  simp [DocComment.toJson, isWhole, membersAreWhole, Json.areWhole_map htags,
    Json.areWhole_map hfences]

theorem Diagnostic.isWhole_toJson (d : Diagnostic) : d.toJson.isWhole = true := by
  simp [Diagnostic.toJson, isWhole, membersAreWhole, Point.isWhole_toJson]

theorem Entry.isWhole_toJson (entry : Entry) : entry.toJson.isWhole = true := by
  induction entry using Entry.induction with
  | step entry hchildren hcontext =>
    have hfirm : membersAreWhole [("kind", .str entry.kind), ("text", .str entry.text),
        ("position", entry.position.toJson), ("location", entry.location.toJson)] = true := by
      simpa [isWhole, membersAreWhole, Extent.toJson, Entry.extent] using
        entry.extent.isWhole_toJson
    rw [Entry.toJson_eq, isWhole]
    simp only [Entry.members, Json.membersAreWhole_append, Bool.and_eq_true]
    refine ⟨⟨⟨⟨hfirm, ?_⟩, ?_⟩, ?_⟩, ?_⟩
    · apply Json.membersAreWhole_optionalMember
      intro children h
      have hsame : entry.children = children := by simp_all
      simpa [isWhole, hsame] using Json.areWhole_map hchildren
    · exact Json.membersAreWhole_optionalMember hcontext
    · exact Json.membersAreWhole_optionalMember fun p _ => p.isWhole_toJson
    · exact Json.membersAreWhole_optionalMember fun doc _ => doc.isWhole_toJson

theorem FileOutline.isWhole_members (outline : FileOutline) :
    (Json.obj outline.members).isWhole = true := by
  have hentries := Json.areWhole_map fun entry (_ : entry ∈ outline.entries) => entry.isWhole_toJson
  have hdiagnostics :=
    Json.areWhole_map fun d (_ : d ∈ outline.diagnostics) => d.isWhole_toJson
  simp [FileOutline.members, isWhole, membersAreWhole, hentries, hdiagnostics]

end Whole

/-! ## Nesting of written outlines -/

theorem Json.itemsNesting_le_iff {items : List Json} {n : Nat} :
    itemsNesting items ≤ n ↔ ∀ item ∈ items, item.nesting ≤ n := by
  induction items with
  | nil => simp [itemsNesting]
  | cons item items ih => rw [itemsNesting, Nat.max_le, ih, List.forall_mem_cons]

theorem Diagnostic.nesting_toJson (d : Diagnostic) : d.toJson.nesting = 2 := by
  simp [Diagnostic.toJson, Point.toJson, Json.ofUInt32, Json.nesting, Json.membersNesting]

/-- The outline of a file puts two containers around its entries, and its diagnostics are shallow. -/
theorem FileOutline.nesting_le_iff (outline : FileOutline) {n : Nat} :
    (Json.obj outline.members).nesting ≤ n + 4 ↔
      ∀ entry ∈ outline.entries, entry.toJson.nesting + 2 ≤ n + 4 := by
  have hdiagnostics : Json.itemsNesting (outline.diagnostics.map Diagnostic.toJson) ≤ n + 2 := by
    rw [Json.itemsNesting_le_iff]
    intro json hjson
    obtain ⟨d, -, rfl⟩ := List.mem_map.1 hjson
    rw [d.nesting_toJson]
    omega
  have hentries : Json.itemsNesting (outline.entries.map Entry.toJson) ≤ n + 2 ↔
      ∀ entry ∈ outline.entries, entry.toJson.nesting ≤ n + 2 := by
    rw [Json.itemsNesting_le_iff, List.forall_mem_map]
  simp only [FileOutline.members, Json.nesting, Json.membersNesting, Json.ofUInt32]
  rw [show (∀ entry ∈ outline.entries, entry.toJson.nesting + 2 ≤ n + 4) ↔
    ∀ entry ∈ outline.entries, entry.toJson.nesting ≤ n + 2 by simp, ← hentries]
  omega

/-! ## The round trip -/

/-- **An entry survives JSON up to the depth at which JSON is read.** Written, compactly or indented,
and read again it is the same entry if its JSON is nested at most that deep, and if not nothing is
read. The entries of the outline of a file stand two levels deeper. -/
theorem Entry.read?_written :
    (∀ entry : Entry,
      (Json.read? entry.toJson.compact).bind ofJson? =
          (if entry.toJson.nesting ≤ Json.nestingLimit then some entry else none) ∧
        (Json.read? entry.toJson.pretty).bind ofJson? =
          if entry.toJson.nesting ≤ Json.nestingLimit then some entry else none) ∧
      ∀ outline : FileOutline,
        ((Json.read? outline.pretty).bind (·.member? "nodes")).bind (Json.list? ofJson?) =
          if ∀ entry ∈ outline.entries, entry.toJson.nesting + 2 ≤ Json.nestingLimit then
            some outline.entries
          else none := by
  refine ⟨fun entry => ⟨?_, ?_⟩, fun outline => ?_⟩
  · rw [Json.read?_compact entry.isWhole_toJson]
    split_ifs
    · rw [Option.bind_some, ofJson?_toJson]
    · rfl
  · rw [Json.read?_pretty entry.isWhole_toJson]
    split_ifs
    · rw [Option.bind_some, ofJson?_toJson]
    · rfl
  · have hnodes : (Json.obj outline.members).member? "nodes" =
        some (.arr (outline.entries.map toJson)) := by
      simp [Json.member?, FileOutline.members, List.lookup_cons]
    have hdeep : (Json.obj outline.members).nesting ≤ Json.nestingLimit ↔
        ∀ entry ∈ outline.entries, entry.toJson.nesting + 2 ≤ Json.nestingLimit :=
      outline.nesting_le_iff
    rw [FileOutline.pretty, Json.read?_pretty outline.isWhole_members]
    simp only [hdeep]
    split_ifs
    · rw [Option.bind_some, hnodes, Option.bind_some,
        Json.list?_map fun entry _ => ofJson?_toJson entry]
    · rfl

/-- An entry with nothing but children. -/
def Entry.above (children : List Entry) : Entry :=
  ⟨"a", "", ⟨0, 0, by decide⟩, ⟨⟨0, 0⟩, ⟨0, 0⟩⟩, children, none, none, none⟩

/-- An entry with `n` entries below it, each the only child of the one above. -/
def Entry.chain : Nat → Entry
  | 0 => above []
  | n + 1 => above [chain n]

/-- The location of an entry has two containers around one another. -/
theorem Entry.nesting_above (children : List Entry) :
    (above children).toJson.nesting =
      max 2 (Json.membersNesting (childrenMember children)) + 1 := by
  simp only [above, toJson, contextMember, Json.optionalMember, List.append_nil, List.cons_append,
    List.nil_append, Json.nesting, Json.membersNesting, Json.itemsNesting, ByteRange.toJson,
    Location.toJson, Span.toJson, Json.ofUInt32]
  omega

theorem Entry.nesting_chain (n : Nat) : (chain n).toJson.nesting = 2 * n + 3 := by
  induction n with
  | zero => simp [chain, nesting_above, childrenMember, Json.membersNesting]
  | succ n ih =>
    rw [chain, nesting_above]
    simp only [childrenMember, listToJson, Json.membersNesting, Json.nesting, Json.itemsNesting, ih]
    omega

/-- An entry that is nested too deep does not survive JSON. -/
theorem Entry.deep_entry_lost :
    ¬ ∀ entry : Entry, (Json.read? entry.toJson.compact).bind ofJson? = some entry ∧
      (Json.read? entry.toJson.pretty).bind ofJson? = some entry := by
  intro hall
  have hdeep : ¬ (chain 63).toJson.nesting ≤ Json.nestingLimit := by
    rw [nesting_chain]
    decide
  have hread := (hall (chain 63)).1
  rw [Json.read?_compact (chain 63).isWhole_toJson, if_neg hdeep] at hread
  cases hread

end DocOutline
