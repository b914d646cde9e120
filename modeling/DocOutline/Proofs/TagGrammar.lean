import DocOutline.Proofs.LineBlocks

/-!
# The grammar of tag lines

A tag line is an at sign and a name, perhaps a type in braces, and a rest, of which some tags take a
name of their own. Reading one is a matter of cuts, each at the first character of some kind. Here
the lines are described the other way round, by what is put together to write them
(`TagLine.Spells`), and reading is shown to be exact: it accepts the lines that can be written, and
takes each of them apart into what it was written from (`TagLine.read?_iff_spells`).
-/

namespace DocOutline

open Text

/-! ## Cuts -/

namespace Text

/-- A text is cut where the characters of a class end. -/
theorem cut_iff {p : Char → Bool} {cs front rest : List Char} :
    cs.takeWhile p = front ∧ cs.dropWhile p = rest ↔
      cs = front ++ rest ∧ (∀ c ∈ front, p c = true) ∧ ∀ c ∈ rest.head?, p c = false := by
  constructor
  · rintro ⟨rfl, rfl⟩
    refine ⟨List.takeWhile_append_dropWhile.symm, fun c => List.mem_takeWhile_imp, fun c hc => ?_⟩
    have hhead := List.head?_dropWhile_not p cs
    rw [Option.mem_def.1 hc] at hhead
    exact hhead
  · rintro ⟨rfl, hfront, hrest⟩
    rw [List.takeWhile_append_of_pos hfront, List.dropWhile_append_of_pos hfront]
    cases rest with
    | nil => simp
    | cons c rest => simp [hrest c rfl]

theorem splitFirst?_append (separator : Char) {before : List Char} (h : separator ∉ before)
    (after : List Char) :
    splitFirst? separator (before ++ separator :: after) = some (before, after) := by
  induction before with
  | nil => simp [splitFirst?]
  | cons c before ih =>
    obtain ⟨hc, hbefore⟩ := List.ne_and_not_mem_of_not_mem_cons h
    simp [splitFirst?, Ne.symm hc, ih hbefore]

theorem splitFirst?_eq_none_iff {separator : Char} {cs : List Char} :
    splitFirst? separator cs = none ↔ separator ∉ cs := by
  induction cs with
  | nil => simp [splitFirst?]
  | cons c cs ih =>
    by_cases hc : c = separator
    · simp [splitFirst?, hc]
    · simp [splitFirst?, hc, ih, Ne.symm hc]

theorem splitFirst?_eq_some_iff {separator : Char} {cs before after : List Char} :
    splitFirst? separator cs = some (before, after) ↔
      cs = before ++ separator :: after ∧ separator ∉ before := by
  constructor
  · intro h
    have hmem : separator ∈ cs := by
      by_contra hnot
      rw [splitFirst?_eq_none_iff.2 hnot] at h
      cases h
    obtain ⟨front, rest, rfl, hfront⟩ := List.eq_append_cons_of_mem hmem
    rw [splitFirst?_append separator hfront] at h
    cases h
    exact ⟨rfl, hfront⟩
  · rintro ⟨rfl, hbefore⟩
    exact splitFirst?_append separator hbefore after

theorem dropMark_eq_iff {mark cs rest : List Char} :
    dropMark mark cs = rest ↔ cs = mark ++ rest ∨ ¬ mark <+: cs ∧ rest = cs := by
  rw [dropMark, isPrefixOf?_eq]
  by_cases hmark : mark <+: cs
  · obtain ⟨more, rfl⟩ := hmark
    simp
  · have hnot : mark.isPrefixOf cs = false := by
      rwa [Bool.eq_false_iff, Ne, List.isPrefixOf_iff_prefix]
    have hne : cs ≠ mark ++ rest := fun heq => hmark ⟨rest, heq.symm⟩
    simp [hnot, hmark, hne, eq_comm]

/-- A trimmed text does not begin with a blank. -/
theorem isBlank_head?_trim (cs : List Char) : ∀ c ∈ (trim cs).head?, isBlank c = false := by
  intro c hc
  obtain ⟨rest, hrest⟩ := trimEnd_isPrefix (trimStart cs)
  have hhead : c ∈ (trimStart cs).head? := by
    rw [← hrest, List.head?_append, ← trim, Option.mem_def.1 hc]
    rfl
  exact (cut_iff.1 ⟨rfl, rfl⟩).2.2 c hhead

end Text

namespace Comment

namespace TagLine

/-! ## What is written -/

/-- Nothing, or a text that begins with a blank. -/
def StandsApart (cs : List Char) : Prop :=
  ∀ c ∈ cs.head?, isBlank c = true

/-- The line is an at sign, a name and the rest. The name is a letter with the longest run of name
characters after it. -/
def NamedAs (line name after : List Char) : Prop :=
  ∃ c cs, name = c :: cs ∧ line = '@' :: c :: (cs ++ after) ∧ c.isAlpha = true ∧
    (∀ d ∈ cs, isNameChar d = true) ∧ ∀ d ∈ after.head?, isNameChar d = false

/-- The text is blanks, a type in braces, and a rest that stands apart. -/
def TypedAs (cs type rest : List Char) : Prop :=
  ∃ blanks, cs = blanks ++ '\x7b' :: (type ++ '\x7d' :: rest) ∧ (∀ c ∈ blanks, isBlank c = true) ∧
    '\x7d' ∉ type ∧ StandsApart rest

/-- What follows the name of a tag: a type or none, and the rest. -/
inductive SpellsType (cs : List Char) : Option (List Char) → List Char → Prop
  | typed {type rest : List Char} (h : TypedAs cs type rest) :
    SpellsType cs (some (trim type)) (trim rest)
  | untyped (h : ∀ type rest, ¬ TypedAs cs type rest) : SpellsType cs none (trim cs)

/-- The rest of a tag that names something: nothing, a name in brackets with or without a default
value, a bracket that is never closed and so no name, or a word; and what follows. -/
inductive SpellsNaming : List Char → Naming → Prop
  | nothing : SpellsNaming [] ⟨none, false, none, []⟩
  | bracketed {inner tail : List Char} (hclose : ']' ∉ inner) (hequals : '=' ∉ inner) :
    SpellsNaming ('[' :: (inner ++ ']' :: tail)) ⟨some (trim inner), true, none, trimStart tail⟩
  | defaulted {ident value tail : List Char} (hclose : ']' ∉ ident ++ '=' :: value)
    (hequals : '=' ∉ ident) :
    SpellsNaming ('[' :: (ident ++ '=' :: value ++ ']' :: tail))
      ⟨some (trim ident), true, some (trim value), trimStart tail⟩
  | unclosed {cs : List Char} (hclose : ']' ∉ cs) :
    SpellsNaming ('[' :: cs) ⟨none, false, none, '[' :: cs⟩
  | word {word more : List Char} (hne : word ≠ []) (hword : ∀ c ∈ word, isBlank c = false)
    (hbracket : word.head? ≠ some '[') (hmore : StandsApart more) :
    SpellsNaming (word ++ more) ⟨some word, false, none, trimStart more⟩

/-- A tag line, and what it says. A dash and a space in front of the description are not part of
it. -/
inductive Spells (line : List Char) : TagLine → Prop
  | intro {name after rest description : List Char} {typeExpr : Option (List Char)}
    {naming : Naming} (hname : NamedAs line name after) (hafter : StandsApart after)
    (htype : SpellsType after typeExpr rest)
    (hnaming : if String.ofList name ∈ namingTags then SpellsNaming rest naming
      else naming = ⟨none, false, none, rest⟩)
    (hdescription : naming.rest = ['-', ' '] ++ description ∨
      ¬ ['-', ' '] <+: naming.rest ∧ description = naming.rest) :
    Spells line
      ⟨name, typeExpr, naming.ident, naming.optional, naming.fallback, description⟩

/-! ## What is read -/

theorem isApart_iff {cs : List Char} : isApart cs = true ↔ StandsApart cs := by
  cases cs with
  | nil => simp [isApart, StandsApart]
  | cons c cs => simp [isApart, StandsApart]

theorem name?_eq_some_iff {line name after : List Char} :
    name? line = some (name, after) ↔ NamedAs line name after := by
  constructor
  · intro h
    unfold name? at h
    split at h
    · rename_i c cs
      split at h
      · rename_i hletter
        cases h
        obtain ⟨hcs, hname, hafter⟩ := cut_iff.1 ⟨rfl, rfl⟩
        exact ⟨c, _, rfl, by rw [← hcs], hletter, hname, hafter⟩
      · cases h
    · cases h
  · rintro ⟨c, cs, rfl, rfl, hletter, hname, hafter⟩
    obtain ⟨htake, hdrop⟩ := cut_iff.2 ⟨rfl, hname, hafter⟩
    rw [name?, if_pos hletter, htake, hdrop]

theorem type?_eq_some_iff {cs type rest : List Char} :
    type? cs = some (type, rest) ↔ TypedAs cs type rest := by
  constructor
  · intro h
    unfold type? at h
    split at h
    · rename_i more hmore
      obtain ⟨⟨front, after⟩, hsplit, hite⟩ := Option.bind_eq_some_iff.1 h
      obtain ⟨hapart, heq⟩ := Option.ite_none_right_eq_some.1 hite
      cases heq
      obtain ⟨rfl, hclose⟩ := splitFirst?_eq_some_iff.1 hsplit
      obtain ⟨hcs, hblanks, -⟩ := cut_iff.1 ⟨rfl, hmore⟩
      exact ⟨_, hcs, hblanks, hclose, isApart_iff.1 hapart⟩
    · cases h
  · rintro ⟨blanks, rfl, hblanks, hclose, hrest⟩
    have hstart : trimStart (blanks ++ '\x7b' :: (type ++ '\x7d' :: rest)) =
        '\x7b' :: (type ++ '\x7d' :: rest) :=
      (cut_iff.2 ⟨rfl, hblanks, by simp; decide⟩).2
    simp only [type?, hstart, splitFirst?_append _ hclose, Option.bind_some, isApart_iff.2 hrest,
      if_true]

theorem splitType_eq_iff {after rest : List Char} {typeExpr : Option (List Char)} :
    splitType after = (typeExpr, rest) ↔ SpellsType after typeExpr rest := by
  constructor
  · intro h
    cases htype : type? after with
    | some typed =>
      simp only [splitType, htype] at h
      cases h
      exact .typed (type?_eq_some_iff.1 htype)
    | none =>
      simp only [splitType, htype] at h
      cases h
      refine .untyped fun type rest htyped => ?_
      rw [type?_eq_some_iff.2 htyped] at htype
      cases htype
  · rintro (h | h)
    · simp only [splitType, type?_eq_some_iff.2 h]
    · have hnone : type? after = none :=
        Option.eq_none_iff_forall_ne_some.2 fun (type, rest) heq =>
          h type rest (type?_eq_some_iff.1 heq)
      simp only [splitType, hnone]

/-- What is left after the type does not begin with a blank. -/
theorem isBlank_head?_splitType (after : List Char) :
    ∀ c ∈ (splitType after).2.head?, isBlank c = false := by
  obtain ⟨text, htext⟩ := exists_splitType_eq_trim after
  rw [htext]
  exact isBlank_head?_trim text

/-- A text is cut after its first word. -/
theorem wordCut_iff {cs word more : List Char} :
    cs.takeWhile (fun c => !isBlank c) = word ∧ cs.dropWhile (fun c => !isBlank c) = more ↔
      cs = word ++ more ∧ (∀ c ∈ word, isBlank c = false) ∧ StandsApart more := by
  simp only [cut_iff, Bool.not_eq_true', Bool.not_eq_false', StandsApart]

/-- Where there is no bracket, the first word is the name. -/
theorem Naming.read_cons {c : Char} (hc : c ≠ '[') (cs : List Char) :
    Naming.read (c :: cs) =
      ⟨some ((c :: cs).takeWhile fun d => !isBlank d), false, none,
        trimStart ((c :: cs).dropWhile fun d => !isBlank d)⟩ := by
  unfold Naming.read
  split
  · rename_i h
    cases h
  · rename_i h
    exact absurd (List.cons.inj h).1 hc
  · rfl

theorem Naming.spells_ofBrackets {inner : List Char} (hclose : ']' ∉ inner) (tail : List Char) :
    SpellsNaming ('[' :: (inner ++ ']' :: tail)) (Naming.ofBrackets inner tail) := by
  unfold Naming.ofBrackets
  split
  · rename_i ident value hsplit
    obtain ⟨rfl, hequals⟩ := splitFirst?_eq_some_iff.1 hsplit
    exact .defaulted hclose hequals
  · rename_i hsplit
    exact .bracketed hclose (splitFirst?_eq_none_iff.1 hsplit)

/-- What is read from a text that does not begin with a blank is what the text spells. -/
theorem Naming.spells_read {cs : List Char} (hcs : ∀ c ∈ cs.head?, isBlank c = false) :
    SpellsNaming cs (Naming.read cs) := by
  cases cs with
  | nil => exact .nothing
  | cons c cs =>
    by_cases hc : c = '['
    · subst hc
      rw [Naming.read]
      split
      · rename_i inner tail hsplit
        obtain ⟨rfl, hclose⟩ := splitFirst?_eq_some_iff.1 hsplit
        exact spells_ofBrackets hclose tail
      · rename_i hsplit
        exact .unclosed (splitFirst?_eq_none_iff.1 hsplit)
    · have hblank : isBlank c = false := hcs c rfl
      obtain ⟨-, hword, hmore⟩ := (@wordCut_iff (c :: cs) _ _).1 ⟨rfl, rfl⟩
      have hspells := SpellsNaming.word (by simp [hblank]) hword (by simp [hblank, hc]) hmore
      rwa [List.takeWhile_append_dropWhile, ← read_cons hc] at hspells

theorem SpellsNaming.read_eq {cs : List Char} {naming : Naming} (h : SpellsNaming cs naming) :
    Naming.read cs = naming := by
  cases h with
  | nothing => rfl
  | bracketed hclose hequals =>
    simp only [Naming.read, splitFirst?_append _ hclose, Naming.ofBrackets,
      splitFirst?_eq_none_iff.2 hequals]
  | defaulted hclose hequals =>
    simp only [Naming.read, splitFirst?_append _ hclose, Naming.ofBrackets,
      splitFirst?_append _ hequals]
  | unclosed hclose => simp only [Naming.read, splitFirst?_eq_none_iff.2 hclose, Naming.unread]
  | word hne hword hbracket hmore =>
    obtain ⟨c, rest, rfl⟩ := List.exists_cons_of_ne_nil hne
    obtain ⟨htake, hdrop⟩ := wordCut_iff.2 ⟨rfl, hword, hmore⟩
    have hc : c ≠ '[' := fun hc => hbracket (congrArg some hc)
    rw [List.cons_append, Naming.read_cons hc, ← List.cons_append, htake, hdrop]

theorem namingOf_eq_iff {name rest : List Char} {naming : Naming}
    (hrest : ∀ c ∈ rest.head?, isBlank c = false) :
    namingOf name rest = naming ↔
      if String.ofList name ∈ namingTags then SpellsNaming rest naming
        else naming = ⟨none, false, none, rest⟩ := by
  unfold namingOf
  split
  · exact ⟨fun h => h ▸ Naming.spells_read hrest, SpellsNaming.read_eq⟩
  · exact eq_comm

theorem read?_eq_some_iff {line : List Char} {tag : TagLine} :
    read? line = some tag ↔
      ∃ name after, NamedAs line name after ∧ StandsApart after ∧ ofParts name after = tag := by
  simp only [read?, Option.bind_eq_some_iff, Prod.exists, Option.ite_none_right_eq_some,
    Option.some.injEq, isApart_iff, name?_eq_some_iff]

theorem spells_iff {line : List Char} {tag : TagLine} :
    Spells line tag ↔
      ∃ name after, NamedAs line name after ∧ StandsApart after ∧ ofParts name after = tag := by
  constructor
  · rintro (@⟨name, after, rest, description, typeExpr, naming, hname, hafter, htype, hnaming,
      hdescription⟩)
    have hsplit : splitType after = (typeExpr, rest) := splitType_eq_iff.2 htype
    have hrest := isBlank_head?_splitType after
    rw [hsplit] at hrest
    refine ⟨name, after, hname, hafter, ?_⟩
    simp only [ofParts, hsplit, (namingOf_eq_iff hrest).2 hnaming, dropMark_eq_iff.2 hdescription]
  · rintro ⟨name, after, hname, hafter, rfl⟩
    exact .intro hname hafter (splitType_eq_iff.1 rfl)
      ((namingOf_eq_iff (isBlank_head?_splitType after)).1 rfl) (dropMark_eq_iff.1 rfl)

/-- **A tag line is read exactly as it is spelled.** A text is read as a tag line if and only if it
is an at sign and a name, with nothing or a blank after the name; and the type, the name that the
tag takes, its default value and the description are those that the text spells. -/
theorem read?_iff_spells :
    (∀ line tag, read? line = some tag ↔ Spells line tag) ∧
      ∀ line, (read? line).isSome ↔ ∃ name after, NamedAs line name after ∧ StandsApart after := by
  refine ⟨fun line tag => read?_eq_some_iff.trans spells_iff.symm, fun line => ?_⟩
  simp only [Option.isSome_iff_exists, read?_eq_some_iff]
  constructor
  · rintro ⟨tag, name, after, hname, hafter, -⟩
    exact ⟨name, after, hname, hafter⟩
  · rintro ⟨name, after, hname, hafter⟩
    exact ⟨_, name, after, hname, hafter, rfl⟩

end TagLine

end Comment

end DocOutline
