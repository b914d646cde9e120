import DocOutline.Outline.Basic
import DocOutline.Proofs.Program
import DocOutline.Proofs.TagGrammar

/-!
# Sets of sources

A set keeps its sources under numbers and takes the next number from its own size. While the numbers
fit, this gives every source its position in the order of arrival: the number is not yet in use, so
nothing is replaced. The invariant is that the source at each position is kept under that position
and carries it (`SourceSet.Holds`). One insert preserves it (`SourceSet.holds_insert`), and so does
any run of inserts (`SourceSet.holds_insertAll`).

What a path says about its language is described by how the path is put together
(`Language.IsToldBy`). The outlines of a set then stand in the order of its sources: each is the
outline of that source by itself, or says that the path tells no language
(`SourceSet.outlines_of_inserts`).
-/

namespace DocOutline

open Text

/-- The number of a position. -/
def FileId.ofPosition (k : Nat) : FileId :=
  ⟨k.toUInt32⟩

theorem FileId.toNat_ofPosition {k : Nat} (h : k < UInt32.size) :
    (FileId.ofPosition k).index.toNat = k :=
  UInt32.toNat_ofNat_of_lt h

theorem FileId.ofPosition_toNat (file : FileId) : FileId.ofPosition file.index.toNat = file := by
  obtain ⟨index⟩ := file
  exact congrArg FileId.mk (UInt32.ofNat_toNat (x := index))

/-- A source with the number of its position. -/
def Source.numbered (source : Source) (k : Nat) : Source :=
  { source with file := .ofPosition k }

namespace SourceSet

variable {set : SourceSet} {sources : List Source} {source : Source}

/-! ## Inserts -/

/-- Inserts sources one after another: the numbers that they get, and the set in the end. -/
def insertAll (set : SourceSet) : List Source → List FileId × SourceSet
  | [] => ([], set)
  | source :: rest =>
    let (id, next) := set.insert source
    let (ids, last) := insertAll next rest
    (id :: ids, last)

/-- The set holds the sources in order: each is kept under its position and carries it. -/
def Holds (set : SourceSet) (sources : List Source) : Prop :=
  set.files = sources.mapIdx fun k source => (.ofPosition k, source.numbered k)

theorem put_of_fresh {file : FileId} {files : List (FileId × Source)}
    (h : ∀ entry ∈ files, entry.1 ≠ file) :
    put file source files = files ++ [(file, source)] := by
  induction files with
  | nil => rfl
  | cons entry rest ih =>
    rw [put, if_neg (h entry List.mem_cons_self),
      ih fun entry hentry => h entry (List.mem_cons_of_mem _ hentry)]
    rfl

theorem Holds.size_eq (h : set.Holds sources) : set.size = sources.length := by
  rw [size, h, List.length_mapIdx]

/-- **An insert keeps the order of a set.** The source gets the next position and stands there. -/
theorem holds_insert (h : set.Holds sources) (hlt : sources.length < UInt32.size)
    (source : Source) :
    (set.insert source).1 = .ofPosition sources.length ∧
      (set.insert source).2.Holds (sources ++ [source]) := by
  have hnext : set.nextId = .ofPosition sources.length := by
    rw [nextId, h.size_eq]
    rfl
  have hfresh : ∀ entry ∈ set.files, entry.1 ≠ set.nextId := by
    intro entry hentry heq
    rw [h, List.mem_mapIdx] at hentry
    obtain ⟨k, hk, rfl⟩ := hentry
    have hindex := congrArg (·.index.toNat) (heq.trans hnext)
    simp only [FileId.toNat_ofPosition hlt, FileId.toNat_ofPosition (Nat.lt_trans hk hlt)] at hindex
    omega
  refine ⟨hnext, ?_⟩
  show put set.nextId { source with file := set.nextId } set.files = _
  rw [put_of_fresh hfresh, hnext, h, List.mapIdx_concat]
  rfl

/-- **A run of inserts gives each source its position.** -/
theorem holds_insertAll {before : List Source} (h : set.Holds before)
    (hlt : before.length + sources.length < UInt32.size) :
    (set.insertAll sources).1 =
        (List.range' before.length sources.length).map .ofPosition ∧
      (set.insertAll sources).2.Holds (before ++ sources) := by
  induction sources generalizing set before with
  | nil => exact ⟨rfl, by rwa [List.append_nil]⟩
  | cons source rest ih =>
    rw [List.length_cons] at hlt
    obtain ⟨hid, hnext⟩ := holds_insert h (by omega) source
    obtain ⟨hids, hlast⟩ := ih hnext (by rw [List.length_append, List.length_singleton]; omega)
    constructor
    · show (set.insert source).1 :: ((set.insert source).2.insertAll rest).1 = _
      rw [hid, hids, List.length_append, List.length_singleton, List.length_cons,
        List.range'_succ, List.map_cons]
    · show ((set.insert source).2.insertAll rest).2.Holds _
      rwa [List.append_cons]

theorem holds_empty : empty.Holds [] :=
  rfl

/-! ## What a set holds -/

theorem Holds.sources_eq (h : set.Holds sources) :
    set.sources = sources.mapIdx fun k source => source.numbered k := by
  rw [SourceSet.sources, h]
  apply List.ext_getElem
  · simp
  · intro k hk hk'
    simp

/-- The sources of a set are found under their positions, and there is nothing else. -/
theorem Holds.get?_eq (h : set.Holds sources) (hlt : sources.length < UInt32.size)
    (file : FileId) :
    set.get? file = (sources[file.index.toNat]?).map (·.numbered file.index.toNat) := by
  have hkey (k : Nat) (hk : k < sources.length) (heq : (FileId.ofPosition k == file) = true) :
      k = file.index.toNat := by
    rw [← beq_iff_eq.1 heq, FileId.toNat_ofPosition (Nat.lt_trans hk hlt)]
  rw [get?, h]
  by_cases hfile : file.index.toNat < sources.length
  · have hfound : (sources.mapIdx fun k source =>
        (FileId.ofPosition k, source.numbered k)).find? (·.1 == file) =
          some (file, sources[file.index.toNat].numbered file.index.toNat) := by
      apply List.find?_eq_some_iff_getElem.2
      refine ⟨beq_self_eq_true file, file.index.toNat, by simpa using hfile, ?_, ?_⟩
      · rw [List.getElem_mapIdx, FileId.ofPosition_toNat]
      · intro j hj
        rw [List.getElem_mapIdx]
        by_contra hmatch
        have := hkey j (by omega) (by simpa using hmatch)
        omega
    rw [hfound, List.getElem?_eq_getElem hfile]
    rfl
  · have hnone : (sources.mapIdx fun k source =>
        (FileId.ofPosition k, source.numbered k)).find? (·.1 == file) = none := by
      apply List.find?_eq_none.2
      intro entry hentry hmatch
      obtain ⟨k, hk, rfl⟩ := List.mem_mapIdx.1 hentry
      exact hfile (hkey k hk hmatch ▸ hk)
    rw [hnone, List.getElem?_eq_none (by omega)]
    rfl

end SourceSet

/-! ## The language of a path -/

/-- The path is some folders, each with the separator behind it, and a last component. -/
def Source.LastComponent (path name : List Char) : Prop :=
  ∃ folders, path = folders ++ name ∧ (∀ c ∈ folders.getLast?, isSeparator c = true) ∧
    ∀ c ∈ name, isSeparator c = false

/-- The extension follows the last dot of the name. -/
def Source.HasExtension (name ext : List Char) : Prop :=
  ∃ stem, name = stem ++ '.' :: ext ∧ '.' ∉ ext

namespace Language

/-- The extension is one of the language, in whatever case. -/
def Supports (language : Language) (ext : List Char) : Prop :=
  String.ofList (ext.map Char.toLower) ∈ language.extensions

/-- The last component of the path has an extension of the language. -/
def IsToldBy (language : Language) (path : String) : Prop :=
  ∃ name ext, Source.LastComponent path.toList name ∧ Source.HasExtension name ext ∧
    language.Supports ext

/-- The last component of the path has no dot, or what follows its last dot is an extension of no
language. -/
def NoneToldBy (path : String) : Prop :=
  ∃ name, Source.LastComponent path.toList name ∧
    ('.' ∉ name ∨
      ∃ ext, Source.HasExtension name ext ∧ ∀ language : Language, ¬ language.Supports ext)

end Language

namespace Text

/-- What follows the last separator is cut off in front of it. -/
theorem afterLast_eq_iff {isSeparator : Char → Bool} {cs rest : List Char} :
    afterLast isSeparator cs = rest ↔
      ∃ front, cs = front ++ rest ∧ (∀ c ∈ front.getLast?, isSeparator c = true) ∧
        ∀ c ∈ rest, isSeparator c = false := by
  rw [afterLast, List.reverse_eq_iff]
  constructor
  · intro h
    obtain ⟨hcs, hrest, hfront⟩ := cut_iff.1 ⟨h, rfl⟩
    refine ⟨(cs.reverse.dropWhile fun c => !isSeparator c).reverse, ?_, ?_, ?_⟩
    · rw [← List.reverse_reverse rest, ← List.reverse_append, ← hcs, List.reverse_reverse]
    · intro c hc
      rw [List.getLast?_reverse] at hc
      simpa using hfront c hc
    · intro c hc
      simpa using hrest c (List.mem_reverse.2 hc)
  · rintro ⟨front, rfl, hfront, hrest⟩
    refine (cut_iff.2 ⟨List.reverse_append, fun c hc => ?_, fun c hc => ?_⟩).1
    · simpa using hrest c (List.mem_reverse.1 hc)
    · rw [List.head?_reverse] at hc
      simpa using hfront c hc

end Text

namespace Source

theorem lastComponent_eq_iff {path : String} {name : List Char} :
    lastComponent path = name ↔ LastComponent path.toList name :=
  afterLast_eq_iff

theorem hasExtension_iff {name ext : List Char} :
    HasExtension name ext ↔ '.' ∈ name ∧ afterLast (· == '.') name = ext := by
  rw [afterLast_eq_iff]
  constructor
  · rintro ⟨stem, rfl, hext⟩
    refine ⟨by simp, stem ++ ['.'], by simp, by simp, fun c hc => ?_⟩
    exact beq_false_of_ne fun heq => hext (heq ▸ hc)
  · rintro ⟨hdot, front, rfl, hfront, hrest⟩
    have hext : '.' ∉ ext := fun hmem => absurd (hrest '.' hmem) (by simp)
    rcases List.eq_nil_or_concat front with rfl | ⟨stem, c, rfl⟩
    · exact absurd hdot hext
    · have hc : c = '.' := by simpa using hfront c (by simp)
      exact ⟨stem, by simp [hc], hext⟩

end Source

namespace Language

/-- No two languages have an extension in common. -/
theorem ofExtension?_eq_some_iff {ext : List Char} {language : Language} :
    ofExtension? (String.ofList ext) = some language ↔ language.Supports ext := by
  rw [ofExtension?, String.toList_ofList, Supports]
  constructor
  · intro h
    simpa using List.find?_some h
  · intro h
    cases language with
    | javaScript =>
      simp only [extensions, List.mem_cons, List.not_mem_nil, or_false] at h
      rcases h with h | h | h | h <;> rw [h] <;> rfl
    | typeScript =>
      simp only [extensions, List.mem_cons, List.not_mem_nil, or_false] at h
      rcases h with h | h | h <;> rw [h] <;> rfl
    | tsx =>
      simp only [extensions, List.mem_cons, List.not_mem_nil, or_false] at h
      rw [h]
      rfl

theorem ofPath?_eq_some_iff {path : String} {language : Language} :
    ofPath? path = some language ↔ language.IsToldBy path := by
  rw [ofPath?]
  constructor
  · intro h
    split_ifs at h with hdot
    refine ⟨_, _, Source.lastComponent_eq_iff.1 rfl,
      Source.hasExtension_iff.2 ⟨List.contains_iff_mem.1 hdot, rfl⟩, ?_⟩
    exact ofExtension?_eq_some_iff.1 h
  · rintro ⟨name, ext, hname, hext, hsupports⟩
    obtain ⟨hdot, hafter⟩ := Source.hasExtension_iff.1 hext
    rw [Source.lastComponent_eq_iff.2 hname, if_pos (List.contains_iff_mem.2 hdot), hafter]
    exact ofExtension?_eq_some_iff.2 hsupports

theorem ofPath?_eq_none_iff {path : String} : ofPath? path = none ↔ NoneToldBy path := by
  rw [ofPath?]
  constructor
  · intro h
    refine ⟨_, Source.lastComponent_eq_iff.1 rfl, ?_⟩
    by_cases hdot : '.' ∈ Source.lastComponent path
    · refine .inr ⟨_, Source.hasExtension_iff.2 ⟨hdot, rfl⟩, fun language hsupports => ?_⟩
      rw [if_pos (List.contains_iff_mem.2 hdot), ofExtension?_eq_some_iff.2 hsupports] at h
      cases h
    · exact .inl hdot
  · rintro ⟨name, hname, hnone⟩
    rw [Source.lastComponent_eq_iff.2 hname]
    by_cases hdot : '.' ∈ name
    · rw [if_pos (List.contains_iff_mem.2 hdot)]
      rcases hnone with hnot | ⟨ext, hext, hnone⟩
      · exact absurd hdot hnot
      · rw [(Source.hasExtension_iff.1 hext).2]
        apply Option.eq_none_iff_forall_not_mem.2
        intro language hmem
        exact hnone language (ofExtension?_eq_some_iff.1 hmem)
    · rw [if_neg (mt List.contains_iff_mem.1 hdot)]

end Language

/-! ## Outlines of a set -/

section Outlines

variable {options : Options} {tree? : Source → Option Tree} {source : Source}

theorem outlineSource_of_noneToldBy (h : Language.NoneToldBy source.path) :
    outlineSource options tree? source = .ok (.error (.unknownLanguage source.path)) := by
  rw [outlineSource, Language.ofPath?_eq_none_iff.2 h]
  rfl

theorem outlineSource_of_isToldBy {language : Language} {tree : Tree} {outline : FileOutline}
    (h : language.IsToldBy source.path) (htree : tree? source = some tree)
    (houtline : Outliner.outline { language, options } source tree = .ok outline) :
    outlineSource options tree? source = .ok (.ok outline) := by
  rw [outlineSource, Language.ofPath?_eq_some_iff.2 h, htree]
  show (do
    let outline ← Outliner.outline { language, options } source tree
    return Except.ok outline) = _
  rw [houtline]
  rfl

/-- An outline bears the number and the path of its source. -/
theorem Outliner.origin_of_outline {outliner : Outliner} {tree : Tree} {outline : FileOutline}
    (h : outliner.outline source tree = .ok outline) :
    outline.file = source.file ∧ outline.path = source.path := by
  obtain ⟨entries, -, h⟩ := bind_eq_ok_iff.1 h
  cases h
  exact ⟨rfl, rfl⟩

end Outlines

namespace SourceSet

variable (options : Options) (tree? : Source → Option Tree)

/-- A source alone gives its outline where its path tells a language, and otherwise the error that
the path tells none. -/
theorem exists_outlineSource (source : Source)
    (htree : ∀ language : Language, language.IsToldBy source.path →
      ∃ tree, tree? source = some tree)
    (hrun : ∀ (language : Language) (tree : Tree), language.IsToldBy source.path →
      tree? source = some tree →
        ∃ outline, Outliner.outline { language, options } source tree = .ok outline) :
    ∃ result, outlineSource options tree? source = .ok result ∧
      (result = .error (.unknownLanguage source.path) ↔ Language.NoneToldBy source.path) ∧
      (¬ Language.NoneToldBy source.path →
        ∃ language tree outline, Language.IsToldBy language source.path ∧
          tree? source = some tree ∧
          Outliner.outline { language, options } source tree = .ok outline ∧
          result = .ok outline) := by
  cases hlanguage : Language.ofPath? source.path with
  | none =>
    have hnone := Language.ofPath?_eq_none_iff.1 hlanguage
    exact ⟨_, outlineSource_of_noneToldBy hnone, iff_of_true rfl hnone,
      fun hsome => absurd hnone hsome⟩
  | some language =>
    have htold := Language.ofPath?_eq_some_iff.1 hlanguage
    obtain ⟨tree, htree⟩ := htree language htold
    obtain ⟨outline, houtline⟩ := hrun language tree htold htree
    have hsome : ¬ Language.NoneToldBy source.path := by
      intro hnone
      rw [Language.ofPath?_eq_none_iff.2 hnone] at hlanguage
      cases hlanguage
    refine ⟨_, outlineSource_of_isToldBy htold htree houtline, iff_of_false ?_ hsome, ?_⟩
    · intro h
      cases h
    · intro _
      exact ⟨language, tree, outline, htold, htree, houtline, rfl⟩

/-- The results of a set stand at the positions of its sources. -/
theorem Holds.exists_outlineSet {set : SourceSet} {sources : List Source} (h : set.Holds sources)
    (hlone : ∀ (k : Nat) (source : Source), sources[k]? = some source →
      ∃ result, outlineSource options tree? (source.numbered k) = .ok result) :
    ∃ results, outlineSet options tree? set = .ok results ∧ results.length = sources.length ∧
      ∀ (k : Nat) (source : Source), sources[k]? = some source →
        ∃ result, results[k]? = some result ∧
          outlineSource options tree? (source.numbered k) = .ok result := by
  obtain ⟨results, hresults, -⟩ : ∃ results,
      (sources.mapIdx fun k source => source.numbered k).mapM (outlineSource options tree?) =
        .ok results ∧ ∀ result ∈ results, True := by
    apply exists_mapM
    intro numbered hmem
    obtain ⟨k, hk, rfl⟩ := List.mem_mapIdx.1 hmem
    obtain ⟨result, hresult⟩ := hlone k _ (List.getElem?_eq_getElem hk)
    exact ⟨result, hresult, trivial⟩
  refine ⟨results, ?_, ?_, ?_⟩
  · rw [outlineSet, h.sources_eq]
    exact hresults
  · rw [← (mapM_eq_ok_iff.1 hresults).length_eq, List.length_mapIdx]
  · intro k source hk
    apply getElem?_of_mapM hresults
    rw [List.getElem?_mapIdx, hk]
    rfl

/-- **The outlines of a set stand in the order of its inserts.** The sources are numbered by their
positions, whatever numbers they had and however often a path or a text comes again, and are found
under those numbers and no others. The results are as many as the inserts: each is the outline of
its own source alone, or the error that the path of this source tells no language. -/
theorem outlines_of_inserts (sources : List Source) (hcount : sources.length < UInt32.size)
    (htrees : ∀ (k : Nat) (source : Source) (language : Language), sources[k]? = some source →
      language.IsToldBy source.path → ∃ tree, tree? (source.numbered k) = some tree)
    (hruns : ∀ (k : Nat) (source : Source) (language : Language) (tree : Tree),
      sources[k]? = some source → language.IsToldBy source.path →
        tree? (source.numbered k) = some tree →
          ∃ outline,
            Outliner.outline { language, options } (source.numbered k) tree = .ok outline) :
    (empty.insertAll sources).1 = (List.range sources.length).map .ofPosition ∧
      (∀ k source, sources[k]? = some source →
        (empty.insertAll sources).2.get? (.ofPosition k) = some (source.numbered k)) ∧
      (∀ file, sources.length ≤ file.index.toNat →
        (empty.insertAll sources).2.get? file = none) ∧
      (empty.insertAll sources).2.sources = sources.mapIdx (fun k source => source.numbered k) ∧
      ∃ results, outlineSet options tree? (empty.insertAll sources).2 = .ok results ∧
        results.length = sources.length ∧
        ∀ k source, sources[k]? = some source →
          (results[k]? = some (.error (.unknownLanguage source.path)) ↔
            Language.NoneToldBy source.path) ∧
          (¬ Language.NoneToldBy source.path →
            ∃ language tree outline, Language.IsToldBy language source.path ∧
              tree? (source.numbered k) = some tree ∧
              Outliner.outline { language, options } (source.numbered k) tree = .ok outline ∧
              results[k]? = some (.ok outline) ∧
              outline.file = .ofPosition k ∧ outline.path = source.path) := by
  obtain ⟨hids, hholds⟩ := holds_insertAll holds_empty
    (show [].length + sources.length < UInt32.size by simpa using hcount)
  rw [List.nil_append] at hholds
  have hlone (k : Nat) (source : Source) (hk : sources[k]? = some source) :=
    exists_outlineSource options tree? (source.numbered k)
      (fun language => htrees k source language hk)
      (fun language tree => hruns k source language tree hk)
  refine ⟨?_, ?_, ?_, hholds.sources_eq, ?_⟩
  · rw [hids, List.length_nil, List.range_eq_range']
  · intro k source hk
    obtain ⟨hlt, -⟩ := List.getElem?_eq_some_iff.1 hk
    rw [hholds.get?_eq hcount, FileId.toNat_ofPosition (Nat.lt_trans hlt hcount), hk]
    rfl
  · intro file hfile
    rw [hholds.get?_eq hcount, List.getElem?_eq_none hfile]
    rfl
  · obtain ⟨results, hresults, hlength, hat⟩ := hholds.exists_outlineSet options tree?
      fun k source hk => (hlone k source hk).imp fun _ hresult => hresult.1
    refine ⟨results, hresults, hlength, ?_⟩
    intro k source hk
    obtain ⟨result, hresult, hunknown, houtlined⟩ := hlone k source hk
    obtain ⟨_, hplace, hsame⟩ := hat k source hk
    cases hsame.symm.trans hresult
    constructor
    · rw [hplace, Option.some_inj]
      exact hunknown
    · intro hsome
      obtain ⟨language, tree, outline, htold, htree, houtline, rfl⟩ := houtlined hsome
      obtain ⟨hfile, hpath⟩ := Outliner.origin_of_outline houtline
      exact ⟨language, tree, outline, htold, htree, houtline, hplace, hfile, hpath⟩

/-- `/** B. */ class B {}` -/
def classB : Tree :=
  .inLine "program" 0 20 [
    .inLine "comment" 0 9 [],
    .inLine "class_declaration" 10 20 [
      .inLine "class" 10 15 [],
      .inLine "identifier" 16 17 [],
      .inLine "class_body" 18 20 []]]

def scriptB : Source :=
  .ofPath "lib.md\\B.TS" "/** B. */ class B \x7b\x7d"

def readme : Source :=
  { Source.ofPath "lib.ts/README" "# B" with file := ⟨2⟩ }

def treeOfB? (source : Source) : Option Tree :=
  if source.path = scriptB.path then some classB else none

/-- One file comes twice, and the file between has a number already and only a folder that looks
like a script. -/
theorem outlines_of_inserts_scriptB :
    (empty.insertAll [scriptB, readme, scriptB]).1 = [⟨0⟩, ⟨1⟩, ⟨2⟩] ∧
      ∃ results,
        outlineSet {} treeOfB? (empty.insertAll [scriptB, readme, scriptB]).2 = .ok results ∧
        results.length = 3 ∧
        results[1]? = some (.error (.unknownLanguage "lib.ts/README")) ∧
        ∃ outline, results[2]? = some (.ok outline) ∧ outline.file = ⟨2⟩ := by
  have hreadme := Language.ofPath?_eq_none_iff.1
    (show Language.ofPath? readme.path = none by decide +kernel)
  have hscript : Language.ofPath? scriptB.path = some .typeScript := by decide +kernel
  have hruns (k : Nat) (hk : k < 3) : ∃ outline,
      Outliner.outline { language := .typeScript } (scriptB.numbered k) classB = .ok outline := by
    have hoks : ∀ k < 3, (Outliner.outline { language := .typeScript }
        (scriptB.numbered k) classB).toOption.any (·.entries.length == 1) = true := by
      decide +kernel
    obtain ⟨outline, houtline, -⟩ := exists_eq_ok_of_any (hoks k hk)
    exact ⟨outline, houtline⟩
  have hknown (k : Nat) (source : Source) (language : Language)
      (hk : [scriptB, readme, scriptB][k]? = some source)
      (htold : language.IsToldBy source.path) :
      k < 3 ∧ source = scriptB ∧ language = .typeScript := by
    obtain ⟨hlt, -⟩ := List.getElem?_eq_some_iff.1 hk
    have hlanguage := Language.ofPath?_eq_some_iff.2 htold
    have hsource : source = scriptB ∨ source = readme := by
      simpa [or_comm, or_left_comm] using List.mem_of_getElem? hk
    rcases hsource with rfl | rfl
    · exact ⟨hlt, rfl, Option.some.inj (hlanguage.symm.trans hscript)⟩
    · rw [Language.ofPath?_eq_none_iff.2 hreadme] at hlanguage
      cases hlanguage
  obtain ⟨hids, -, -, -, results, hresults, hlength, hall⟩ :=
    outlines_of_inserts {} treeOfB? [scriptB, readme, scriptB] (by decide)
      (fun k source language hk htold => by
        obtain ⟨-, rfl, -⟩ := hknown k source language hk htold
        exact ⟨classB, rfl⟩)
      (fun k source language tree hk htold htree => by
        obtain ⟨hlt, rfl, rfl⟩ := hknown k source language hk htold
        obtain rfl : classB = tree := Option.some.inj htree
        exact hruns k hlt)
  refine ⟨hids, results, hresults, hlength, (hall 1 readme rfl).1.2 hreadme, ?_⟩
  have hsome : ¬ Language.NoneToldBy scriptB.path := by
    rw [← Language.ofPath?_eq_none_iff, hscript]
    exact Option.some_ne_none _
  obtain ⟨-, -, outline, -, -, -, houtline, hfile, -⟩ := (hall 2 scriptB rfl).2 hsome
  exact ⟨outline, houtline, hfile⟩

end SourceSet

end DocOutline
