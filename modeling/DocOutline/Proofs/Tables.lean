import DocOutline.Syntax.CommentNode
import DocOutline.Syntax.Language
import DocOutline.Walk.Program
import Mathlib.Tactic.ByContra
import Mathlib.Tactic.SplitIfs

/-!
# What the tables agree on

Every table puts comments and errors into buckets of their own. The tables of the languages
agree further: a comment has the rule of comments, an error has no rule, and neither of the two
stands at the top level by itself. What has any other rule is a node with children, and no kind
with a bucket is noise.
-/

namespace DocOutline

theorem isNoise_comment : isNoise commentKind = false := by decide

/-- Noise is short: three dots, or one character. -/
theorem isNoise_of_lt_utf8ByteSize {kind : String} (h : 4 < kind.utf8ByteSize) :
    isNoise kind = false := by
  have hdots : kind ≠ "..." := by
    rintro rfl
    exact absurd h (by decide)
  rw [isNoise, beq_false_of_ne hdots, Bool.false_or]
  split
  · rename_i c hchar
    have hsize := c.utf8Size_le_four
    rw [← kind.ofList_toList, hchar] at h
    simp only [String.ofList_cons, String.ofList_nil, String.append_empty,
      String.utf8ByteSize_singleton] at h
    omega
  · rfl

namespace Table

theorem bucket?_eq_error_iff {table : Table} {kind : String} :
    table.bucket? kind = some .error ↔ kind = errorKind := by
  constructor
  · intro h
    by_contra hne
    simp only [bucket?, if_neg hne] at h
    split_ifs at h <;> cases h
  · rintro rfl
    rfl

theorem bucket?_eq_comment_iff {table : Table} {kind : String} :
    table.bucket? kind = some .comment ↔ kind = commentKind := by
  constructor
  · intro h
    by_contra hne
    simp only [bucket?, if_neg hne] at h
    split_ifs at h <;> cases h
  · rintro rfl
    rfl

theorem bucket?_eq_root_iff {table : Table} {kind : String} :
    table.bucket? kind = some .root ↔ kind = rootKind := by
  constructor
  · intro h
    by_contra hne
    simp only [bucket?, if_neg hne] at h
    split_ifs at h <;> cases h
  · rintro rfl
    rfl

theorem rule?_eq_some {table : Table} {kind : String} {rule : Rule}
    (h : table.rule? kind = some rule) : rule ∈ table.rules ∧ rule.kind = kind := by
  have hkind := List.find?_some h
  exact ⟨List.mem_of_find?_eq_some h, beq_iff_eq.1 hkind⟩

theorem bucket?_of_isComment (table : Table) {tree : Tree} (h : tree.isComment = true) :
    table.bucket? tree.kind = some .comment :=
  bucket?_eq_comment_iff.2 (beq_iff_eq.1 h)

end Table

namespace Language

theorem rule?_comment (language : Language) :
    language.table.rule? commentKind = some ⟨commentKind, .comment, none, []⟩ := by
  cases language <;> decide

theorem rule?_error (language : Language) : language.table.rule? errorKind = none := by
  cases language <;> decide

/-- Only comments have the rule of comments. -/
theorem kind_eq_of_role_comment (language : Language) {kind : String} {rule : Rule}
    (h : language.table.rule? kind = some rule) (hrole : rule.role = .comment) :
    kind = commentKind := by
  have hall : ∀ rule ∈ language.table.rules, rule.role = .comment → rule.kind = commentKind := by
    cases language <;> decide
  obtain ⟨hmem, rfl⟩ := Table.rule?_eq_some h
  exact hall rule hmem hrole

/-- No comment stands at the top level by itself. -/
theorem isTopLevel_of_isComment (language : Language) {tree : Tree}
    (h : tree.isComment = true) : language.table.isTopLevel tree = false := by
  have hkind : tree.kind = commentKind := beq_iff_eq.1 h
  simp only [Table.isTopLevel, hkind, rule?_comment]
  cases language <;> rfl

/-- No error stands at the top level by itself. -/
theorem isTopLevel_of_error (language : Language) {tree : Tree} (h : tree.kind = errorKind) :
    language.table.isTopLevel tree = false := by
  simp only [Table.isTopLevel, h, rule?_error]
  cases language <;> rfl

/-- Exporting and wrapping statements are no noise. -/
theorem isNoise_of_statement (language : Language) {kind : String} {rule : Rule}
    (h : language.table.rule? kind = some rule)
    (hrole : rule.role = .exporter ∨ rule.role = .wrapper) : isNoise kind = false := by
  have hall : ∀ rule ∈ language.table.rules, rule.role = .exporter ∨ rule.role = .wrapper →
      isNoise rule.kind = false := by
    cases language <;> decide
  obtain ⟨hmem, rfl⟩ := Table.rule?_eq_some h
  exact hall rule hmem hrole

/-- The tokens of an exporting statement, and the decorators before its declaration, have no
rule. -/
theorem rule?_of_token (language : Language) {kind : String}
    (h : kind ∈ [exportKind, defaultKind, decoratorKind]) : language.table.rule? kind = none := by
  have hall : ∀ kind ∈ [exportKind, defaultKind, decoratorKind],
      language.table.rule? kind = none := by
    cases language <;> decide
  exact hall kind h

/-- A kind is that of a declaration exactly if it has a rule and is no comment. -/
theorem isDeclaration_iff (language : Language) {kind : String} :
    language.table.isDeclaration kind = true ↔
      language.table.rule? kind ≠ none ∧ kind ≠ commentKind := by
  rw [Table.isDeclaration]
  cases hrule : language.table.rule? kind with
  | none => simp
  | some rule =>
    have hcomment : rule.role = .comment ↔ kind = commentKind := by
      refine ⟨language.kind_eq_of_role_comment hrule, ?_⟩
      rintro rfl
      rw [language.rule?_comment] at hrule
      cases hrule
      rfl
    simp [← hcomment]

/-- Every kind with a rule, comments apart, is that of a node with children. -/
theorem bucket?_of_rule (language : Language) {kind : String} {rule : Rule}
    (h : language.table.rule? kind = some rule) (hrole : rule.role ≠ .comment) :
    language.table.bucket? kind = some .nonTerminal := by
  have hall : ∀ rule ∈ language.table.rules, rule.role ≠ .comment →
      language.table.bucket? rule.kind = some .nonTerminal := by
    cases language <;> decide +kernel
  obtain ⟨hmem, rfl⟩ := Table.rule?_eq_some h
  exact hall rule hmem hrole

/-- A heritage clause is a node with children, if the table knows it at all. -/
theorem bucket?_of_isHeritage (language : Language) {kind : String}
    (h : language.table.isHeritage kind = true) :
    language.table.bucket? kind = none ∨ language.table.bucket? kind = some .nonTerminal := by
  have hall : ∀ kind ∈ language.table.heritage,
      language.table.bucket? kind = none ∨ language.table.bucket? kind = some .nonTerminal := by
    cases language <;> decide +kernel
  exact hall kind (List.contains_iff_mem.1 h)

/-- No kind with a bucket is noise. -/
theorem isNoise_of_bucket (language : Language) {kind : String} {bucket : Bucket}
    (h : language.table.bucket? kind = some bucket) : isNoise kind = false := by
  -- The third language has all kinds of the others. Few kinds are short enough to be looked at.
  have hlists : language.table.nonTerminals ++ language.table.terminals ⊆
      tsxTable.nonTerminals ++ tsxTable.terminals := by
    cases language <;> simp only [table, javaScriptTable, typeScriptTable, tsxTable] <;> grind
  have hshort : ∀ kind ∈ tsxTable.nonTerminals ++ tsxTable.terminals,
      4 < kind.utf8ByteSize ∨ isNoise kind = false := by
    decide +kernel
  have hall := fun kind hkind => (hshort kind (hlists hkind)).elim isNoise_of_lt_utf8ByteSize id
  unfold Table.bucket? at h
  split_ifs at h with herror hcomment hroot hnode htoken
  · rw [herror]
    decide
  · rw [hcomment, isNoise_comment]
  · rw [hroot]
    decide
  · exact hall kind (List.mem_append_left _ (List.contains_iff_mem.1 hnode))
  · exact hall kind (List.mem_append_right _ (List.contains_iff_mem.1 htoken))

/-- No comment is a keyword. -/
theorem isKeyword_comment (language : Language) {kind : String} {rule : Rule}
    (h : language.table.rule? kind = some rule) : rule.isKeyword commentKind = false := by
  have hall : ∀ rule ∈ language.table.rules, rule.isKeyword commentKind = false := by
    cases language <;> decide
  exact hall rule (Table.rule?_eq_some h).1

theorem isHeritage_comment (language : Language) :
    language.table.isHeritage commentKind = false := by
  cases language <;> decide

theorem isNameSpace_comment (language : Language) :
    language.table.isNameSpace commentKind = false := by
  cases language <;> decide

theorem isDeclaration_of_isNameSpace (language : Language) {kind : String}
    (h : language.table.isNameSpace kind = true) : language.table.isDeclaration kind = true := by
  have hall : ∀ kind ∈ language.table.nameSpaces, language.table.isDeclaration kind = true := by
    cases language <;> decide
  exact hall kind (List.contains_iff_mem.1 h)

/-- A statement around a declaration is at the top level only for the namespace inside it. -/
theorem exists_nameSpace_of_isTopLevel (language : Language) {tree : Tree} {rule : Rule}
    (hrule : language.table.rule? tree.kind = some rule) (hrole : rule.role = .wrapper)
    (htop : language.table.isTopLevel tree = true) :
    ∃ child ∈ tree.children, rule.isKeyword child.kind = false ∧
      language.table.isNameSpace child.kind = true := by
  have hall : ∀ kind ∈ language.table.exporters ++ language.table.nameSpaces,
      (language.table.rule? kind).all (·.role != .wrapper) = true := by
    cases language <;> decide
  have hnot : ¬ (language.table.isExporter tree.kind = true ∨
      language.table.isNameSpace tree.kind = true) := by
    intro h
    have := hall tree.kind (List.mem_append.2 (h.imp List.contains_iff_mem.1
      List.contains_iff_mem.1))
    simp [hrule, hrole] at this
  simp only [not_or, Bool.not_eq_true] at hnot
  simp only [Table.isTopLevel, hnot, hrule, hrole, Bool.false_or, beq_self_eq_true,
    Bool.true_and, Option.any_eq_true] at htop
  obtain ⟨child, hchild, hspace⟩ := htop
  have hfound := List.find?_some hchild
  simp only [Bool.and_eq_true, Bool.not_eq_true'] at hfound
  exact ⟨child, List.mem_of_find?_eq_some hchild, hfound.2, hspace⟩

end Language

end DocOutline
