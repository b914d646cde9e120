import DocOutline.Proofs.Assignment

/-!
# Reconciling keeps all entries and only adds flags

The outline that the plan gives has all pairs, in order and unchanged but for the properties of
their contexts, and then the declarations without a target, in order and unchanged
(`Plan.apply_make_conserves`). A pair takes in its declarations one after another, and each of
them is merged into the context. So a flag of the context is set in the end if it was set from
the beginning or in one of the declarations, however they follow one another
(`Entry.flag?_foldl_takesOver_iff`).
-/

namespace DocOutline

/-! ## Flags -/

/-- What properties can say of a declaration. -/
inductive Flag where
  | exported
  | exportedByDefault
  | extending
  | implementing
  | nameSpace
  | ambientModule
  deriving DecidableEq, Repr

namespace Properties

theorem mergeWith_none {α : Type} (f : α → α → α) (a : Option α) : mergeWith f a none = a := by
  cases a <;> rfl

theorem mergeWith_eq_some_true_iff (a b : Option Bool) :
    mergeWith (· || ·) a b = some true ↔ a = some true ∨ b = some true := by
  revert a b
  decide

theorem isSome_mergeWith_iff {α : Type} (f : α → α → α) (a b : Option α) :
    (mergeWith f a b).isSome = true ↔ a.isSome = true ∨ b.isSome = true := by
  cases a <;> cases b <;> simp [mergeWith]

/-- What the properties say of a flag, if anything. -/
def flag? (p : Properties) : Flag → Option Bool
  | .exported => p.exports.map (·.isExported)
  | .exportedByDefault => p.exports.map (·.isDefault)
  | .extending => p.inheritance.map (·.extending)
  | .implementing => p.inheritance.map (·.implementing)
  | .nameSpace => p.nameSpace
  | .ambientModule => p.ambientModule

@[simp] theorem flag?_empty (flag : Flag) : empty.flag? flag = none := by
  cases flag <;> rfl

theorem flag?_merge (p q : Properties) (flag : Flag) :
    (p.merge q).flag? flag = mergeWith (· || ·) (p.flag? flag) (q.flag? flag) := by
  obtain ⟨pexports, pinheritance, pnameSpace, pmodule⟩ := p
  obtain ⟨qexports, qinheritance, qnameSpace, qmodule⟩ := q
  cases flag with
  | exported | exportedByDefault => cases pexports <;> cases qexports <;> rfl
  | extending | implementing => cases pinheritance <;> cases qinheritance <;> rfl
  | nameSpace | ambientModule => rfl

end Properties

namespace Entry

/-- What the properties of the entry say of a flag, if anything. -/
def flag? (entry : Entry) (flag : Flag) : Option Bool :=
  entry.properties.bind (·.flag? flag)

/-- The entry without the properties of its context. -/
def bare (entry : Entry) : Entry :=
  { entry with context := entry.context.map fun context => { context with properties := none } }

theorem flag?_mergeProperties (entry : Entry) (more : Properties) (flag : Flag) :
    (entry.mergeProperties more).flag? flag =
      Properties.mergeWith (· || ·) (entry.flag? flag) (more.flag? flag) := by
  unfold mergeProperties
  split_ifs with hempty
  · have hmore : more = .empty := by simpa [Properties.isEmpty] using hempty
    rw [hmore, Properties.flag?_empty, Properties.mergeWith_none]
  · simp only [flag?, Option.bind_some, Properties.flag?_merge]
    cases entry.properties <;> simp

/-! ## One declaration taken in -/

/-- The context with the properties of a declaration. -/
def takesOver (context decl : Entry) : Entry :=
  match decl.properties with
  | some properties => context.mergeProperties properties
  | none => context

theorem flag?_takesOver (context decl : Entry) (flag : Flag) :
    (context.takesOver decl).flag? flag =
      Properties.mergeWith (· || ·) (context.flag? flag) (decl.flag? flag) := by
  unfold takesOver
  cases h : decl.properties with
  | none => simp [flag?, h, Properties.mergeWith_none]
  | some properties =>
    rw [flag?_mergeProperties]
    simp [flag?, h]

/-- The entry has properties that are not empty. -/
def HasProperties (entry : Entry) : Prop :=
  ∃ properties, entry.properties = some properties ∧ properties.isEmpty = false

theorem isSome_properties_takesOver_iff (context decl : Entry) :
    (context.takesOver decl).properties.isSome = true ↔
      context.properties.isSome = true ∨ decl.HasProperties := by
  unfold takesOver HasProperties
  cases decl.properties with
  | none => simp
  | some properties =>
    simp only [mergeProperties]
    split_ifs with hempty <;> simp [hempty]

/-- What holds after one declaration if it held before or the declaration has it holds after
many if it held before or one of them has it. -/
theorem foldl_takesOver_iff {P Q : Entry → Prop}
    (h : ∀ context decl, P (context.takesOver decl) ↔ P context ∨ Q decl) (context : Entry)
    (decls : List Entry) :
    P (decls.foldl takesOver context) ↔ P context ∨ ∃ decl ∈ decls, Q decl := by
  induction decls generalizing context with
  | nil => simp
  | cons decl decls ih => rw [List.foldl_cons, ih, h]; simp [or_assoc]

section Fold

variable (context : Entry) (decls : List Entry) (flag : Flag)

theorem flag?_foldl_takesOver_iff :
    (decls.foldl takesOver context).flag? flag = some true ↔
      context.flag? flag = some true ∨ ∃ decl ∈ decls, decl.flag? flag = some true := by
  apply foldl_takesOver_iff (P := fun e => e.flag? flag = some true)
  intro context decl
  rw [flag?_takesOver, Properties.mergeWith_eq_some_true_iff]

theorem isSome_flag?_foldl_takesOver_iff :
    ((decls.foldl takesOver context).flag? flag).isSome = true ↔
      (context.flag? flag).isSome = true ∨ ∃ decl ∈ decls, (decl.flag? flag).isSome = true := by
  apply foldl_takesOver_iff (P := fun e => (e.flag? flag).isSome = true)
  intro context decl
  rw [flag?_takesOver, Properties.isSome_mergeWith_iff]

theorem isSome_properties_foldl_takesOver_iff :
    (decls.foldl takesOver context).properties.isSome = true ↔
      context.properties.isSome = true ∨ ∃ decl ∈ decls, decl.HasProperties :=
  foldl_takesOver_iff (P := fun e => e.properties.isSome = true) isSome_properties_takesOver_iff
    context decls

end Fold

end Entry

namespace Plan

theorem context_absorb (decl pair : Entry) :
    (absorb decl pair).context = pair.context.map (·.takesOver decl) := by
  unfold absorb Entry.takesOver
  cases hcontext : pair.context <;> cases decl.properties <;> simp [hcontext]

theorem bare_absorb (decl pair : Entry) : (absorb decl pair).bare = pair.bare := by
  unfold absorb
  split
  · rename_i context properties hcontext _
    simp only [Entry.bare, hcontext, Option.map_some]
    unfold Entry.mergeProperties
    split_ifs <;> rfl
  · rfl

/-! ## All declarations taken in -/

/-- The declarations that go to pair `j`, in order. -/
def takenBy (plan : Plan) (decls : List Entry) (j : Nat) : List Entry :=
  ((decls.zip plan.targets).filter (·.2 == some j)).map (·.1)

/-- The declarations without a target, in order. -/
def untaken (plan : Plan) (decls : List Entry) : List Entry :=
  ((decls.zip plan.targets).filter (·.2.isNone)).map (·.1)

/-- The declaration goes to pair `j`. -/
def Sends (plan : Plan) (decls : List Entry) (decl : Entry) (j : Nat) : Prop :=
  ∃ i : Nat, decls[i]? = some decl ∧ plan.targets[i]? = some (some j)

theorem mem_takenBy_iff {plan : Plan} {decls : List Entry} {j : Nat} {decl : Entry} :
    decl ∈ plan.takenBy decls j ↔ plan.Sends decls decl j := by
  simp only [takenBy, Sends, List.mem_map, List.mem_filter, beq_iff_eq]
  constructor
  · rintro ⟨⟨_, target⟩, ⟨hmem, rfl⟩, rfl⟩
    obtain ⟨i, hi⟩ := List.mem_iff_getElem?.1 hmem
    exact ⟨i, List.getElem?_zip_eq_some.1 hi⟩
  · rintro ⟨i, hi⟩
    exact ⟨(decl, some j), ⟨List.mem_iff_getElem?.2 ⟨i, List.getElem?_zip_eq_some.2 hi⟩, rfl⟩, rfl⟩

/-- A pair takes in the declarations that go to it, one after another, and no others. -/
theorem map_context_taken (plan : Plan) (pairs decls : List Entry) (j : Nat) :
    (plan.taken pairs decls)[j]?.map (·.context) =
      pairs[j]?.map fun pair =>
        pair.context.map ((plan.takenBy decls j).foldl Entry.takesOver) := by
  unfold taken takenBy
  generalize decls.zip plan.targets = aimed
  induction aimed generalizing pairs with
  | nil => simp
  | cons aim aimed ih =>
    rw [List.foldl_cons, ih]
    obtain ⟨decl, target⟩ := aim
    cases target with
    | none => simp [takeIn]
    | some k =>
      simp only [takeIn, List.getElem?_modify]
      by_cases hk : k = j
      · subst hk
        cases pairs[k]? <;> simp [context_absorb, Function.comp_def]
      · simp [hk]

/-- Every target is the number of a pair, so what is left are the declarations without one. -/
theorem left_make (pairs decls : List Entry) :
    (make pairs decls).left pairs decls = (make pairs decls).untaken decls := by
  rw [left, untaken]
  congr 1
  apply List.filter_congr
  rintro ⟨decl, target⟩ hmem
  obtain ⟨i, hi⟩ := List.mem_iff_getElem?.1 hmem
  obtain ⟨-, htarget⟩ := List.getElem?_zip_eq_some.1 hi
  cases target with
  | none => rfl
  | some j =>
    have hlt : j < pairs.length := by
      rcases (target_iff pairs decls i j).1 htarget with ⟨_, -, hleast⟩ | ⟨_, -, -, hleast⟩ <;>
        exact lt_length_of_mem_indicesWith hleast.1
    simp [isUnclaimed, hlt]

theorem length_taken (plan : Plan) (pairs decls : List Entry) :
    (plan.taken pairs decls).length = pairs.length := by
  simpa using congrArg List.length (map_taken bare_absorb plan pairs decls)

theorem length_untaken (pairs decls : List Entry) :
    ((make pairs decls).untaken decls).length + (make pairs decls).duplicates +
      (make pairs decls).matched = decls.length := by
  have hlength := length_targets pairs decls
  have huntaken : ((make pairs decls).untaken decls).length =
      (make pairs decls).targets.countP Option.isNone := by
    have hzip : (decls.zip (make pairs decls).targets).map (·.2) = (make pairs decls).targets :=
      List.map_snd_zip (Nat.le_of_eq hlength)
    rw [untaken, List.length_map, ← List.countP_eq_length_filter, ← hzip, List.countP_map, hzip]
    rfl
  have hsplit : (make pairs decls).targets.length =
      (make pairs decls).targets.countP Option.isSome +
        (make pairs decls).targets.countP Option.isNone := by
    rw [List.length_eq_countP_add_countP Option.isSome]
    congr 2
    funext target
    cases target <;> rfl
  have htaken := countP_isSome_targets pairs decls
  omega

/-! ## The outline -/

/-- How the outline follows from the pairs and the declarations. -/
structure Conserves (plan : Plan) (pairs decls output : List Entry) : Prop where
  /-- Every pair and every declaration is there, is a duplicate or is matched. -/
  length : output.length + plan.duplicates + plan.matched = pairs.length + decls.length
  /-- The pairs come first; only the properties of their contexts may change. -/
  pairsFirst : (output.take pairs.length).map Entry.bare = pairs.map Entry.bare
  /-- The declarations without a target follow as they are. -/
  restAfter : output.drop pairs.length = plan.untaken decls
  /-- None of these starts where the context of a pair starts. -/
  undocumented : ∀ decl ∈ plan.untaken decls, Undocumented pairs decl
  /-- A context has the flags that it had and those of the declarations that go to its pair, and
  it has properties if it had some or one of these declarations has some that are not empty. -/
  contexts : ∀ (j : Nat) (pair context : Entry), pairs[j]? = some pair →
    pair.context = some context → ∃ pair' context', output[j]? = some pair' ∧
      pair'.context = some context' ∧
      (∀ flag, context'.flag? flag = some true ↔
        context.flag? flag = some true ∨
          ∃ decl, plan.Sends decls decl j ∧ decl.flag? flag = some true) ∧
      (∀ flag, (context'.flag? flag).isSome = true ↔
        (context.flag? flag).isSome = true ∨
          ∃ decl, plan.Sends decls decl j ∧ (decl.flag? flag).isSome = true) ∧
      (context'.properties.isSome = true ↔
        context.properties.isSome = true ∨
          ∃ decl, plan.Sends decls decl j ∧ decl.HasProperties)

/-- Applying the plan keeps every pair and every declaration that no pair takes in; what a pair
takes in only adds flags to its context. -/
theorem apply_make_conserves (pairs decls : List Entry) :
    (make pairs decls).Conserves pairs decls ((make pairs decls).apply pairs decls) := by
  have htaken := length_taken (make pairs decls) pairs decls
  have happly : (make pairs decls).apply pairs decls =
      (make pairs decls).taken pairs decls ++ (make pairs decls).untaken decls := by
    rw [apply_eq, left_make]
  rw [happly]
  constructor
  case length =>
    have := length_untaken pairs decls
    rw [List.length_append]
    omega
  case pairsFirst => rw [← htaken, List.take_left, map_taken bare_absorb]
  case restAfter => rw [← htaken, List.drop_left]
  case undocumented =>
    intro decl hdecl
    rw [← left_make] at hdecl
    obtain ⟨i, -, hdup, -⟩ := mem_left_iff.1 hdecl
    exact duplicateOf?_eq_none_iff.1 hdup
  case contexts =>
    intro j pair context hpair hcontext
    have hmap := map_context_taken (make pairs decls) pairs decls j
    rw [hpair, Option.map_some, hcontext, Option.map_some] at hmap
    obtain ⟨pair', hpair', hcontext'⟩ := Option.map_eq_some_iff.1 hmap
    have hlt := (List.getElem?_eq_some_iff.1 hpair').1
    refine ⟨pair', _, by rw [List.getElem?_append_left hlt, hpair'], hcontext', ?_⟩
    simp only [← mem_takenBy_iff]
    exact ⟨Entry.flag?_foldl_takesOver_iff context _,
      Entry.isSome_flag?_foldl_takesOver_iff context _,
      Entry.isSome_properties_foldl_takesOver_iff context _⟩

end Plan

end DocOutline
