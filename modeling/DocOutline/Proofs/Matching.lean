import DocOutline.Proofs.Reconcile
import Mathlib.Data.List.Forall2

/-!
# Outlines that match

Two outlines match entry by entry under a relation that keeps what reconciling looks at: kinds,
properties, children, contexts, and which keys are equal. The plan for pairs and declarations is
then the same on both sides, and so are the outlines that it gives, up to the relation
(`Matching.apply_make`).
-/

namespace DocOutline

/-- What two outlines have in common that match entry by entry. -/
structure Matching (Same : Entry → Entry → Prop) : Prop where
  kind : ∀ {a b}, Same a b → a.kind = b.kind
  properties : ∀ {a b}, Same a b → a.properties = b.properties
  children : ∀ {a b}, Same a b → List.Forall₂ Same a.children b.children
  context : ∀ {a b}, Same a b → Option.Rel Same a.context b.context
  /-- Keys that are equal on one side are equal on the other. -/
  key : ∀ {a b c d}, Same a b → Same c d → (a.key = c.key ↔ b.key = d.key)
  mergeProperties : ∀ {a b}, Same a b → ∀ more,
    Same (a.mergeProperties more) (b.mergeProperties more)
  withContext : ∀ {a b c d}, Same a b → Same c d →
    Same { a with context := some c } { b with context := some d }

/-- Entries that are equal match. -/
theorem Matching.eq : Matching Eq where
  kind h := congrArg Entry.kind h
  properties h := congrArg Entry.properties h
  children h := by
    subst h
    exact List.forall₂_refl _
  context {a b} h := by
    subst h
    cases a.context with
    | none => exact .none
    | some context => exact .some rfl
  key h h' := by rw [h, h']
  mergeProperties h more := by rw [h]
  withContext h h' := by rw [h, h']

section Lists

variable {α β γ : Type} {R : α → β → Prop} {xs : List α} {ys : List β}

theorem map_eq_of_forall₂ (h : List.Forall₂ R xs ys) {f : α → γ} {g : β → γ}
    (hfg : ∀ a b, R a b → f a = g b) : xs.map f = ys.map g := by
  induction h with
  | nil => rfl
  | cons hab _ ih => rw [List.map_cons, List.map_cons, hfg _ _ hab, ih]

theorem rel_getElem? (h : List.Forall₂ R xs ys) (i : Nat) : Option.Rel R xs[i]? ys[i]? := by
  induction h generalizing i with
  | nil => exact .none
  | cons hab _ ih =>
    cases i with
    | zero => exact .some hab
    | succ i => exact ih i

theorem forall₂_modify (h : List.Forall₂ R xs ys) {f : α → α} {g : β → β}
    (hfg : ∀ a b, R a b → R (f a) (g b)) (i : Nat) :
    List.Forall₂ R (xs.modify i f) (ys.modify i g) := by
  induction h generalizing i with
  | nil => simp
  | cons hab hrest ih =>
    cases i with
    | zero => exact .cons (hfg _ _ hab) hrest
    | succ i => exact .cons hab (ih i)

theorem any_eq_of_rel {a : Option α} {b : Option β} (h : Option.Rel R a b) {f : α → Bool}
    {g : β → Bool} (hfg : ∀ x y, R x y → f x = g y) : a.any f = b.any g := by
  cases h with
  | none => rfl
  | some hxy => exact hfg _ _ hxy

end Lists

namespace Matching

variable {Same : Entry → Entry → Prop} {pairs pairs' decls decls' : List Entry}
  {decl decl' : Entry}

theorem duplicateOf?_eq (h : Matching Same) (hpairs : List.Forall₂ Same pairs pairs')
    (hdecl : Same decl decl') : duplicateOf? pairs decl = duplicateOf? pairs' decl' := by
  rw [duplicateOf?_eq_findIdx?, duplicateOf?_eq_findIdx?]
  have hfound : pairs.map (fun pair => pair.context.any (·.key == decl.key)) =
      pairs'.map (fun pair => pair.context.any (·.key == decl'.key)) := by
    refine map_eq_of_forall₂ hpairs fun pair pair' hpair => ?_
    refine any_eq_of_rel (h.context hpair) fun context context' hcontext => ?_
    rw [Bool.eq_iff_iff, beq_iff_eq, beq_iff_eq, h.key hcontext hdecl]
  have hindex := congrArg (List.findIdx? id) hfound
  rwa [List.findIdx?_map, List.findIdx?_map] at hindex

theorem claimants (h : Matching Same) {pair pair' : Entry} (hpair : Same pair pair') :
    List.Forall₂ Same (Claim.claimants pair) (Claim.claimants pair') := by
  have hcontext := h.context hpair
  unfold Claim.claimants
  generalize pair.context = context, pair'.context = context' at hcontext
  cases hcontext with
  | none => exact .nil
  | some hcontext => exact h.children hcontext

theorem matchOf?_eq (h : Matching Same) (hpairs : List.Forall₂ Same pairs pairs')
    (hdecl : Same decl decl') (position : Nat) :
    matchOf? pairs position decl = matchOf? pairs' position decl' := by
  have hfound : pairs.map (fun pair => (Claim.claimants pair)[position]?.any
        (·.kind == decl.kind)) =
      pairs'.map (fun pair => (Claim.claimants pair)[position]?.any (·.kind == decl'.kind)) := by
    refine map_eq_of_forall₂ hpairs fun pair pair' hpair => ?_
    refine any_eq_of_rel (rel_getElem? (h.claimants hpair) position) fun child child' hchild => ?_
    rw [h.kind hchild, h.kind hdecl]
  have hindex := congrArg (List.findIdx? id) hfound
  rwa [List.findIdx?_map, List.findIdx?_map] at hindex

theorem rank_eq (h : Matching Same) (hpairs : List.Forall₂ Same pairs pairs')
    (hdecls : List.Forall₂ Same decls decls') (i : Nat) :
    Plan.rank pairs decls i = Plan.rank pairs' decls' i := by
  have hopen : decls.map (fun decl => (duplicateOf? pairs decl).isNone) =
      decls'.map (fun decl => (duplicateOf? pairs' decl).isNone) :=
    map_eq_of_forall₂ hdecls fun decl decl' hdecl => by rw [h.duplicateOf?_eq hpairs hdecl]
  have hcount := congrArg (fun l => (l.take i).countP id) hopen
  simp only [← List.map_take, List.countP_map] at hcount
  exact hcount

/-- Lists that match are reconciled by the same plan. -/
theorem targets_eq (h : Matching Same) (hpairs : List.Forall₂ Same pairs pairs')
    (hdecls : List.Forall₂ Same decls decls') :
    (Plan.make pairs decls).targets = (Plan.make pairs' decls').targets := by
  refine List.ext_getElem? fun i => ?_
  have hdecl := rel_getElem? hdecls i
  rw [Plan.getElem?_targets, Plan.getElem?_targets, h.rank_eq hpairs hdecls]
  generalize decls[i]? = decl, decls'[i]? = decl' at hdecl
  cases hdecl with
  | none => rfl
  | some hdecl =>
    simp only [Option.map_some, h.duplicateOf?_eq hpairs hdecl, h.matchOf?_eq hpairs hdecl]

theorem absorb (h : Matching Same) (hdecl : Same decl decl') {pair pair' : Entry}
    (hpair : Same pair pair') : Same (Plan.absorb decl pair) (Plan.absorb decl' pair') := by
  have hcontext := h.context hpair
  unfold Plan.absorb
  rw [h.properties hdecl]
  generalize pair.context = context, pair'.context = context' at hcontext
  cases hcontext with
  | none => exact hpair
  | some hcontext =>
    cases decl'.properties with
    | none => exact hpair
    | some properties => exact h.withContext hpair (h.mergeProperties hcontext properties)

theorem taken (h : Matching Same) (targets : List (Option Nat))
    (hpairs : List.Forall₂ Same pairs pairs') (hdecls : List.Forall₂ Same decls decls') :
    List.Forall₂ Same ((decls.zip targets).foldl Plan.takeIn pairs)
      ((decls'.zip targets).foldl Plan.takeIn pairs') := by
  induction hdecls generalizing targets pairs pairs' with
  | nil => exact hpairs
  | cons hdecl _ ih =>
    cases targets with
    | nil => exact hpairs
    | cons target targets =>
      refine ih targets ?_
      cases target with
      | none => exact hpairs
      | some j => exact forall₂_modify hpairs (fun a b hab => h.absorb hdecl hab) j

theorem left (targets : List (Option Nat)) (hdecls : List.Forall₂ Same decls decls')
    (f : Option Nat → Bool) :
    List.Forall₂ Same (((decls.zip targets).filter fun (_, target) => f target).map (·.1))
      (((decls'.zip targets).filter fun (_, target) => f target).map (·.1)) := by
  induction hdecls generalizing targets with
  | nil => exact .nil
  | cons hdecl _ ih =>
    cases targets with
    | nil => exact .nil
    | cons target targets =>
      rw [List.zip_cons_cons, List.zip_cons_cons, List.filter_cons, List.filter_cons]
      split_ifs
      · exact .cons hdecl (ih targets)
      · exact ih targets

/-- Lists that match give outlines that match. -/
theorem apply_make (h : Matching Same) (hpairs : List.Forall₂ Same pairs pairs')
    (hdecls : List.Forall₂ Same decls decls') :
    List.Forall₂ Same ((Plan.make pairs decls).apply pairs decls)
      ((Plan.make pairs' decls').apply pairs' decls') := by
  simp only [Plan.apply_eq, Plan.taken, Plan.left, h.targets_eq hpairs hdecls, hpairs.length_eq]
  exact List.rel_append (h.taken _ hpairs hdecls) (left _ hdecls _)

end Matching

end DocOutline
