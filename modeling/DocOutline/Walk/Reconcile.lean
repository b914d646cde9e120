import DocOutline.Walk.Basic

/-!
# Reconciling documented pairs with declarations

A program yields two lists: pairs, which are documentation comments with the declaration that
each documents as its context, and top-level declarations. A declaration may appear in both. The
plan gives each declaration a target, the pair that takes it in, or none:

* the starts of all contexts are entered in a map, where the first pair stays, and a declaration
  that starts at one of them is a duplicate, with the pair that is entered there as its target;
* the other declarations are counted off, and the one at position `i` goes to the first pair
  whose context has a child of the same kind at position `i`.

Applying the plan merges the properties of the declarations into their targets. The pairs come
first, then the declarations without a target.
-/

namespace DocOutline

/-! ## Duplicates -/

/-- Points where contexts start, each with the number of a pair. -/
abbrev ContextMap : Type :=
  List (Point × Nat)

namespace ContextMap

/-- A point that has a number keeps it. -/
def insertNew (contexts : ContextMap) (point : Point) (owner : Nat) : ContextMap :=
  if (contexts.lookup point).isSome then contexts else (point, owner) :: contexts

/-- The start of the context of a pair is entered, if the pair has one. -/
def enter (owner : Nat) (pair : Entry) (contexts : ContextMap) : ContextMap :=
  match pair.context with
  | some context => contexts.insertNew context.key owner
  | none => contexts

/-- The pairs are entered in order; the first of them has number `owner`. -/
def enterAll (owner : Nat) : List Entry → ContextMap → ContextMap
  | [], contexts => contexts
  | pair :: pairs, contexts => enterAll (owner + 1) pairs (enter owner pair contexts)

end ContextMap

/-- The pair whose context is entered where the declaration starts. -/
def duplicateOf? (pairs : List Entry) (decl : Entry) : Option Nat :=
  (ContextMap.enterAll 0 pairs []).lookup decl.key

/-! ## Matches -/

/-- A declaration that is no duplicate, and the pair that has claimed it. -/
structure Claim where
  decl : Entry
  owner : Option Nat

namespace Claim

/-- A child claims a free declaration of its kind. -/
def fits (claim : Claim) (child : Entry) : Bool :=
  claim.owner.isNone && child.kind == claim.decl.kind

/-- The children of one context claim, each at its position. -/
def sweep (owner : Nat) : List Entry → List Claim → List Claim
  | child :: children, claim :: claims =>
    (if claim.fits child then { claim with owner := some owner } else claim) ::
      sweep owner children claims
  | _, claims => claims

/-- The notes of one sweep. -/
def sweepNotes (position : Nat) : List Entry → List Claim → List Note
  | child :: children, claim :: claims =>
    (if claim.fits child then [.matchFound position child.kind] else []) ++
      sweepNotes (position + 1) children claims
  | _, _ => []

/-- The children of the context of a pair. -/
def claimants (pair : Entry) : List Entry :=
  (pair.context.map (·.children)).getD []

/-- The pairs claim in order; the first of them has number `owner`. -/
def sweepAll (owner : Nat) : List Entry → List Claim → List Claim
  | [], claims => claims
  | pair :: pairs, claims => sweepAll (owner + 1) pairs (sweep owner (claimants pair) claims)

/-- The notes of all sweeps. -/
def sweepAllNotes (owner : Nat) : List Entry → List Claim → List Note
  | [], _ => []
  | pair :: pairs, claims =>
    sweepNotes 0 (claimants pair) claims ++
      sweepAllNotes (owner + 1) pairs (sweep owner (claimants pair) claims)

end Claim

/-! ## The plan -/

/-- What becomes of each declaration. -/
structure Plan where
  /-- For each declaration the pair that takes it in. -/
  targets : List (Option Nat)
  duplicates : Nat
  matched : Nat
  deriving DecidableEq, Repr

namespace Plan

/-- The targets of duplicates, with the owners of the claims in the free places. -/
def fill : List (Option Nat) → List Claim → List (Option Nat)
  | [], _ => []
  | some target :: targets, claims => some target :: fill targets claims
  | none :: targets, claim :: claims => claim.owner :: fill targets claims
  | none :: targets, [] => none :: fill targets []

/-- The declarations that are no duplicates, not claimed yet. -/
def openClaims (pairs decls : List Entry) : List Claim :=
  (decls.filter fun decl => (duplicateOf? pairs decl).isNone).map (⟨·, none⟩)

/-- The plan for pairs and declarations. -/
def make (pairs decls : List Entry) : Plan :=
  let duplicates := decls.map (duplicateOf? pairs)
  let claims := Claim.sweepAll 0 pairs (openClaims pairs decls)
  { targets := fill duplicates claims
    duplicates := duplicates.countP Option.isSome
    matched := claims.countP (·.owner.isSome) }

/-- The notes of making the plan: the duplicates, then the matches. -/
def makeNotes (pairs decls : List Entry) : List Note :=
  (decls.filter fun decl => (duplicateOf? pairs decl).isSome).map
      (fun decl => .duplicateFound decl.key decl.kind) ++
    Claim.sweepAllNotes 0 pairs (openClaims pairs decls)

/-- The pair with the properties of a declaration merged into its context. -/
def absorb (decl pair : Entry) : Entry :=
  match pair.context, decl.properties with
  | some context, some properties =>
    { pair with context := some (context.mergeProperties properties) }
  | _, _ => pair

/-- The pairs with one declaration taken in. -/
def takeIn (pairs : List Entry) : Entry × Option Nat → List Entry
  | (decl, some target) => pairs.modify target (absorb decl)
  | (_, none) => pairs

/-- No pair takes the declaration in. -/
def isUnclaimed (pairCount : Nat) (target : Option Nat) : Bool :=
  !target.any (· < pairCount)

/-- The pairs, with what they take in, and the declarations that are left. -/
def apply (plan : Plan) (pairs decls : List Entry) : List Entry :=
  let aimed := decls.zip plan.targets
  aimed.foldl takeIn pairs ++
    (aimed.filter fun (_, target) => isUnclaimed pairs.length target).map (·.1)

end Plan

end DocOutline
