/-
Malm.Store.Ownership — the ownership projection of the selected
generations (`ownership.rs`).

The present targets are sorted by authority, path components and namespace, and
scanned once with a stack of the claims above the current one. The sorted order is
a field of `OwnershipProjection`; `partition_point` on claims in that order is
the drop of the strictly smaller ones (`claimsFrom`).
-/
import Malm.Store.Records

namespace Malm.Store

open Checks

/-! ## 1. Order and overlap of claims -/

namespace OwnershipClaim

/-- Authority and path components: what `claim_lower_bound` compares. -/
def position (claim : OwnershipClaim) : DeploymentName ×ₗ List Text :=
  toLex (claim.authority, claim.relativePath.segments)

/-- The sort key: authority, path components, namespace. -/
def key (claim : OwnershipClaim) : (DeploymentName ×ₗ List Text) ×ₗ NamespaceName :=
  toLex (claim.position, claim.namespaceName)

end OwnershipClaim

/-! ## 2. Building the projection -/

inductive OwnershipProjectionError where
  | tooManyGenerations (limit actual : Nat)
  | duplicateNamespace (namespaceName : NamespaceName)
  | tooManyAuthorities (limit actual : Nat)
  | tooManyTargetSlots (limit actual : Nat)
  | namespaceMismatch (selectedNamespace generationNamespace : NamespaceName)
  | tooManyClaims (limit actual : Nat)
  | conflict (overlap : OwnershipOverlapKind) (authority : DeploymentName)
      (firstNamespace : NamespaceName) (firstPath : Text)
      (secondNamespace : NamespaceName) (secondPath : Text)
deriving DecidableEq, Repr

/-- `OwnershipProjectionV1`: claims in canonical order. -/
structure OwnershipProjection where
  claims : List OwnershipClaim
  sorted : claims.Pairwise fun left right => left.key ≤ right.key

/-- The least pair of a selected namespace and a differing generation
namespace. -/
def namespaceMismatch (generations : List (NamespaceName × StateGeneration)) :
    Option (NamespaceName × NamespaceName) :=
  generations.foldl
    (fun mismatch (selected, generation) =>
      if selected ≠ generation.namespaceName then
        match mismatch with
        | none => some (selected, generation.namespaceName)
        | some current =>
          if toLex (selected, generation.namespaceName) < toLex current then
            some (selected, generation.namespaceName)
          else
            some current
      else
        mismatch)
    none

def duplicateNamespace : List NamespaceName → List NamespaceName → Option NamespaceName →
    Option NamespaceName
  | _, [], duplicate => duplicate
  | seen, selected :: rest, duplicate =>
    if selected ∈ seen then
      match duplicate with
      | none => duplicateNamespace seen rest (some selected)
      | some current =>
        if selected < current then
          duplicateNamespace seen rest (some selected)
        else
          duplicateNamespace seen rest (some current)
    else
      duplicateNamespace (selected :: seen) rest duplicate

/-- The present targets of one selected generation. -/
def generationClaims (selected : NamespaceName) (generation : StateGeneration) :
    List OwnershipClaim :=
  if generation.lifecycle.isEnabled then
    (generation.targets.filter StateTarget.isPresent).map fun target =>
      ⟨selected, target.authority, target.relativePath⟩
  else
    []

def presentClaims (generations : List (NamespaceName × StateGeneration)) : List OwnershipClaim :=
  generations.flatMap fun (selected, generation) => generationClaims selected generation

def sortClaims (claims : List OwnershipClaim) : List OwnershipClaim :=
  claims.insertionSort fun left right => left.key ≤ right.key

theorem sortClaims_sorted (claims : List OwnershipClaim) :
    (sortClaims claims).Pairwise fun left right => left.key ≤ right.key := by
  have : Std.Total fun left right : OwnershipClaim => left.key ≤ right.key :=
    ⟨fun left right => le_total left.key right.key⟩
  have : IsTrans OwnershipClaim fun left right => left.key ≤ right.key := ⟨fun _ _ _ => le_trans⟩
  exact List.pairwise_insertionSort _ claims

/-- Pop the stack until its top is the path itself or above it. -/
def popAncestors (path : Text) : List OwnershipClaim → List OwnershipClaim
  | [] => []
  | top :: rest =>
    if top.relativePath = path || top.relativePath.isAncestor path then
      top :: rest
    else
      popAncestors path rest

/-- The stack that the current claim is compared with. -/
def ancestorsOf (current : OwnershipClaim) (stack : List OwnershipClaim) : List OwnershipClaim :=
  match stack with
  | [] => []
  | top :: _ =>
    if top.authority ≠ current.authority then [] else popAncestors current.relativePath stack

/-- Push the current claim unless its path is already on top. -/
def pushClaim (current : OwnershipClaim) (stack : List OwnershipClaim) : List OwnershipClaim :=
  match stack with
  | [] => [current]
  | top :: _ => if top.relativePath ≠ current.relativePath then current :: stack else stack

/-- The overlap scan: the first claim of another namespace on the stack. -/
def scanClaims : List OwnershipClaim → List OwnershipClaim → Except OwnershipProjectionError Unit
  | _, [] => .ok ()
  | stack, current :: rest =>
    match (ancestorsOf current stack).find? (·.namespaceName ≠ current.namespaceName) with
    | some conflicting =>
      .error (.conflict
        (if conflicting.relativePath = current.relativePath then .exact else .ancestorDescendant)
        current.authority conflicting.namespaceName conflicting.relativePath
        current.namespaceName current.relativePath)
    | none => scanClaims (pushClaim current (ancestorsOf current stack)) rest

def fromSelectedGenerations (generations : List (NamespaceName × StateGeneration)) :
    Except OwnershipProjectionError OwnershipProjection := do
  reject (maxOwnershipGenerations < generations.length)
    (.tooManyGenerations maxOwnershipGenerations (maxOwnershipGenerations + 1))
  rejectSome (namespaceMismatch generations)
    fun (selected, found) => .namespaceMismatch selected found
  rejectSome (duplicateNamespace [] (generations.map Prod.fst) none) .duplicateNamespace
  let targetSlots := (generations.map fun (_, generation) => generation.targets.length).sum
  reject (maxOwnershipTargetSlots < targetSlots)
    (.tooManyTargetSlots maxOwnershipTargetSlots targetSlots)
  let claims := presentClaims generations
  reject (maxOwnershipClaims < claims.length)
    (.tooManyClaims maxOwnershipClaims claims.length)
  reject (maxOwnershipAuthorities < (claims.map OwnershipClaim.authority).dedup.length)
    (.tooManyAuthorities maxOwnershipAuthorities (maxOwnershipAuthorities + 1))
  scanClaims [] (sortClaims claims)
  return ⟨sortClaims claims, sortClaims_sorted claims⟩

/-! ## 3. Queries -/

namespace OwnershipProjection

/-- `&self.claims[self.claim_lower_bound(authority, relative_path)..]`. -/
def claimsFrom (projection : OwnershipProjection) (authority : DeploymentName)
    (relativePath : Text) : List OwnershipClaim :=
  projection.claims.dropWhile fun claim =>
    claim.position < toLex (authority, relativePath.segments)

def exactOwner (projection : OwnershipProjection) (authority : DeploymentName)
    (relativePath : Text) : Option NamespaceName :=
  match projection.claimsFrom authority relativePath with
  | [] => none
  | claim :: _ =>
    if claim.authority = authority && claim.relativePath = relativePath then
      some claim.namespaceName
    else
      none

/-- The run of claims inside from the lower bound, searched for another namespace. -/
def firstForeign (projection : OwnershipProjection) (authority : DeploymentName)
    (relativePath : Text) (inside : OwnershipClaim → Bool) (requesting : NamespaceName) :
    Option OwnershipClaim :=
  ((projection.claimsFrom authority relativePath).takeWhile inside).find?
    (·.namespaceName ≠ requesting)

/-- `conflicting_claim`: the ancestors from the top, the path itself, and what lies below. -/
def conflictingClaim (projection : OwnershipProjection) (authority : DeploymentName)
    (relativePath : Text) (requesting : NamespaceName) : Option OwnershipClaim :=
  match relativePath.ancestorPaths.findSome? (fun ancestor =>
      projection.firstForeign authority ancestor
        (fun claim => claim.authority = authority && claim.relativePath = ancestor)
        requesting) with
  | some claim => some claim
  | none =>
    projection.firstForeign authority relativePath
      (fun claim => claim.authority = authority &&
        (claim.relativePath = relativePath || relativePath.isAncestor claim.relativePath))
      requesting

end OwnershipProjection

end Malm.Store
