/-
Malm.Commit.Admission — `derive_owned_transition`: the checks that admit a
prepared plan, and the catalog a commit publishes for it.

`Machine` holds what `CommitConfig` says about the target authorities and what opening
and comparing their roots answers.
-/
import Malm.Commit.References
import Malm.Store.Ownership

namespace Malm.Commit

open Store Checks

/-! ## 1. Target authorities -/

/-- The configured target authorities and the file-system answers about their
roots. -/
structure Machine where
  /-- The number of normal components of a configured authority path. -/
  authorityDepth : DeploymentName → Option Nat
  openFileSoftLimit : Option Nat
  /-- Opening and validating the root of a configured authority. -/
  openAuthority : DeploymentName → Except CommitError Unit
  /-- `authority_roots_overlap`. -/
  rootsOverlap : DeploymentName → DeploymentName → Except CommitError Bool

def maxOwnershipPinnedDescriptors : Nat := 4096

def projectionResourceError (requestingNamespace : Option NamespaceName) : CommitError :=
  let detail := "ownership projection requires too many pinned filesystem descriptors"
  if requestingNamespace.isSome then .invalidPlan detail else .invalidStore detail

/-- The descriptor loop: one chain per run of claims of an authority. -/
def requiredDescriptors (machine : Machine) (allowUnconfigured : Bool) :
    Option DeploymentName → List OwnershipClaim → Except CommitError Nat
  | _, [] => .ok 64
  | previous, claim :: rest =>
    if previous = some claim.authority then
      requiredDescriptors machine allowUnconfigured previous rest
    else
      match machine.authorityDepth claim.authority with
      | none =>
        if allowUnconfigured then
          requiredDescriptors machine allowUnconfigured (some claim.authority) rest
        else
          .error (.unknownTargetAuthority claim.authority)
      | some depth => do
        let required ← requiredDescriptors machine allowUnconfigured (some claim.authority) rest
        return required + depth + 1

def validateProjectionDescriptorBudget (machine : Machine) (projection : OwnershipProjection)
    (requestingNamespace : Option NamespaceName) (allowUnconfigured : Bool) :
    Except CommitError Unit := do
  let required ← requiredDescriptors machine allowUnconfigured none projection.claims
  reject (maxOwnershipPinnedDescriptors < required)
    (projectionResourceError requestingNamespace)
  reject
    (machine.openFileSoftLimit.any fun limit => limit - max (limit / 4) 64 < required)
    (projectionResourceError requestingNamespace)

/-- The authorities of a projection with their claims, the last one first. -/
def projectedAuthorities (machine : Machine) (allowUnconfigured : Bool)
    (authorities : List (DeploymentName × List OwnershipClaim)) (claim : OwnershipClaim) :
    Except CommitError (List (DeploymentName × List OwnershipClaim)) :=
  match authorities with
  | (current, claims) :: rest =>
    if current = claim.authority then
      .ok ((current, claims ++ [claim]) :: rest)
    else
      openProjected ((current, claims) :: rest)
  | [] => openProjected []
where
  openProjected (authorities : List (DeploymentName × List OwnershipClaim)) :
      Except CommitError (List (DeploymentName × List OwnershipClaim)) :=
    match machine.authorityDepth claim.authority with
    | none =>
      if allowUnconfigured then .ok authorities
      else .error (.unknownTargetAuthority claim.authority)
    | some _ => do
      machine.openAuthority claim.authority
      return (claim.authority, [claim]) :: authorities

/-- The claim an alias conflict reports for one side. -/
def requestedClaim (requestingNamespace : Option NamespaceName) (claims : List OwnershipClaim) :
    Option OwnershipClaim :=
  requestingNamespace.bind fun namespaceName =>
    claims.find? fun claim => claim.namespaceName = namespaceName

/-- The conflict reported for two overlapping authority roots. -/
def aliasConflict (requestingNamespace : Option NamespaceName)
    (left right : List OwnershipClaim) : Option CommitError := do
  let leftFirst ← left.head?
  let rightFirst ← right.head?
  let (requesting, owning) :=
    match requestedClaim requestingNamespace left, requestedClaim requestingNamespace right with
    | some requesting, _ => (requesting, rightFirst)
    | none, some requesting => (requesting, leftFirst)
    | none, none => (rightFirst, leftFirst)
  return .targetOwnershipConflict requesting.namespaceName owning.namespaceName
    requesting.authority owning.authority requesting.relativePath owning.relativePath
    .physicalAuthorityAlias

/-- The inner loop over the authorities to the right of one. -/
def rejectAliasesOf (machine : Machine) (requestingNamespace : Option NamespaceName)
    (left : DeploymentName × List OwnershipClaim) :
    List (DeploymentName × List OwnershipClaim) → Except CommitError Unit
  | [] => .ok ()
  | right :: rest => do
    let overlap ← machine.rootsOverlap left.1 right.1
    Checks.when (overlap = true)
      (rejectSome (aliasConflict requestingNamespace left.2 right.2) id)
    rejectAliasesOf machine requestingNamespace left rest

/-- The pair loop of `reject_projection_authority_aliases`. -/
def rejectAliases (machine : Machine) (requestingNamespace : Option NamespaceName) :
    List (DeploymentName × List OwnershipClaim) → Except CommitError Unit
  | [] => .ok ()
  | left :: rest => do
    rejectAliasesOf machine requestingNamespace left rest
    rejectAliases machine requestingNamespace rest

def rejectProjectionAuthorityAliases (machine : Machine) (projection : OwnershipProjection)
    (requestingNamespace : Option NamespaceName) (allowUnconfigured : Bool) :
    Except CommitError Unit := do
  validateProjectionDescriptorBudget machine projection requestingNamespace allowUnconfigured
  let authorities ← projection.claims.foldlM (projectedAuthorities machine allowUnconfigured) []
  rejectAliases machine requestingNamespace authorities.reverse

/-! ## 2. The ownership of a catalog -/

section Admission

variable (codec : ObjectCodec) (machine : Machine) (store : ObjectStore)

/-- One head of `load_selected_generations`, with the bytes and target slots
so far. -/
def loadSelected (state : List (NamespaceName × StateGeneration) × Nat × Nat)
    (head : NamespaceHead) :
    Except CommitError (List (NamespaceName × StateGeneration) × Nat × Nat) := do
  let (selected, decodedBytes, targetSlots) := state
  let (generation, encodedBytes) ← loadGenerationWithEncodedLen codec store head.generation
  let decodedBytes ← chargeSelectedGenerationBytes decodedBytes encodedBytes
  let targetSlots := targetSlots + generation.targets.length
  reject (maxOwnershipTargetSlots < targetSlots)
    (.invalidStore "selected ownership target slots exceed their entries")
  reject (generation.namespaceName ≠ head.namespaceName)
    (.invalidStore "catalog namespace selects a generation for another namespace")
  return (selected ++ [(head.namespaceName, generation)], decodedBytes, targetSlots)

def loadSelectedGenerations (catalog : StateCatalog) :
    Except CommitError (List (NamespaceName × StateGeneration)) := do
  let (selected, _) ← catalog.heads.foldlM (loadSelected codec store) ([], 0, 0)
  return selected

structure CatalogOwnership where
  selected : List (NamespaceName × StateGeneration)
  projection : OwnershipProjection

/-- The error mapping of the alias check in `load_catalog_ownership`. -/
def catalogAliasError : CommitError → CommitError
  | .targetOwnershipConflict _ _ _ _ _ _ _ => .invalidStore "target ownership conflict"
  | error => error

/-- `map_err(CommitError::invalid_store)` on projection errors. -/
def asProjectionStore {α : Type} (result : Except OwnershipProjectionError α) :
    Except CommitError α :=
  result.mapError fun _ => .invalidStore "invalid ownership projection"

def loadCatalogOwnership (catalog : StateCatalog) : Except CommitError CatalogOwnership := do
  let selected ← loadSelectedGenerations codec store catalog
  let projection ← asProjectionStore (fromSelectedGenerations selected)
  (rejectProjectionAuthorityAliases machine projection none false).mapError catalogAliasError
  return ⟨selected, projection⟩

def candidateOwnershipError (namespaceName : NamespaceName) :
    OwnershipProjectionError → CommitError
  | .conflict overlap authority firstNamespace firstPath secondNamespace secondPath =>
    if firstNamespace = namespaceName then
      .targetOwnershipConflict firstNamespace secondNamespace authority authority firstPath
        secondPath overlap
    else if secondNamespace = namespaceName then
      .targetOwnershipConflict secondNamespace firstNamespace authority authority secondPath
        firstPath overlap
    else
      .invalidStore "invalid ownership projection"
  | .namespaceMismatch _ _ => .invalidStore "invalid ownership projection"
  | _ => .invalidPlan "invalid ownership projection"

/-- `map_err(|error| candidate_ownership_error(&namespace, error))`. -/
def asCandidateOwnership {α : Type} (namespaceName : NamespaceName)
    (result : Except OwnershipProjectionError α) : Except CommitError α :=
  result.mapError (candidateOwnershipError namespaceName)

def candidateCatalogValidationError : CommitError → CommitError
  | .invalidStore _ => .invalidPlan "candidate catalog retention is invalid"
  | error => error

def asCandidateCatalog {α : Type} (result : Except CommitError α) : Except CommitError α :=
  result.mapError candidateCatalogValidationError

/-- `map_err(CommitError::invalid_plan)` on catalog errors. -/
def asCatalogPlan {α : Type} (result : Except StateCatalogError α) : Except CommitError α :=
  result.mapError fun _ => .invalidPlan "invalid state catalog"

/-! ## 3. One operation -/

def isDirectoryMode (mode : BitVec 32) : Bool := mode &&& 0o170000#32 = 0o040000#32

def requiresExactOwner (operations : List PreparedOperation) : PreparedOperation → Bool
  | .removeLeaf _ => true
  | .ensureDirectory observation _ => observation.leaf.isPresent
  | .placeFile observation _ _ replaceExisting => placementNeedsOwner observation replaceExisting
  | .placeSymlink observation _ replaceExisting => placementNeedsOwner observation replaceExisting
  | .placeTree observation _ _ replaceExisting => placementNeedsOwner observation replaceExisting
  | .assertExact observation (.directory (some _)) =>
    !operations.any fun candidate =>
      candidate.observation.authority = observation.authority &&
        observation.relativePath.isAncestor candidate.observation.relativePath
  | .assertExact _ _ => true
  | .assertAbsent _ => false
where
  placementNeedsOwner (observation : TargetObservation) (replaceExisting : Bool) : Bool :=
    match observation.leaf with
    | .absent => false
    | .present identity => !replaceExisting || isDirectoryMode identity.mode

/-- The loop body of `derive_owned_transition` over the operations. -/
def admitOperation (projection : OwnershipProjection) (namespaceName : NamespaceName)
    (operations : List PreparedOperation) (operation : PreparedOperation) :
    Except CommitError Unit :=
  if operation.isAssertAbsent then
    .ok ()
  else do
    let observation := operation.observation
    rejectSome
      (projection.conflictingClaim observation.authority observation.relativePath namespaceName)
      fun claim =>
        .targetOwnershipConflict namespaceName claim.namespaceName observation.authority
          claim.authority observation.relativePath claim.relativePath
          (if claim.relativePath = observation.relativePath then .exact else .ancestorDescendant)
    reject
      (requiresExactOwner operations operation ∧
        projection.exactOwner observation.authority observation.relativePath ≠
          some namespaceName)
      (.unownedTargetMutation namespaceName observation.authority observation.relativePath)

/-! ## 4. The transition -/

structure OwnedTransition where
  namespaceName : NamespaceName
  previous : Option Digest
  generation : Option StateGeneration
  generationDigest : Option Digest
  nextCatalog : StateCatalog

/-- `selected` with the generation of one namespace replaced, or added at the
end. -/
def selectGeneration (namespaceName : NamespaceName) (generation : StateGeneration) :
    List (NamespaceName × StateGeneration) → List (NamespaceName × StateGeneration)
  | [] => [(namespaceName, generation)]
  | (selected, current) :: rest =>
    if selected = namespaceName then
      (selected, generation) :: rest
    else
      (selected, current) :: selectGeneration namespaceName generation rest

def deriveRemoval (catalog : StateCatalog) (namespaceName : NamespaceName)
    (selected : List (NamespaceName × StateGeneration)) (budget : CanonicalLoadBudget) :
    Except CommitError OwnedTransition := do
  let selected := selected.filter fun entry => entry.1 ≠ namespaceName
  let projection ← asCandidateOwnership namespaceName (fromSelectedGenerations selected)
  rejectProjectionAuthorityAliases machine projection (some namespaceName) false
  let (nextCatalog, removed) := catalog.removeHead namespaceName
  reject (removed ≠ catalog.generation namespaceName)
    (.invalidPlan "namespace-removal catalog predecessor changed")
  asCandidateCatalog (validateCatalogLineages codec store none .routine nextCatalog)
  let _ ← asCandidateCatalog (validateCatalogRetentionAuthorities codec store nextCatalog none
    budget)
  return ⟨namespaceName, catalog.generation namespaceName, none, none, nextCatalog⟩

/-- The publishing branch of `derive_owned_transition`. -/
def deriveGeneration (catalog : StateCatalog) (planId : PreparedId) (prepared : PreparedRecord)
    (selected : List (NamespaceName × StateGeneration)) (previousRecord : Option StateGeneration)
    (budget : CanonicalLoadBudget) : Except CommitError OwnedTransition := do
  let namespaceName := prepared.namespaceName
  let previous := catalog.generation namespaceName
  let generation ← asInvalidPlan
    (fromPrepared codec.toCodec planId previous previousRecord prepared)
  let digest := codec.generationDigest generation
  let projection ← asCandidateOwnership namespaceName
    (fromSelectedGenerations (selectGeneration namespaceName generation selected))
  rejectProjectionAuthorityAliases machine projection (some namespaceName) false
  let nextCatalog ← asCatalogPlan (catalog.updateHead codec.toCodec namespaceName digest)
  let candidate : CandidateGeneration :=
    ⟨digest, generation, prepared, codec.generationBytes generation⟩
  asCandidateCatalog (validateCatalogLineages codec store (some candidate) .routine nextCatalog)
  let _ ← asCandidateCatalog (validateCatalogRetentionAuthorities codec store nextCatalog
    (some candidate) budget)
  return ⟨namespaceName, previous, some generation, some digest, nextCatalog⟩

def deriveOwnedTransition (catalog : StateCatalog) (planId : PreparedId)
    (prepared : PreparedRecord) : Except CommitError OwnedTransition := do
  let namespaceName := prepared.namespaceName
  let previous := catalog.generation namespaceName
  reject (previous ≠ prepared.expectedHead)
    (.staleNamespaceHead namespaceName prepared.expectedHead previous)
  let ownership ← loadCatalogOwnership codec machine store catalog
  prepared.operations.forM
    (admitOperation ownership.projection namespaceName prepared.operations)
  let previousRecord := (ownership.selected.find? (·.1 = namespaceName)).map Prod.snd
  asInvalidPlan (validatePreparedTransition codec.toCodec previousRecord prepared)
  let budget ← validateTransitionReferences codec store previousRecord prepared .default
  if prepared.transition.isNamespaceRemoval then
    deriveRemoval codec machine store catalog namespaceName ownership.selected budget
  else
    deriveGeneration codec machine store catalog planId prepared ownership.selected
      previousRecord budget

end Admission

end Malm.Commit
