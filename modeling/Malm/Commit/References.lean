/-
Malm.Commit.References — what a retention authority, a restore point and a
transition source refer to, and the checks that all of it is stored
(`validate_catalog_retention_authorities`, `validate_transition_references`
and what they call).
-/
import Malm.Commit.Lineage

namespace Malm.Commit

open Store Checks

section References

variable (codec : ObjectCodec) (store : ObjectStore)

/-! ## 1. Dependencies -/

/-- One slot of the loop over file digests: the first occurrence counts. -/
def addSnapshotFile (files : List (Digest × Nat)) (target : StateTarget) : List (Digest × Nat) :=
  match target.state with
  | .file (some file) =>
    if file.digest ∈ files.map Prod.fst then files else files ++ [(file.digest, file.byteLen)]
  | _ => files

/-- Every file digest of a snapshot, with the length its first slot states. -/
def snapshotFiles (snapshot : DesiredSnapshot) : List (Digest × Nat) :=
  snapshot.targets.foldl addSnapshotFile []

def verifySnapshotFile (file : Digest × Nat) : Except CommitError Unit := do
  let length ← verifyBlob store file.1
  reject (length ≠ file.2)
    (.invalidStore "retained target length differs from its state metadata")

def snapshotStates (snapshot : DesiredSnapshot) : List StateTargetState :=
  snapshot.targets.map StateTarget.state

def validateRetainedSnapshotDependencies (snapshot : DesiredSnapshot)
    (budget : CanonicalLoadBudget) : Except CommitError CanonicalLoadBudget := do
  (snapshotFiles snapshot).forM (verifySnapshotFile store)
  let (_, budget) ← loadCanonicalStateObjectsWithBudget codec store (snapshotStates snapshot)
    budget
  return budget

def validateTrackedRootTree (trackedRoot : Option TrackedRoot) (budget : CanonicalLoadBudget) :
    Except CommitError CanonicalLoadBudget :=
  match trackedRoot with
  | none => .ok budget
  | some tracked => do
    let (_, budget) ← loadCanonicalRootsWithBudget codec store [tracked.rootTreeDigest] [] budget
    return budget

def validatePreparedDependencies (prepared : PreparedRecord) (budget : CanonicalLoadBudget) :
    Except CommitError CanonicalLoadBudget := do
  let _ ← loadAllArtifacts store prepared
  let budget ← validateRetainedSnapshotDependencies codec store prepared.desiredSnapshot budget
  (recordPackRoots prepared).forM fun digest => do
    let _ ← verifyPackObject store digest
    return ()
  validateTrackedRootTree codec store prepared.trackedRoot budget

def validateRetainedPreparedDependencies (planId : PreparedId) (budget : CanonicalLoadBudget) :
    Except CommitError CanonicalLoadBudget := do
  let prepared ← loadPrepared codec store planId
  validatePreparedDependencies codec store prepared budget

def validateRetainedGenerationDependencies (generation : StateGeneration)
    (budget : CanonicalLoadBudget) : Except CommitError CanonicalLoadBudget := do
  let budget ← validateRetainedPreparedDependencies codec store generation.planId budget
  let budget ← validateRetainedSnapshotDependencies codec store generation.desiredSnapshot budget
  validateTrackedRootTree codec store generation.trackedRoot budget

/-! ## 2. Restore points and pins -/

def validateRestorePointReference (point : RestorePoint) (digest : Digest)
    (generation : StateGeneration) : Except CommitError Unit :=
  reject
    (point.generation ≠ digest ∨ point.namespaceName ≠ generation.namespaceName ∨
      point.lifecycle ≠ generation.lifecycle ∨
      point.desiredSnapshotDigest ≠ generation.desiredSnapshotDigest ∨
      point.trackedRoot ≠ generation.trackedRoot)
    (.invalidPlan "restore point differs from its retained generation")

def validateDirectlyRetainedGeneration (digest : Digest) (decodedBytes : Nat) :
    Except CommitError (StateGeneration × Nat) := do
  let (generation, encodedBytes) ← loadGenerationWithEncodedLen codec store digest
  let decodedBytes ← chargeLineageValidationBytes decodedBytes encodedBytes
  let decodedBytes ← asGenerationValidation
    (validateRetainedGenerationTransitionWithBudget codec store generation decodedBytes)
  return (generation, decodedBytes)

def validateRetentionPin (pin : RetentionObject) (budget : CanonicalLoadBudget) :
    Except CommitError CanonicalLoadBudget :=
  match pin with
  | .preparedPlan planId => validateRetainedPreparedDependencies codec store planId budget
  | .stateGeneration digest => do
    let (generation, _) ← validateDirectlyRetainedGeneration codec store digest 0
    validateRetainedGenerationDependencies codec store generation budget
  | .artifactBlob digest => do
    let _ ← verifyBlob store digest
    return budget
  | .packObject digest => do
    let _ ← verifyPackObject store digest
    return budget
  | .canonicalFile digest => do
    let budget ← chargeCanonicalLoadItem budget
    let (_, budget) ← loadFileObject codec store digest budget
    return budget
  | .canonicalSymlink digest => do
    let (_, budget) ← loadCanonicalRootsWithBudget codec store [] [digest] budget
    return budget
  | .canonicalTree digest => do
    let (_, budget) ← loadCanonicalRootsWithBudget codec store [digest] [] budget
    return budget

def validateAuthorityPoint (budgets : Nat × CanonicalLoadBudget) (point : RestorePoint) :
    Except CommitError (Nat × CanonicalLoadBudget) := do
  let (retained, decodedBytes) ←
    validateDirectlyRetainedGeneration codec store point.generation budgets.1
  validateRestorePointReference point point.generation retained
  let budget ← validateRetainedGenerationDependencies codec store retained budgets.2
  return (decodedBytes, budget)

def validateAuthorityPin (namespaceName : NamespaceName) (budgets : Nat × CanonicalLoadBudget)
    (pin : RetentionObject) : Except CommitError (Nat × CanonicalLoadBudget) :=
  match pin with
  | .stateGeneration digest => do
    let (retained, decodedBytes) ←
      validateDirectlyRetainedGeneration codec store digest budgets.1
    reject (retained.namespaceName ≠ namespaceName)
      (.invalidPlan "retention pin selects another namespace generation")
    let budget ← validateRetainedGenerationDependencies codec store retained budgets.2
    return (decodedBytes, budget)
  | pin => do
    let budget ← validateRetentionPin codec store pin budgets.2
    return (budgets.1, budget)

/-! ## 3. The catalog -/

/-- The generation a head selects: the candidate's, else the stored one. -/
def headGeneration (candidate : Option CandidateGeneration) (digest : Digest) :
    Except CommitError StateGeneration :=
  match selectedCandidate candidate digest with
  | some candidate => .ok candidate.generation
  | none => loadGeneration codec store digest

def validateHeadAuthority (candidate : Option CandidateGeneration)
    (budgets : Nat × CanonicalLoadBudget) (head : NamespaceHead) :
    Except CommitError (Nat × CanonicalLoadBudget) := do
  let generation ← headGeneration codec store candidate head.generation
  reject (generation.namespaceName ≠ head.namespaceName)
    (.invalidStore "catalog retention authority belongs to another namespace")
  let budgets ← generation.retention.restorePoints.foldlM (validateAuthorityPoint codec store)
    budgets
  generation.retention.explicitPins.foldlM
    (validateAuthorityPin codec store generation.namespaceName) budgets

/-- `validate_catalog_retention_authorities`, with the canonical budget it
leaves. -/
def validateCatalogRetentionAuthorities (catalog : StateCatalog)
    (candidate : Option CandidateGeneration) (budget : CanonicalLoadBudget) :
    Except CommitError CanonicalLoadBudget := do
  let (_, budget) ← catalog.heads.foldlM (validateHeadAuthority codec store candidate) (0, budget)
  return budget

/-! ## 4. References a transition adds -/

def validateAddedPoint (previous : Option RetentionAuthority) (budget : CanonicalLoadBudget)
    (point : RestorePoint) : Except CommitError CanonicalLoadBudget :=
  if previous.any fun authority => point ∈ authority.restorePoints then
    .ok budget
  else do
    let (generation, _) ← validateDirectlyRetainedGeneration codec store point.generation 0
    validateRestorePointReference point point.generation generation
    validateRetainedGenerationDependencies codec store generation budget

def validateAddedPin (previous : Option RetentionAuthority) (budget : CanonicalLoadBudget)
    (pin : RetentionObject) : Except CommitError CanonicalLoadBudget :=
  if previous.any fun authority => pin ∈ authority.explicitPins then
    .ok budget
  else
    validateRetentionPin codec store pin budget

def validateAddedRetentionReferences (previous : Option RetentionAuthority)
    (next : RetentionAuthority) (budget : CanonicalLoadBudget) :
    Except CommitError CanonicalLoadBudget := do
  let budget ← next.restorePoints.foldlM (validateAddedPoint codec store previous) budget
  next.explicitPins.foldlM (validateAddedPin codec store previous) budget

def transitionSource : PreparedTransition → Option (Digest × Option RestorePoint)
  | .enable restorePoint => some (restorePoint.generation, some restorePoint)
  | .checkout sourceGeneration => some (sourceGeneration, none)
  | _ => none

def validateEnableSource (prepared : PreparedRecord) (point : RestorePoint) (digest : Digest)
    (generation : StateGeneration) : Except CommitError Unit := do
  validateRestorePointReference point digest generation
  reject
    (generation.lifecycle ≠ .enabled ∨ generation.desiredSnapshot ≠ prepared.desiredSnapshot ∨
      generation.trackedRoot ≠ prepared.trackedRoot)
    (.invalidPlan "enable does not exactly reproduce its retained restore generation")

def checkoutSnapshot (prepared : PreparedRecord) (generation : StateGeneration) :
    Except CommitError DesiredSnapshot :=
  if generation.lifecycle = .disabled then
    .ok .empty
  else do
    let head ← require prepared.expectedHead
      (.invalidPlan "checkout requires a selected current generation")
    let current ← loadGeneration codec store head
    asInvalidPlan (reconcileDesiredSnapshot (some current.desiredSnapshot)
      generation.desiredSnapshot.targets)

def validateCheckoutSource (prepared : PreparedRecord) (generation : StateGeneration) :
    Except CommitError Unit := do
  let expectedSnapshot ← checkoutSnapshot codec store prepared generation
  reject
    (generation.lifecycle ≠ prepared.lifecycle ∨ expectedSnapshot ≠ prepared.desiredSnapshot ∨
      generation.restorePoint ≠ prepared.restorePoint ∨
      generation.trackedRoot ≠ prepared.trackedRoot)
    (.invalidPlan "checkout does not reproduce its retained source generation with cumulative tombstones")

def validateTransitionSource (prepared : PreparedRecord) : Except CommitError Unit :=
  match transitionSource prepared.transition with
  | none => .ok ()
  | some (digest, restorePoint) => do
    let generation ← loadGeneration codec store digest
    validateGenerationTransition codec store generation
    reject (generation.namespaceName ≠ prepared.namespaceName)
      (.invalidPlan "transition source generation belongs to another namespace")
    match restorePoint with
    | some point => validateEnableSource prepared point digest generation
    | none => validateCheckoutSource codec store prepared generation

def validateTransitionReferences (previous : Option StateGeneration) (prepared : PreparedRecord)
    (budget : CanonicalLoadBudget) : Except CommitError CanonicalLoadBudget := do
  let budget ← validateAddedRetentionReferences codec store
    (previous.map StateGeneration.retention) prepared.retention budget
  validateTransitionSource codec store prepared
  return budget

end References

end Malm.Commit
