/-
Malm.Store.Prepared — decoding a prepared plan (`prepared.rs`).

`validate_decoded` rebuilds the record from its parts, with all the checks of the
constructor, and accepts it only when the rebuilt record is the decoded one.
Policy findings are left out and their approval digest is carried over. The byte
total of the artifacts cannot overflow under the other limits.
-/
import Malm.Store.Transition

namespace Malm.Store

open Checks

def maxPreparedInputs : Nat := 65536

/-! ## 1. The parts of a plan -/

def PreparedInputKind.rank : PreparedInputKind → Nat
  | .source => 0
  | .config => 1
  | .lock => 2
  | .component => 3
  | .asset => 4
  | .other => 5

def PreparedInput.key (input : PreparedInput) : Nat ×ₗ Text :=
  toLex (input.kind.rank, input.name)

def sortInputs (inputs : List PreparedInput) : List PreparedInput :=
  inputs.insertionSort fun left right => left.key ≤ right.key

def sortArtifacts (artifacts : List PreparedArtifact) : List PreparedArtifact :=
  artifacts.insertionSort fun left right => left.id ≤ right.id

def sortTransforms (transforms : List TransformProvenance) : List TransformProvenance :=
  transforms.insertionSort fun left right => left.requestDigest ≤ right.requestDigest

/-- The loop over the artifacts: lengths by digest, and the distinct bytes. -/
def uniqueArtifactBytes : List (Digest × Nat) → Nat → List PreparedArtifact →
    Except PreparedRecordError Nat
  | _, total, [] => .ok total
  | lengths, total, artifact :: rest => do
    reject (maxArtifactBlobBytes < artifact.byteLen)
      (.invalidField "artifact byte length" "exceeds the per-blob size limit")
    reject (artifact.byteLen = 0 ∧ artifact.digest ≠ emptyDigest)
      (.invalidField "artifact byte length"
        "zero-byte artifacts must have the empty SHA-256 digest")
    let previous := lengths.lookup artifact.digest
    reject (previous.any (· ≠ artifact.byteLen))
      (.invalidField "artifact byte length" "one digest cannot have conflicting lengths")
    uniqueArtifactBytes ((artifact.digest, artifact.byteLen) :: lengths)
      (if previous.isSome then total else total + artifact.byteLen) rest

def PreparedOperation.mode : PreparedOperation → Option (BitVec 32)
  | .ensureDirectory _ mode => some mode
  | .placeFile _ _ mode _ => some mode
  | _ => none

/-- The owner bits recovery needs on what an operation creates. -/
def validateOwnerAccess : PreparedOperation → Except PreparedRecordError Unit
  | .ensureDirectory _ mode =>
    reject (mode &&& 0o500#32 ≠ 0o500#32)
      (.invalidField "directory operation mode"
        "must remain owner-readable and owner-searchable for recovery")
  | .placeFile _ _ mode _ =>
    reject (mode &&& 0o400#32 = 0)
      (.invalidField "file operation mode"
        "must remain owner-readable for verification and recovery")
  | _ => .ok ()

def validatePreparedOperation (artifacts : List PreparedArtifact)
    (operation : PreparedOperation) : Except PreparedRecordError Unit := do
  whenSome operation.artifactId fun artifactId =>
    reject (artifactId ∉ artifacts.map PreparedArtifact.id) (.unknownArtifact artifactId)
  reject (operation.mode.any fun mode => mode &&& ~~~0o777#32 ≠ 0)
    (.invalidField "operation mode" "must contain only permission bits")
  validateOwnerAccess operation
  validateOperationSemantics operation

def validateEncodedSize (codec : Codec) (record : PreparedRecord) :
    Except PreparedRecordError Unit :=
  reject (maxPreparedRecordBytes < codec.preparedBytes record)
    (.tooLarge maxPreparedRecordBytes (codec.preparedBytes record))

def RetentionAuthority.default : RetentionAuthority :=
  ⟨defaultHistoryRetentionGenerations, [], []⟩

/-- `PreparedRecordV1::try_from`, before the `with_…` calls set the rest. -/
def PreparedRecord.tryFrom (codec : Codec) (record : PreparedRecord)
    (desiredSnapshot : DesiredSnapshot) : Except PreparedRecordError PreparedRecord := do
  checkLimit "inputs" record.inputs.length maxPreparedInputs
  checkLimit "artifacts" record.artifacts.length maxPreparedArtifacts
  checkLimit "transform provenance" record.transforms.length maxTransformProvenance
  checkLimit "operations" record.operations.length maxPreparedOperations
  asDesiredSnapshot (validateStateTargets desiredSnapshot.targets)
  record.transforms.forM TransformProvenance.validate
  rejectDuplicates "prepared input" (record.inputs.map PreparedInput.key)
  rejectDuplicates "artifact" (record.artifacts.map PreparedArtifact.id)
  rejectDuplicates "transform request" (record.transforms.map TransformProvenance.requestDigest)
  rejectDuplicates "operation destination" (record.operations.map PreparedOperation.key)
  rejectDestinationPrefixes record.operations
  let artifacts := sortArtifacts record.artifacts
  let bytes ← uniqueArtifactBytes [] 0 artifacts
  reject (maxPreparedUniqueArtifactBytes < bytes)
    (.invalidField "artifact bytes" "aggregate unique blob bytes exceed the plan limit")
  record.operations.forM (validatePreparedOperation artifacts)
  let built : PreparedRecord :=
    { record with
      transition := .reconcile, lifecycle := .enabled, restorePoint := none,
      retention := .default, trackedRoot := none,
      inputs := sortInputs record.inputs, artifacts := artifacts,
      transforms := sortTransforms record.transforms, desiredSnapshot := desiredSnapshot,
      desiredSnapshotDigest := codec.desiredSnapshotDigest record.namespaceName desiredSnapshot }
  validateEncodedSize codec built
  return built

/-! ## 2. Decoding -/

/-- `rebuild_tracked_root`: `TrackedRootV1::new` sorts the grants. -/
def rebuildTrackedRoot (trackedRoot : TrackedRoot) : Except PreparedRecordError TrackedRoot := do
  reject (trackedRoot.schemaVersion ≠ 1)
    (.unsupportedVersion 1 trackedRoot.schemaVersion)
  checkLimit "tracked-root acquisition grants" trackedRoot.acquisitionGrants.length
    maxTrackedRootAcquisitionGrants
  trackedRoot.acquisitionGrants.forM validateAcquisitionGrant
  rejectDuplicates "tracked-root acquisition grant" trackedRoot.acquisitionGrants
  let grants := trackedRoot.acquisitionGrants.insertionSort fun left right => left.key ≤ right.key
  let rebuilt := { trackedRoot with acquisitionGrants := grants }
  validateTrackedRoot rebuilt
  return rebuilt

/-- The `with_…` calls in the order of `validate_decoded`. -/
def withAuthority (codec : Codec) (built record : PreparedRecord)
    (trackedRoot : Option TrackedRoot) : Except PreparedRecordError PreparedRecord := do
  let built := { built with transition := record.transition }
  validateEncodedSize codec built
  let built := { built with lifecycle := record.lifecycle }
  validateEncodedSize codec built
  whenSome record.restorePoint fun point =>
    validateRestorePoint point (some built.namespaceName)
  let built := { built with restorePoint := record.restorePoint }
  validateEncodedSize codec built
  validateRetentionAuthority record.retention (some built.namespaceName)
  let built := { built with retention := record.retention }
  validateEncodedSize codec built
  whenSome trackedRoot validateTrackedRoot
  let built := { built with trackedRoot := trackedRoot }
  validateEncodedSize codec built
  return built

def rebuildTrackedRoots : Option TrackedRoot → Except PreparedRecordError (Option TrackedRoot)
  | none => .ok none
  | some trackedRoot => do
    let rebuilt ← rebuildTrackedRoot trackedRoot
    return some rebuilt

def validateDecoded (codec : Codec) (record : PreparedRecord) :
    Except PreparedRecordError Unit := do
  let trackedRoot ← rebuildTrackedRoots record.trackedRoot
  reject
    (codec.desiredSnapshotDigest record.namespaceName record.desiredSnapshot ≠
      record.desiredSnapshotDigest)
    (.invalidDesiredSnapshot "digest differs from the complete persisted snapshot")
  let desiredSnapshot ← asDesiredSnapshot (DesiredSnapshot.new record.desiredSnapshot.targets)
  let built ← PreparedRecord.tryFrom codec record desiredSnapshot
  let rebuilt ← withAuthority codec built record trackedRoot
  Checks.when (¬ record.transition.isNamespaceRemoval)
    (validateSelectedRestoreAuthority record.lifecycle record.restorePoint record.retention)
  reject (rebuilt ≠ record) .nonCanonical

end Malm.Store
