/-
Malm.Store.Decode — decoding prepared records (`prepared.rs`), and the public
constructors of their components.

Deserialization builds a `PreparedDocument` without any constructor, so what is known of
it is what `validate_decoded` checks afterwards. The JSON library is a parameter.
-/
import Malm.Pack.Model
import Malm.Store.Prepared

namespace Malm.Store

open Bytes Checks

def preparedRecordSchemaVersion : Nat := 1
def maxPolicyFindings : Nat := 16384

/-! ## 1. Components and their constructors -/

def PreparedInput.new (kind : PreparedInputKind) (name : Text) (digest : Digest) :
    Except PreparedRecordError PreparedInput := do
  validateLabel "prepared input name" name
  return ⟨kind, name, digest⟩

def PreparedArtifact.new (id : ArtifactId) (digest : Digest) (byteLen : Nat) (mediaType : Text) :
    Except PreparedRecordError PreparedArtifact := do
  validateLabel "artifact media type" mediaType
  return ⟨id, digest, byteLen, mediaType⟩

def ArchiveProvenance.new (payload : Digest) (decoder : Text) :
    Except PreparedRecordError ArchiveProvenance := do
  validateLabel "archive decoder" decoder
  return ⟨payload, decoder⟩

def TargetObservation.withMissingAncestors (authority : DeploymentName) (relativePath : Text)
    (traversalAnchor : FileIdentity) (ancestors : List FileIdentity) (parent : FileIdentity)
    (leaf : LeafObservation) (missingAncestors : Nat) :
    Except PreparedRecordError TargetObservation := do
  validateRelativePath relativePath
  checkLimit "target ancestors" ancestors.length 64
  Checks.when (0 < missingAncestors) do
    reject (leaf ≠ .absent)
      (.invalidField "target observation" "missing ancestors require an absent leaf")
    let parentSegments := relativePath.count '/'
    reject
      (parentSegments < missingAncestors ∨
        ancestors.length ≠ parentSegments - missingAncestors - 1)
      (.invalidField "target observation"
        "missing ancestor count does not match the traversal shape")
  return ⟨authority, relativePath, traversalAnchor, ancestors, parent, leaf, missingAncestors⟩

def PreparedOperation.archiveProvenance : PreparedOperation → Option ArchiveProvenance
  | .placeTree _ _ provenance _ => provenance
  | _ => none

def TransformResource.key (resource : TransformResource) : Text ×ₗ Digest :=
  toLex (resource.name, resource.digest)

def TransformProvenance.new (name : Text) (implementation : TransformImplementation)
    (requestDigest documentDigest : Digest) (resources : List TransformResource)
    (responseDigest : Digest) (diagnostics : List TransformDiagnostic) :
    Except PreparedRecordError TransformProvenance := do
  validateLabel "transform name" name
  checkLimit "transform resources" resources.length maxTransformResources
  let resources := resources.insertionSort fun left right => left.key ≤ right.key
  rejectDuplicates "transform resource" (resources.map TransformResource.name)
  let diagnostics := diagnostics.insertionSort fun left right => left.key ≤ right.key
  let provenance : TransformProvenance :=
    ⟨name, implementation, requestDigest, documentDigest, resources, responseDigest, diagnostics⟩
  provenance.validate
  return provenance

structure PolicyFinding where
  id : Digest
  code : Text
  message : Text
  approvalRequired : Bool
deriving DecidableEq, Repr

section Findings

variable (sha256 : List UInt8 → Digest)

def policyFindingId (code message : Text) (approvalRequired : Bool) : Digest :=
  sha256 (utf8 "malm-policy-finding-v1\x00".toList ++ withLength (utf8 code) ++
    withLength (utf8 message) ++ [if approvalRequired then 1 else 0])

def PolicyFinding.new (code message : Text) (approvalRequired : Bool) :
    Except PreparedRecordError PolicyFinding := do
  validateLabel "policy finding code" code
  validateText "policy finding message" message (64 * 1024)
  return ⟨policyFindingId sha256 code message approvalRequired, code, message, approvalRequired⟩

def policyApprovalDigest (findings : List (Digest × Bool)) : Digest :=
  let ids := (findings.filter Prod.snd).map Prod.fst
  let ids := ids.insertionSort (· ≤ ·)
  sha256 (utf8 "malm-plan-approval-v1\x00".toList ++
    ids.flatMap fun id => withLength (utf8 (Pack.digestText id)))

end Findings

/-! ## 2. The record -/

structure SchemaVersions where
  store : Nat
  config : Nat
  pack : Nat
  lock : Nat
  formatComponent : Nat
deriving DecidableEq, Repr

def SchemaVersions.default : SchemaVersions := ⟨preparedRecordSchemaVersion, 1, 1, 1, 1⟩

/-- `PreparedRecordV1`, with every field that is persisted. -/
structure PreparedDocument extends PreparedRecord where
  schemaVersion : Nat
  schemaVersions : SchemaVersions
  findings : List PolicyFinding
deriving DecidableEq, Repr

/-- What decoding takes from SHA-256 and from the JSON library. -/
structure DocumentCodec where
  sha256 : List UInt8 → Digest
  /-- `encode_prepared_record_v1`. -/
  encode : PreparedDocument → List UInt8
  /-- `serde_json::from_slice`. -/
  parse : List UInt8 → Option PreparedDocument
  /-- `desired_snapshot_digest_v1`. -/
  desiredSnapshotDigest : NamespaceName → DesiredSnapshot → Digest

def sortFindings (findings : List PolicyFinding) : List PolicyFinding :=
  findings.insertionSort fun left right => left.id ≤ right.id

section Documents

variable (codec : DocumentCodec)

def PreparedDocument.validateEncodedSize (record : PreparedDocument) :
    Except PreparedRecordError Unit :=
  reject (maxPreparedRecordBytes < (codec.encode record).length)
    (.tooLarge maxPreparedRecordBytes (codec.encode record).length)

def PreparedDocument.tryFrom (record : PreparedDocument) (desiredSnapshot : DesiredSnapshot) :
    Except PreparedRecordError PreparedDocument := do
  checkLimit "inputs" record.inputs.length maxPreparedInputs
  checkLimit "artifacts" record.artifacts.length maxPreparedArtifacts
  checkLimit "transform provenance" record.transforms.length maxTransformProvenance
  checkLimit "policy findings" record.findings.length maxPolicyFindings
  checkLimit "operations" record.operations.length maxPreparedOperations
  asDesiredSnapshot (validateStateTargets desiredSnapshot.targets)
  record.transforms.forM TransformProvenance.validate
  rejectDuplicates "prepared input" (record.inputs.map PreparedInput.key)
  rejectDuplicates "artifact" (record.artifacts.map PreparedArtifact.id)
  rejectDuplicates "transform request" (record.transforms.map TransformProvenance.requestDigest)
  let findings := sortFindings record.findings
  rejectDuplicates "policy finding" (findings.map PolicyFinding.id)
  rejectDuplicates "operation destination" (record.operations.map PreparedOperation.key)
  rejectDestinationPrefixes record.operations
  let artifacts := sortArtifacts record.artifacts
  let bytes ← uniqueArtifactBytes [] 0 artifacts
  reject (maxPreparedUniqueArtifactBytes < bytes)
    (.invalidField "artifact bytes" "aggregate unique blob bytes exceed the plan limit")
  record.operations.forM (validatePreparedOperation artifacts)
  let built : PreparedDocument :=
    { record with
      schemaVersion := preparedRecordSchemaVersion, schemaVersions := .default
      transition := .reconcile, lifecycle := .enabled, restorePoint := none
      retention := .default, trackedRoot := none
      inputs := sortInputs record.inputs, artifacts := artifacts
      transforms := sortTransforms record.transforms, findings := findings
      approvalDigest := policyApprovalDigest codec.sha256
        (findings.map fun finding => (finding.id, finding.approvalRequired))
      desiredSnapshot := desiredSnapshot
      desiredSnapshotDigest := codec.desiredSnapshotDigest record.namespaceName desiredSnapshot }
  built.validateEncodedSize codec
  return built

def PreparedDocument.withTransition (record : PreparedDocument) (transition : PreparedTransition) :
    Except PreparedRecordError PreparedDocument := do
  let record := { record with transition := transition }
  record.validateEncodedSize codec
  return record

def PreparedDocument.withLifecycleState (record : PreparedDocument) (lifecycle : LifecycleState) :
    Except PreparedRecordError PreparedDocument := do
  let record := { record with lifecycle := lifecycle }
  record.validateEncodedSize codec
  return record

def PreparedDocument.withRestorePoint (record : PreparedDocument)
    (restorePoint : Option RestorePoint) : Except PreparedRecordError PreparedDocument := do
  whenSome restorePoint fun point =>
    validateRestorePoint point (some record.namespaceName)
  let record := { record with restorePoint := restorePoint }
  record.validateEncodedSize codec
  return record

def PreparedDocument.withRetentionAuthority (record : PreparedDocument)
    (retention : RetentionAuthority) : Except PreparedRecordError PreparedDocument := do
  validateRetentionAuthority retention (some record.namespaceName)
  let record := { record with retention := retention }
  record.validateEncodedSize codec
  return record

def PreparedDocument.withTrackedRoot (record : PreparedDocument)
    (trackedRoot : Option TrackedRoot) : Except PreparedRecordError PreparedDocument := do
  whenSome trackedRoot validateTrackedRoot
  let record := { record with trackedRoot := trackedRoot }
  record.validateEncodedSize codec
  return record

/-! ## 3. Decoding -/

/-- `validate_decoded`, up to the record it rebuilds. -/
def PreparedDocument.rebuild (record : PreparedDocument) :
    Except PreparedRecordError PreparedDocument := do
  let trackedRoot ← rebuildTrackedRoots record.trackedRoot
  reject
    (codec.desiredSnapshotDigest record.namespaceName record.desiredSnapshot ≠
      record.desiredSnapshotDigest)
    (.invalidDesiredSnapshot "digest differs from the complete persisted snapshot")
  let desiredSnapshot ← asDesiredSnapshot (DesiredSnapshot.new record.desiredSnapshot.targets)
  let built ← record.tryFrom codec desiredSnapshot
  let built ← built.withTransition codec record.transition
  let built ← built.withLifecycleState codec record.lifecycle
  let built ← built.withRestorePoint codec record.restorePoint
  let built ← built.withRetentionAuthority codec record.retention
  built.withTrackedRoot codec trackedRoot

def PreparedDocument.validateDecoded (record : PreparedDocument) :
    Except PreparedRecordError Unit := do
  let rebuilt ← record.rebuild codec
  Checks.when (¬ record.transition.isNamespaceRemoval)
    (validateSelectedRestoreAuthority record.lifecycle record.restorePoint record.retention)
  reject (rebuilt ≠ record) .nonCanonical

/-- The errors of `decode_prepared_record_v1`. -/
inductive DocumentError where
  | invalidJson
  | digestMismatch (expected actual : PreparedId)
  | record (error : PreparedRecordError)
deriving DecidableEq

def PreparedId.fromDigest (digest : Digest) : PreparedId := ⟨digest.value⟩

def decodePreparedRecord (expected : PreparedId) (bytes : List UInt8) :
    Except DocumentError PreparedDocument := do
  reject (maxPreparedRecordBytes < bytes.length)
    (.record (.tooLarge maxPreparedRecordBytes bytes.length))
  let record ← require (codec.parse bytes) .invalidJson
  reject (record.schemaVersion ≠ preparedRecordSchemaVersion)
    (.record (.unsupportedVersion preparedRecordSchemaVersion record.schemaVersion))
  reject (codec.encode record ≠ bytes) (.record .nonCanonical)
  let actual := PreparedId.fromDigest (codec.sha256 bytes)
  reject (actual ≠ expected) (.digestMismatch expected actual)
  (record.validateDecoded codec).mapError .record
  return record

end Documents

end Malm.Store
