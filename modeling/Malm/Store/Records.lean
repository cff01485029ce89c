/-
Malm.Store.Records — the canonical records of `malm-store`.

Field names follow the source. Records are plain data here; the checks the code
runs on them are in `Malm.Store.Validate` and `Malm.Store.Transition`. Counters,
sizes and times are unbounded, since the code only compares them. Left out of a
prepared record: its schema versions, and the text of its policy findings.
-/
import Malm.Types

namespace Malm.Store

/-! ## 1. Target states and snapshots -/

structure StateFile where
  digest : Digest
  byteLen : Nat
  mode : BitVec 32
deriving DecidableEq, Repr

structure StateDirectory where
  mode : BitVec 32
deriving DecidableEq, Repr

structure StateSymlink where
  object : Digest
deriving DecidableEq, Repr

structure ArchiveProvenance where
  payload : Digest
  decoder : Text
deriving DecidableEq, Repr

structure StateTree where
  tree : Digest
  archiveProvenance : Option ArchiveProvenance
deriving DecidableEq, Repr

/-- `StateTargetStateV1`: the kind of a slot and its present or absent value. -/
inductive StateTargetState where
  | file (value : Option StateFile)
  | directory (value : Option StateDirectory)
  | symlink (value : Option StateSymlink)
  | tree (value : Option StateTree)
deriving DecidableEq, Repr

def StateTargetState.isPresent : StateTargetState → Bool
  | .file value => value.isSome
  | .directory value => value.isSome
  | .symlink value => value.isSome
  | .tree value => value.isSome

def StateTargetState.absent : StateTargetState → StateTargetState
  | .file _ => .file none
  | .directory _ => .directory none
  | .symlink _ => .symlink none
  | .tree _ => .tree none

/-- `StateTargetV1`: one path-keyed slot. -/
structure StateTarget where
  authority : DeploymentName
  relativePath : Text
  state : StateTargetState
deriving DecidableEq, Repr

def StateTarget.isPresent (target : StateTarget) : Bool := target.state.isPresent

def StateTarget.key (target : StateTarget) : DeploymentName × Text :=
  (target.authority, target.relativePath)

structure DesiredSnapshot where
  targets : List StateTarget
deriving DecidableEq, Repr

def DesiredSnapshot.empty : DesiredSnapshot := ⟨[]⟩

def DesiredSnapshot.isEmpty (snapshot : DesiredSnapshot) : Bool := snapshot.targets.isEmpty

/-! ## 2. Tracked roots and retention authority -/

inductive LifecycleState where
  | enabled
  | disabled
deriving DecidableEq, Repr

def LifecycleState.isEnabled : LifecycleState → Bool
  | .enabled => true
  | .disabled => false

inductive AcquisitionGrantKind where
  | localSource
  | gitSource
  | formatComponent
  | targetAuthority
deriving DecidableEq, Repr

/-- The declaration order the derived `Ord` compares by. -/
def AcquisitionGrantKind.rank : AcquisitionGrantKind → Nat
  | .localSource => 0
  | .gitSource => 1
  | .formatComponent => 2
  | .targetAuthority => 3

structure AcquisitionGrant where
  kind : AcquisitionGrantKind
  locator : Text
deriving DecidableEq, Repr

structure TrackedRoot where
  schemaVersion : Nat
  sourceLocator : Text
  movingSelector : Text
  appliedRevision : Text
  rootTreeDigest : Digest
  sourceSubdir : Text
  configEntryPoint : Text
  selectedProfile : Text
  acquisitionGrants : List AcquisitionGrant
deriving DecidableEq, Repr

structure RestorePoint where
  namespaceName : NamespaceName
  generation : Digest
  lifecycle : LifecycleState
  desiredSnapshotDigest : Digest
  trackedRoot : Option TrackedRoot
deriving DecidableEq, Repr

/-- `RetentionObjectV1`: an object selected by explicit retention authority. -/
inductive RetentionObject where
  | preparedPlan (planId : PreparedId)
  | stateGeneration (digest : Digest)
  | artifactBlob (digest : Digest)
  | packObject (digest : Digest)
  | canonicalFile (digest : Digest)
  | canonicalSymlink (digest : Digest)
  | canonicalTree (digest : Digest)
deriving DecidableEq, Repr

/-- The derived order of `RetentionObjectV1`: constructor, then identity. -/
def RetentionObject.rank : RetentionObject → Nat × Nat
  | .preparedPlan planId => (0, planId.value)
  | .stateGeneration digest => (1, digest.value)
  | .artifactBlob digest => (2, digest.value)
  | .packObject digest => (3, digest.value)
  | .canonicalFile digest => (4, digest.value)
  | .canonicalSymlink digest => (5, digest.value)
  | .canonicalTree digest => (6, digest.value)

def RetentionObject.before (left right : RetentionObject) : Bool :=
  left.rank.1 < right.rank.1 || (left.rank.1 = right.rank.1 && left.rank.2 < right.rank.2)

/-- `RetentionAuthorityV1`; `history` is `HistoryRetentionPolicyV1::generations`. -/
structure RetentionAuthority where
  history : Nat
  restorePoints : List RestorePoint
  explicitPins : List RetentionObject
deriving DecidableEq, Repr

/-- `PreparedTransitionV1`. A removal's history disposition is always `Drop`. -/
inductive PreparedTransition where
  | reconcile
  | disable
  | enable (restorePoint : RestorePoint)
  | checkout (sourceGeneration : Digest)
  | retentionAuthority
  | namespaceRemoval
deriving DecidableEq, Repr

def PreparedTransition.isNamespaceRemoval : PreparedTransition → Bool
  | .namespaceRemoval => true
  | _ => false

/-! ## 3. Observations and operations -/

/-- `FileIdentityV1`: what `stat` reports about one file-system object. -/
structure FileIdentity where
  device : Nat
  inode : Nat
  userId : Nat
  groupId : Nat
  mode : BitVec 32
  links : Nat
  size : Nat
  modifiedSeconds : Int
  modifiedNanoseconds : Nat
  changedSeconds : Int
  changedNanoseconds : Nat
deriving DecidableEq, Repr

inductive LeafObservation where
  | absent
  | present (identity : FileIdentity)
deriving DecidableEq, Repr

def LeafObservation.isPresent : LeafObservation → Bool
  | .absent => false
  | .present _ => true

structure TargetObservation where
  authority : DeploymentName
  relativePath : Text
  traversalAnchor : FileIdentity
  ancestors : List FileIdentity
  parent : FileIdentity
  leaf : LeafObservation
  missingAncestors : Nat
deriving DecidableEq, Repr

def TargetObservation.key (observation : TargetObservation) : DeploymentName × Text :=
  (observation.authority, observation.relativePath)

inductive PreparedOperation where
  | ensureDirectory (observation : TargetObservation) (mode : BitVec 32)
  | placeFile (observation : TargetObservation) (artifactId : ArtifactId) (mode : BitVec 32)
      (replaceExisting : Bool)
  | placeSymlink (observation : TargetObservation) (object : Digest) (replaceExisting : Bool)
  | placeTree (observation : TargetObservation) (tree : Digest)
      (archiveProvenance : Option ArchiveProvenance) (replaceExisting : Bool)
  | removeLeaf (observation : TargetObservation)
  | assertAbsent (observation : TargetObservation)
  | assertExact (observation : TargetObservation) (state : StateTargetState)
deriving DecidableEq, Repr

namespace PreparedOperation

def observation : PreparedOperation → TargetObservation
  | ensureDirectory observed _ => observed
  | placeFile observed _ _ _ => observed
  | placeSymlink observed _ _ => observed
  | placeTree observed _ _ _ => observed
  | removeLeaf observed => observed
  | assertAbsent observed => observed
  | assertExact observed _ => observed

def artifactId : PreparedOperation → Option ArtifactId
  | placeFile _ id _ _ => some id
  | _ => none


def isAssertAbsent : PreparedOperation → Bool
  | assertAbsent _ => true
  | _ => false

def key (operation : PreparedOperation) : DeploymentName × Text := operation.observation.key

end PreparedOperation

/-! ## 4. Prepared plans -/

inductive PreparedInputKind where
  | source
  | config
  | lock
  | component
  | asset
  | other
deriving DecidableEq, Repr

structure PreparedInput where
  kind : PreparedInputKind
  name : Text
  digest : Digest
deriving DecidableEq, Repr

structure PreparedArtifact where
  id : ArtifactId
  digest : Digest
  byteLen : Nat
  mediaType : Text
deriving DecidableEq, Repr

inductive TransformImplementation where
  | builtIn (implementation : Text)
  | component (packNodeId : Text) (packContentDigest : Digest) (componentPath : Text)
      (componentDigest : Digest) (interfaceVersion : Text) (executionProfileDigest : Digest)
deriving DecidableEq, Repr

inductive TransformDiagnosticSeverity where
  | error
  | warning
  | info
deriving DecidableEq, Repr

inductive TransformDiagnosticLocation where
  | source (authorityLabel : Text) (authorityIdentity : Digest) (documentPath : Text)
      (sourceByteLen start stop : Nat)
  | output (start stop : Nat)
deriving DecidableEq, Repr

structure TransformDiagnostic where
  severity : TransformDiagnosticSeverity
  code : Text
  message : Text
  primary : Option TransformDiagnosticLocation
  notes : List Text
deriving DecidableEq, Repr

structure TransformResource where
  name : Text
  digest : Digest
deriving DecidableEq, Repr

structure TransformProvenance where
  name : Text
  implementation : TransformImplementation
  requestDigest : Digest
  documentDigest : Digest
  resources : List TransformResource
  responseDigest : Digest
  diagnostics : List TransformDiagnostic
deriving DecidableEq, Repr

/-- `PreparedRecordV1`: the complete immutable input of one commit. -/
structure PreparedRecord where
  namespaceName : NamespaceName
  expectedHead : Option Digest
  transition : PreparedTransition
  lifecycle : LifecycleState
  restorePoint : Option RestorePoint
  retention : RetentionAuthority
  trackedRoot : Option TrackedRoot
  graphDigest : Digest
  inputs : List PreparedInput
  artifacts : List PreparedArtifact
  transforms : List TransformProvenance
  approvalDigest : Digest
  operations : List PreparedOperation
  desiredSnapshot : DesiredSnapshot
  desiredSnapshotDigest : Digest
deriving DecidableEq, Repr

/-! ## 5. Generations and the catalog -/

structure StateArtifact where
  id : ArtifactId
  digest : Digest
deriving DecidableEq, Repr

structure StateGeneration where
  namespaceName : NamespaceName
  planId : PreparedId
  previousGeneration : Option Digest
  transition : PreparedTransition
  lifecycle : LifecycleState
  restorePoint : Option RestorePoint
  retention : RetentionAuthority
  trackedRoot : Option TrackedRoot
  desiredSnapshot : DesiredSnapshot
  desiredSnapshotDigest : Digest
  artifacts : List StateArtifact
  transforms : List TransformProvenance
deriving DecidableEq, Repr

def StateGeneration.targets (generation : StateGeneration) : List StateTarget :=
  generation.desiredSnapshot.targets

structure NamespaceHead where
  namespaceName : NamespaceName
  generation : Digest
deriving DecidableEq, Repr

/-! ## 6. Ownership claims -/

/-- `OwnershipClaimV1`: one present target of a selected namespace. -/
structure OwnershipClaim where
  namespaceName : NamespaceName
  authority : DeploymentName
  relativePath : Text
deriving DecidableEq, Repr

inductive OwnershipOverlapKind where
  | exact
  | ancestorDescendant
  | physicalAuthorityAlias
deriving DecidableEq, Repr

end Malm.Store
