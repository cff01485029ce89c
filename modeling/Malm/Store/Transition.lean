/-
Malm.Store.Transition — what a prepared plan has to do: reconciliation of
desired snapshots, the required mutations, the operation manifest, and the lifecycle
transitions (`ownership.rs`, `state.rs`).

The target keys of both snapshots are walked in `BTreeSet` order (`unionKeys`). The
binary searches run on strictly sorted slots and are `DesiredSnapshot.target`.
-/
import Malm.Store.State

namespace Malm.Store

open Checks

/-! ## 1. Reconciliation -/

/-- Replace the slot of the same key, or insert at its position. -/
def insertTarget (target : StateTarget) : List StateTarget → List StateTarget
  | [] => [target]
  | first :: rest =>
    if toLex target.key < toLex first.key then
      target :: first :: rest
    else if first.key = target.key then
      target :: rest
    else
      first :: insertTarget target rest

/-- `reconcile_desired_snapshot_v1`: the declared targets over the predecessor's tombstones. -/
def reconcileDesiredSnapshot (previous : Option DesiredSnapshot) (declared : List StateTarget) :
    Except StateRecordError DesiredSnapshot := do
  whenSome previous fun snapshot => validateStateTargets snapshot.targets
  let declared ← DesiredSnapshot.new declared
  let tombstones := ((previous.map DesiredSnapshot.targets).getD []).map fun target =>
    { target with state := target.state.absent }
  DesiredSnapshot.new (declared.targets.foldl (fun targets target => insertTarget target targets)
    tombstones)

/-! ## 2. Required mutations -/

inductive RequiredTargetMutation where
  | ensureDirectory (authority : DeploymentName) (relativePath : Text) (mode : BitVec 32)
  | placeFile (authority : DeploymentName) (relativePath : Text) (digest : Digest) (byteLen : Nat)
      (mode : BitVec 32)
  | placeSymlink (authority : DeploymentName) (relativePath : Text) (object : Digest)
  | placeTree (authority : DeploymentName) (relativePath : Text) (tree : Digest)
      (archiveProvenance : Option ArchiveProvenance)
  | removeLeaf (authority : DeploymentName) (relativePath : Text)
  | assertExact (authority : DeploymentName) (relativePath : Text) (state : StateTargetState)
deriving DecidableEq, Repr

def RequiredTargetMutation.key : RequiredTargetMutation → DeploymentName × Text
  | .ensureDirectory authority relativePath _ => (authority, relativePath)
  | .placeFile authority relativePath _ _ _ => (authority, relativePath)
  | .placeSymlink authority relativePath _ => (authority, relativePath)
  | .placeTree authority relativePath _ _ => (authority, relativePath)
  | .removeLeaf authority relativePath => (authority, relativePath)
  | .assertExact authority relativePath _ => (authority, relativePath)

abbrev EffectiveState := LifecycleState × DesiredSnapshot

def effectiveTargetIsPresent (state : Option EffectiveState) (key : DeploymentName × Text) :
    Bool :=
  match state with
  | none => false
  | some (lifecycle, snapshot) =>
    lifecycle.isEnabled && (snapshot.target key).any StateTarget.isPresent

/-- The union of the target keys, in order and without duplicates. -/
def unionKeys (previous : Option EffectiveState) (next : DesiredSnapshot) :
    List (DeploymentName × Text) :=
  let keys := ((previous.map fun (_, snapshot) => snapshot.targets).getD [] ++ next.targets).map
    StateTarget.key
  keys.dedup.insertionSort fun left right => toLex left ≤ toLex right

/-- `reference_state`: the next slot's state, else the previous one's. -/
def referenceState (previousTarget nextTarget : Option StateTarget) : StateTargetState :=
  match nextTarget, previousTarget with
  | some target, _ => target.state
  | none, some target => target.state
  | none, none => .file none

/-- `before`: the previous state of an enabled predecessor, else absent. -/
def stateBefore (previous : Option EffectiveState) (previousTarget : Option StateTarget)
    (reference : StateTargetState) : StateTargetState :=
  match previous, previousTarget with
  | some (lifecycle, _), some target =>
    if lifecycle.isEnabled then target.state else reference.absent
  | _, _ => reference.absent

def stateAfter (nextLifecycle : LifecycleState) (nextTarget : Option StateTarget)
    (reference : StateTargetState) : StateTargetState :=
  match nextTarget with
  | some target => if nextLifecycle.isEnabled then target.state else reference.absent
  | none => reference.absent

/-- `releases_structural_directory`: a managed directory with effective descendants stays. -/
def releasesStructuralDirectory (previous : Option EffectiveState)
    (nextLifecycle : LifecycleState) (next : DesiredSnapshot) (keys : List (DeploymentName × Text))
    (key : DeploymentName × Text) (before after : StateTargetState) : Bool :=
  (match before with | .directory (some _) => true | _ => false) && !after.isPresent &&
    keys.any fun candidate =>
      candidate.1 = key.1 && key.2.isAncestor candidate.2 &&
        (effectiveTargetIsPresent previous candidate ||
          effectiveTargetIsPresent (some (nextLifecycle, next)) candidate)

def mutationTo (key : DeploymentName × Text) (before after : StateTargetState) :
    Except StateRecordError RequiredTargetMutation :=
  match after with
  | .file (some file) => .ok (.placeFile key.1 key.2 file.digest file.byteLen file.mode)
  | .directory (some directory) => .ok (.ensureDirectory key.1 key.2 directory.mode)
  | .symlink (some symlink) => .ok (.placeSymlink key.1 key.2 symlink.object)
  | .tree (some tree) => .ok (.placeTree key.1 key.2 tree.tree tree.archiveProvenance)
  | _ =>
    if !before.isPresent then
      .error (.invalidState "an absent desired target cannot require removal")
    else
      .ok (.removeLeaf key.1 key.2)

/-- The body of the loop over the union keys. -/
def requiredMutationAt (previous : Option EffectiveState) (nextLifecycle : LifecycleState)
    (next : DesiredSnapshot) (keys : List (DeploymentName × Text))
    (key : DeploymentName × Text) : Except StateRecordError (Option RequiredTargetMutation) :=
  let previousTarget := previous.bind fun (_, snapshot) => snapshot.target key
  let nextTarget := next.target key
  let reference := referenceState previousTarget nextTarget
  let before := stateBefore previous previousTarget reference
  let after := stateAfter nextLifecycle nextTarget reference
  if releasesStructuralDirectory previous nextLifecycle next keys key before after then
    .ok none
  else if before = after then
    .ok (if after.isPresent then some (.assertExact key.1 key.2 after) else none)
  else do
    let mutation ← mutationTo key before after
    return some mutation

def requiredTargetMutations (previous : Option EffectiveState) (nextLifecycle : LifecycleState)
    (next : DesiredSnapshot) : Except StateRecordError (List RequiredTargetMutation) := do
  validateStateTargets next.targets
  whenSome previous fun (_, snapshot) => validateStateTargets snapshot.targets
  let keys := unionKeys previous next
  let mutations ← keys.mapM (requiredMutationAt previous nextLifecycle next keys)
  return mutations.filterMap id

/-! ## 3. Destinations and operation semantics -/

inductive DestinationShape where
  | directory
  | removal
  | leaf
deriving DecidableEq, Repr

def destinationShape : PreparedOperation → DestinationShape
  | .ensureDirectory _ _ => .directory
  | .assertExact _ (.directory (some _)) => .directory
  | .removeLeaf _ => .removal
  | _ => .leaf

def absenceShaped : PreparedOperation → Bool
  | .removeLeaf _ => true
  | .assertAbsent _ => true
  | _ => false

def destinationPairAllowed (left right : PreparedOperation) : Bool :=
  !(left.observation.authority = right.observation.authority &&
    left.observation.relativePath.isAncestor right.observation.relativePath) ||
  match destinationShape left with
  | .directory => true
  | .removal => absenceShaped right
  | .leaf => false

/-- `reject_destination_prefixes`: neighbours in path order. -/
def rejectDestinationPrefixes (operations : List PreparedOperation) :
    Except PreparedRecordError Unit :=
  let destinations := operations.insertionSort fun left right =>
    toLex (left.observation.authority, left.observation.relativePath.segments) ≤
      toLex (right.observation.authority, right.observation.relativePath.segments)
  reject (¬ destinations.IsChain fun left right => destinationPairAllowed left right)
    (.invalidField "operation destination"
      "destinations must not be ancestors or descendants of one another")

def validateOperationSemantics : PreparedOperation → Except PreparedRecordError Unit
  | .placeFile observation _ _ replaceExisting =>
    reject (observation.leaf.isPresent ∧ ¬ replaceExisting)
      (.invalidField "place-file conflict policy"
        "an existing leaf requires replacement permission")
  | .placeSymlink observation _ replaceExisting =>
    reject (observation.leaf.isPresent ∧ ¬ replaceExisting)
      (.invalidField "place-symlink conflict policy"
        "an existing leaf requires replacement permission")
  | .placeTree observation _ _ replaceExisting =>
    reject (observation.leaf.isPresent ∧ ¬ replaceExisting)
      (.invalidField "place-tree conflict policy"
        "an existing leaf requires replacement permission")
  | .assertAbsent observation =>
    reject observation.leaf.isPresent
      (.invalidField "assert-absent leaf" "an absence assertion requires an absent leaf")
  | .assertExact observation state => do
    reject (¬ observation.leaf.isPresent)
      (.invalidField "assert-exact leaf" "an exact assertion requires a present leaf")
    reject (¬ state.isPresent)
      (.invalidField "assert-exact state" "an exact assertion requires present desired state")
    asDesiredSnapshot (validateTargetState state)
  | .ensureDirectory _ _ => .ok ()
  | .removeLeaf _ => .ok ()

/-! ## 4. The operation manifest -/

/-- `validate_required_operation`'s match, once the artifact is looked up. -/
def requiredOperationMatches (required : RequiredTargetMutation) (operation : PreparedOperation)
    (beforePresent structuralDirectory : Bool) (artifact : Option PreparedArtifact) : Bool :=
  let observedPresent := operation.observation.leaf.isPresent
  let observationMatchesBefore := observedPresent == beforePresent
  match required, operation with
  | .ensureDirectory _ _ requiredMode, .ensureDirectory _ mode =>
    mode = requiredMode && observationMatchesBefore
  | .ensureDirectory _ _ requiredMode, .assertExact _ (.directory (some directory)) =>
    !beforePresent && observedPresent && structuralDirectory && directory.mode = requiredMode
  | .placeFile _ _ digest byteLen requiredMode, .placeFile _ _ mode replaceExisting =>
    artifact.any (fun artifact => artifact.digest = digest && artifact.byteLen = byteLen) &&
      mode = requiredMode && replaceExisting = observedPresent
  | .placeSymlink _ _ requiredObject, .placeSymlink _ object replaceExisting =>
    object = requiredObject && replaceExisting = observedPresent
  | .placeTree _ _ requiredTree requiredProvenance,
      .placeTree _ tree archiveProvenance replaceExisting =>
    tree = requiredTree && archiveProvenance = requiredProvenance &&
      replaceExisting = observedPresent
  | .removeLeaf _ _, .removeLeaf _ => beforePresent
  | .assertExact _ _ requiredState, .assertExact _ state =>
    beforePresent && observationMatchesBefore && state = requiredState
  | .assertExact _ _ (.file (some file)), .placeFile _ _ mode replaceExisting =>
    beforePresent && replaceExisting = observedPresent &&
      artifact.any (fun artifact =>
        artifact.digest = file.digest && artifact.byteLen = file.byteLen) &&
      mode = file.mode
  | .assertExact _ _ (.symlink (some symlink)), .placeSymlink _ object replaceExisting =>
    beforePresent && !observedPresent && !replaceExisting && object = symlink.object
  | .assertExact _ _ (.tree (some tree)), .placeTree _ placedTree archiveProvenance replaceExisting =>
    beforePresent && !observedPresent && !replaceExisting && placedTree = tree.tree &&
      archiveProvenance = tree.archiveProvenance
  | .assertExact _ _ (.directory (some directory)), .ensureDirectory _ mode =>
    beforePresent && !observedPresent && mode = directory.mode
  | _, _ => false

def looksUpArtifact : RequiredTargetMutation → PreparedOperation → Bool
  | .placeFile _ _ _ _ _, .placeFile _ _ _ _ => true
  | .assertExact _ _ (.file (some _)), .placeFile _ _ _ _ => true
  | _, _ => false

def validateRequiredOperation (required : RequiredTargetMutation) (operation : PreparedOperation)
    (beforePresent structuralDirectory : Bool) (artifacts : List PreparedArtifact) :
    Except StateRecordError Unit := do
  let artifact := artifacts.find? fun artifact => some artifact.id = operation.artifactId
  reject (looksUpArtifact required operation ∧ artifact.isNone)
    (.invalidState "operation references unknown artifact")
  reject
    (¬ requiredOperationMatches required operation beforePresent structuralDirectory artifact)
    (.operationAt "does not match its required lifecycle mutation" required.key.1
      required.key.2)

def validateManifestOperation (previous : Option EffectiveState) (nextLifecycle : LifecycleState)
    (next : DesiredSnapshot) (artifacts : List PreparedArtifact)
    (operations : List PreparedOperation) (required : List RequiredTargetMutation)
    (operation : PreparedOperation) : Except StateRecordError Unit :=
  if operation.isAssertAbsent then
    reject
      (effectiveTargetIsPresent previous operation.key ∨
        effectiveTargetIsPresent (some (nextLifecycle, next)) operation.key)
      (.operationAt "absence assertion conflicts with effective desired target" operation.key.1
        operation.key.2)
  else do
    let mutation ← require (required.find? fun mutation => mutation.key = operation.key)
      (.operationAt "operation is not required by the lifecycle transition" operation.key.1
        operation.key.2)
    let structuralDirectory :=
      (match mutation with | .ensureDirectory _ _ _ => true | _ => false) &&
        operations.any fun candidate =>
          candidate.observation.authority = operation.observation.authority &&
            operation.observation.relativePath.isAncestor candidate.observation.relativePath
    validateRequiredOperation mutation operation (effectiveTargetIsPresent previous operation.key)
      structuralDirectory artifacts

def validateOperationManifest (previous : Option EffectiveState) (nextLifecycle : LifecycleState)
    (next : DesiredSnapshot) (artifacts : List PreparedArtifact)
    (operations : List PreparedOperation) : Except StateRecordError Unit := do
  reject (maxPreparedOperations < operations.length)
    (.invalidState "operation count exceeds limit")
  asState (rejectDuplicates "operation destination" (operations.map PreparedOperation.key))
  asState (rejectDestinationPrefixes operations)
  operations.forM fun operation => asState (validateOperationSemantics operation)
  let required ← requiredTargetMutations previous nextLifecycle next
  reject (¬ (artifacts.map PreparedArtifact.id).Nodup)
    (.invalidState "operation manifest artifact identifiers must be unique")
  operations.forM
    (validateManifestOperation previous nextLifecycle next artifacts operations required)
  let satisfied := (operations.filter (!·.isAssertAbsent)).map PreparedOperation.key
  rejectSome (required.find? fun mutation => mutation.key ∉ satisfied) fun missing =>
    .operationAt "operation manifest omits required mutation" missing.key.1 missing.key.2

/-! ## 5. Lifecycle transitions -/

def validateRestorePointGeneration (codec : Codec) (point : RestorePoint)
    (generation : StateGeneration) : Except StateRecordError Unit :=
  reject
    (point.namespaceName ≠ generation.namespaceName ∨
      point.generation ≠ codec.generationDigest generation ∨
      point.lifecycle ≠ generation.lifecycle ∨
      point.desiredSnapshotDigest ≠ generation.desiredSnapshotDigest ∨
      point.trackedRoot ≠ generation.trackedRoot)
    (.invalidState "restore point does not identify the exact referenced generation state")

def validatePreparedTransitionKind (codec : Codec) (previous : Option StateGeneration)
    (prepared : PreparedRecord) : Except StateRecordError Unit :=
  match prepared.transition with
  | .reconcile =>
    reject (prepared.lifecycle ≠ .enabled ∨ prepared.restorePoint.isSome)
      (.invalidState "reconciliation must publish an enabled generation without a selected restore point")
  | .disable => do
    let previous ← require previous (.invalidState "disable requires a predecessor")
    reject
      (previous.lifecycle ≠ .enabled ∨ prepared.lifecycle ≠ .disabled ∨
        ¬ prepared.desiredSnapshot.isEmpty ∨ prepared.trackedRoot.isSome)
      (.invalidState "disable must transition enabled state to a disabled empty snapshot with tracking held only by its restore point")
    let point ← require prepared.restorePoint
      (.invalidState "disable requires an explicit restore point")
    validateRestorePointGeneration codec point previous
    reject (point ∉ prepared.retention.restorePoints)
      (.invalidState "disable restore point must be retained by the next authority")
  | .enable restorePoint => do
    let previous ← require previous (.invalidState "enable requires a predecessor")
    reject
      (previous.lifecycle ≠ .disabled ∨ previous.restorePoint ≠ some restorePoint ∨
        restorePoint.lifecycle ≠ .enabled ∨ prepared.lifecycle ≠ .enabled ∨
        prepared.restorePoint.isSome ∨
        prepared.desiredSnapshotDigest ≠ restorePoint.desiredSnapshotDigest ∨
        prepared.trackedRoot ≠ restorePoint.trackedRoot)
      (.invalidState "enable must exactly restore the selected disabled generation's enabled restore point")
  | .checkout _ =>
    reject (previous.isNone = true)
      (.invalidState "checkout must append from a selected current head")
  | .retentionAuthority => do
    let previous ← require previous
      (.invalidState "retention-authority update requires a predecessor")
    reject
      (prepared.lifecycle ≠ previous.lifecycle ∨ prepared.restorePoint ≠ previous.restorePoint ∨
        prepared.trackedRoot ≠ previous.trackedRoot ∨
        prepared.desiredSnapshot ≠ previous.desiredSnapshot)
      (.invalidState "retention-authority update cannot change selected lifecycle state")
  | .namespaceRemoval => do
    let previous ← require previous
      (.invalidState "namespace removal requires a selected predecessor")
    reject
      (prepared.lifecycle ≠ .disabled ∨ ¬ prepared.desiredSnapshot.isEmpty ∨
        prepared.restorePoint.isSome ∨ prepared.trackedRoot.isSome ∨
        prepared.retention ≠ previous.retention)
      (.invalidState "namespace removal must reconcile to empty state and explicitly drop the prior authority")

/-- The predecessor part of `validate_prepared_transition_v1`. -/
def validatePredecessor (codec : Codec) (previous : Option StateGeneration)
    (prepared : PreparedRecord) : Except StateRecordError Unit :=
  match previous, prepared.expectedHead with
  | none, none => .ok ()
  | none, some _ =>
    .error (.invalidState "prepared transition names a predecessor but none was supplied")
  | some _, none =>
    .error (.invalidState "prepared transition omits its supplied predecessor")
  | some previous, some expected => do
    validateStateGeneration codec previous
    reject (previous.namespaceName ≠ prepared.namespaceName)
      (.invalidState "prepared transition crosses namespace history")
    reject (codec.generationDigest previous ≠ expected)
      (.invalidState "prepared transition predecessor digest differs from supplied generation")

def validatePreparedTransition (codec : Codec) (previous : Option StateGeneration)
    (prepared : PreparedRecord) : Except StateRecordError Unit := do
  validatePredecessor codec previous prepared
  validateStateTargets prepared.desiredSnapshot.targets
  whenSome prepared.restorePoint fun point =>
    asState (validateRestorePoint point (some prepared.namespaceName))
  asState (validateRetentionAuthority prepared.retention (some prepared.namespaceName))
  Checks.when (¬ prepared.transition.isNamespaceRemoval)
    (asState (validateSelectedRestoreAuthority prepared.lifecycle prepared.restorePoint
      prepared.retention))
  reject
    (codec.desiredSnapshotDigest prepared.namespaceName prepared.desiredSnapshot ≠
      prepared.desiredSnapshotDigest)
    (.invalidState "prepared desired-snapshot digest differs from its complete snapshot")
  validatePreparedTransitionKind codec previous prepared
  validateOperationManifest
    (previous.map fun generation => (generation.lifecycle, generation.desiredSnapshot))
    prepared.lifecycle prepared.desiredSnapshot prepared.artifacts prepared.operations

/-! ## 6. Generations from plans -/

/-- The fields both constructors of `StateGenerationV1` copy from the plan. -/
def generationOf (planId : PreparedId) (previousGeneration : Option Digest)
    (prepared : PreparedRecord) : StateGeneration where
  namespaceName := prepared.namespaceName
  planId := planId
  previousGeneration := previousGeneration
  transition := prepared.transition
  lifecycle := prepared.lifecycle
  restorePoint := prepared.restorePoint
  retention := prepared.retention
  trackedRoot := prepared.trackedRoot
  desiredSnapshot := prepared.desiredSnapshot
  desiredSnapshotDigest := prepared.desiredSnapshotDigest
  artifacts := prepared.artifacts.map fun artifact => ⟨artifact.id, artifact.digest⟩
  transforms := prepared.transforms

def fromPrepared (codec : Codec) (planId : PreparedId) (previousGeneration : Option Digest)
    (previous : Option StateGeneration) (prepared : PreparedRecord) :
    Except StateRecordError StateGeneration := do
  reject (planId ≠ codec.preparedId prepared)
    (.invalidState "generation plan identity differs from its prepared record")
  reject (prepared.expectedHead ≠ previousGeneration)
    (.invalidState "prepared namespace-head precondition differs from the predecessor")
  reject (previousGeneration.isSome ≠ previous.isSome)
    (.invalidState "previous generation identity and record presence differ")
  reject
    ((match previousGeneration, previous with
      | some expected, some previous => codec.generationDigest previous ≠ expected
      | _, _ => false) = true)
    (.invalidState "predecessor bytes differ from the previous generation identity")
  reject (previous.any fun previous => previous.namespaceName ≠ prepared.namespaceName)
    (.invalidState "generation namespace differs from its predecessor")
  validatePreparedTransition codec previous prepared
  reject (prepared.transition.isNamespaceRemoval = true)
    (.invalidState "namespace removal cannot produce a state generation")
  let generation := generationOf planId previousGeneration prepared
  reject (maxStateRecordBytes < codec.generationBytes generation)
    (.tooLarge maxStateRecordBytes (codec.generationBytes generation))
  return generation

def fromRetainedPrepared (codec : Codec) (planId : PreparedId)
    (previousGeneration : Option Digest) (prepared : PreparedRecord) :
    Except StateRecordError StateGeneration := do
  reject (planId ≠ codec.preparedId prepared)
    (.invalidState "generation plan identity differs from its prepared record")
  reject (prepared.expectedHead ≠ previousGeneration)
    (.invalidState "prepared namespace-head precondition differs from the retained predecessor edge")
  reject (prepared.transition.isNamespaceRemoval = true)
    (.invalidState "namespace removal cannot produce a state generation")
  validateStateTargets prepared.desiredSnapshot.targets
  reject
    (codec.desiredSnapshotDigest prepared.namespaceName prepared.desiredSnapshot ≠
      prepared.desiredSnapshotDigest)
    (.invalidState "prepared desired-snapshot digest differs from its complete snapshot")
  let generation := generationOf planId previousGeneration prepared
  validateStateGeneration codec generation
  return generation

end Malm.Store
