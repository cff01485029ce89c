/-
Malm.Engine.Plan — the findings and the record of a plan (the second half
of `prepare_inner`).

The identity of a finding hashes its code, its message and whether it needs approval;
findings are compared as these values. A plan is its record and its findings.
-/
import Malm.Engine.Prepare
import Malm.Commit.Inspection

namespace Malm.Engine

open Store Commit Target Checks

/-! ## 1. Canonical objects -/

def verifyCanonicalOperation (objects : CanonicalObjects) (operation : PrepareOperation) :
    Except CanonicalObjectIssue Unit :=
  let symlink := fun (object : Digest) => do
    let target ← require (objects.symlinks.get? object) (.missing "symlink" object)
    let _ ← safeTargetPath "link".toList target
    return ()
  let tree := fun (tree : Digest) =>
    reject (objects.trees.contains tree = false) (.missing "tree" tree)
  match operation with
  | .placeSymlink _ _ object _ => symlink object
  | .placeTree _ _ digest _ _ => tree digest
  | .assertExact _ _ (.symlink object) => symlink object
  | .assertExact _ _ (.tree digest _) => tree digest
  | _ => .ok ()

def verifyPreviousCanonicalOperation (objects : CanonicalObjects)
    (previous : Option StateGeneration) (operation : PrepareOperation) :
    Except CanonicalObjectIssue Unit :=
  match previousTargetState previous operation.key with
  | some (.symlink (some symlink)) => do
    let target ← require (objects.symlinks.get? symlink.object)
      (.missing "symlink" symlink.object)
    let _ ← safeTargetPath "link".toList target
    return ()
  | some (.tree (some tree)) => objects.validateTree tree.tree
  | _ => .ok ()

/-- `verify_canonical_operations` and `verify_previous_canonical_operations`. -/
def verifyCanonical (objects : CanonicalObjects) (previous : Option StateGeneration)
    (operations : List PrepareOperation) : Except EngineError Unit := do
  (operations.forM (verifyCanonicalOperation objects)).mapError .canonical
  (operations.forM (verifyPreviousCanonicalOperation objects previous)).mapError .canonical

/-! ## 2. Missing ancestors -/

def missingPaths (observation : TargetObservation) : List Text :=
  observation.relativePath.ancestorPaths.drop
    (observation.relativePath.ancestorPaths.length - observation.missingAncestors)

/-- The check of one operation: every missing parent is created before it. -/
def coveredBy (created : List TargetKey) (operation : PreparedOperation) :
    Except EngineError Unit :=
  let observation := operation.observation
  Checks.when (absenceShaped operation = false)
    (rejectSome
      ((missingPaths observation).find? fun path => (observation.authority, path) ∉ created)
      (.missingManagedAncestor observation.authority observation.relativePath))

def createdBy : PreparedOperation → List TargetKey
  | .ensureDirectory observation _ => [observation.key]
  | _ => []

/-- The loop of `verify_missing_ancestor_coverage`. -/
def coverageFrom : List TargetKey → List PreparedOperation → Except EngineError Unit
  | _, [] => .ok ()
  | created, operation :: rest => do
    coveredBy created operation
    coverageFrom (createdBy operation ++ created) rest

def verifyMissingAncestorCoverage (operations : List PreparedOperation) :
    Except EngineError Unit :=
  coverageFrom [] operations

/-! ## 3. Findings -/

structure PolicyFinding where
  code : Text
  message : Text
  approvalRequired : Bool
deriving DecidableEq, Repr

def PolicyFinding.new (finding : PolicyFinding) : Except PreparedRecordError PolicyFinding := do
  validateLabel "policy finding code" finding.code
  validateText "policy finding message" finding.message (64 * 1024)
  return finding

def targetMessage (action : String) (key : TargetKey) : Text :=
  action.toList ++ ' ' :: key.1 ++ ':' :: key.2

def targetFinding (code action : String) (key : TargetKey) (approvalRequired : Bool) :
    PolicyFinding :=
  ⟨code.toList, targetMessage action key, approvalRequired⟩

/-- The finding about a target that is placed again or a directory created above one. -/
def restoreFinding (restored synthesized : List TargetKey) (operation : PreparedOperation) :
    Option PolicyFinding :=
  if operation.observation.leaf.isPresent then
    none
  else if operation.key ∈ restored then
    some (targetFinding "restore-missing" "restore externally deleted managed target"
      operation.key false)
  else
    match operation with
    | .ensureDirectory _ _ =>
      if operation.key ∈ synthesized then
        some (targetFinding "restore-missing-directory"
          "create missing managed ancestor directory" operation.key false)
      else
        none
    | _ => none

/-- The code and the action of the finding about an existing leaf. -/
def existingAction (operation : PreparedOperation) : Option (String × String) :=
  match operation with
  | .placeFile _ _ _ true => some ("replace-existing", "replace existing target")
  | .placeSymlink _ _ true => some ("replace-existing", "replace existing target")
  | .placeTree _ _ _ true => some ("replace-existing", "replace existing target")
  | .removeLeaf _ => some ("remove-existing", "remove existing target")
  | .ensureDirectory _ _ => some ("replace-existing", "replace existing target")
  | _ => none

def previouslyOwnedTarget (previous : Option StateGeneration) (key : TargetKey) : Bool :=
  effectivePresent previous key

/-- The finding about a leaf that is replaced or removed. -/
def existingFinding (previous : Option StateGeneration) (drifted : List TargetKey)
    (operation : PreparedOperation) : Option PolicyFinding :=
  if operation.observation.leaf.isPresent then
    (existingAction operation).map fun (code, action) =>
      if operation.key ∈ drifted then
        targetFinding "restore-modified" "discard local modifications and restore"
          operation.key true
      else
        targetFinding code action operation.key
          (!previouslyOwnedTarget previous operation.key)
  else
    none

def pushFinding (findings : List PolicyFinding) (finding : PolicyFinding) :
    Except EngineError (List PolicyFinding) := do
  let finding ← asRecordError finding.new
  return if finding ∈ findings then findings else findings ++ [finding]

def appendMandatoryFindings (findings : List PolicyFinding)
    (operations : List PreparedOperation) (previous : Option StateGeneration)
    (drifted restored synthesized : List TargetKey) : Except EngineError (List PolicyFinding) :=
  (operations.filterMap (restoreFinding restored synthesized) ++
    operations.filterMap (existingFinding previous drifted)).foldlM pushFinding findings

/-! ## 4. The plan -/

structure PrepareRequest where
  namespaceName : NamespaceName
  expectedHead : Option Digest
  graphDigest : Digest
  inputs : List PreparedInput
  artifacts : List PreparedArtifact
  transforms : List TransformProvenance
  findings : List PolicyFinding
  operations : List PrepareOperation
deriving DecidableEq, Repr

/-- `ExplicitPreparedState`: what a lifecycle transition selects. -/
structure ExplicitPreparedState where
  transition : PreparedTransition
  lifecycle : LifecycleState
  desiredSnapshot : DesiredSnapshot
  restorePoint : Option RestorePoint
  retention : RetentionAuthority
  trackedRoot : Option TrackedRoot
deriving DecidableEq, Repr

/-- What the target part of a preparation derives. -/
structure DerivedPlan where
  desiredSnapshot : DesiredSnapshot
  operations : List PreparedOperation
  findings : List PolicyFinding
deriving DecidableEq, Repr

section Derive

variable (config : EngineConfig) (system : TargetSystem) (objects : CanonicalObjects)

/-- What both kinds of preparation do with their operations. -/
def finishPlan (previous : Option StateGeneration) (observed : ObservedIdentities)
    (artifacts : List PreparedArtifact) (findings : List PolicyFinding)
    (synthesized : List TargetKey) (desired : DesiredSnapshot)
    (operations : List PrepareOperation) : Except EngineError DerivedPlan := do
  let reconciled ←
    reconcileLocalModifications config system previous observed artifacts operations
  let requested := reconciled.map Prod.fst
  verifyCanonical objects previous requested
  let operations ← requested.mapM (observeOperation config system previous)
  verifyMissingAncestorCoverage operations
  let findings ← asRecordError (findings.mapM PolicyFinding.new)
  let findings ← appendMandatoryFindings findings operations previous
    (changedKeys .drifted reconciled) (changedKeys .restored reconciled) synthesized
  return ⟨desired, operations, findings⟩

def deriveReconciliation (previous : Option StateGeneration)
    (observed : ObservedIdentities) (artifacts : List PreparedArtifact)
    (findings : List PolicyFinding) (requested : List PrepareOperation) :
    Except EngineError DerivedPlan := do
  let synthesized ← synthesizeAncestorDirectories config system previous requested
  let desired ← desiredSnapshotFromRequest previous artifacts requested synthesized
  let operations ← completeReconciliationOperations previous desired artifacts requested
  finishPlan config system objects previous observed artifacts findings
    (synthesized.map PrepareOperation.key) desired operations

/-- The target part of a preparation; an explicit state brings its snapshot. -/
def derivePlan (previous : Option StateGeneration) (observed : ObservedIdentities)
    (explicitState : Option ExplicitPreparedState) (request : PrepareRequest) :
    Except EngineError DerivedPlan :=
  match explicitState with
  | none =>
    deriveReconciliation config system objects previous observed request.artifacts
      request.findings request.operations
  | some state =>
    finishPlan config system objects previous observed request.artifacts request.findings []
      state.desiredSnapshot request.operations

end Derive

/-! ## 5. The record -/

def maxPolicyFindings : Nat := 16384

def distinctArtifactBytes (artifacts : List PreparedArtifact) : Nat :=
  ((artifacts.map fun artifact => (artifact.digest, artifact.byteLen)).dedup.map Prod.snd).sum

def preflightRequest (request : PrepareRequest) : Except EngineError Unit := do
  asRecordError (checkLimit "inputs" request.inputs.length maxPreparedInputs)
  asRecordError (checkLimit "artifacts" request.artifacts.length maxPreparedArtifacts)
  asRecordError
    (checkLimit "transform provenance" request.transforms.length maxTransformProvenance)
  asRecordError (checkLimit "policy findings" request.findings.length maxPolicyFindings)
  asRecordError (checkLimit "operations" request.operations.length maxPreparedOperations)
  reject (∃ artifact ∈ request.artifacts, maxArtifactBlobBytes < artifact.byteLen)
    (.invalidRecord "artifact exceeds the per-blob size limit")
  reject (maxPreparedUniqueArtifactBytes < distinctArtifactBytes request.artifacts)
    (.invalidRecord "aggregate request artifact bytes exceed the plan limit")
  reject
    (maxPreparedRecordBytes <
      (request.findings.map fun finding => finding.code.byteLen + finding.message.byteLen).sum)
    (.invalidRecord "policy finding bytes exceed the prepared-record limit")

/-- The identities of records, and of the findings an approval covers. -/
structure PlanCodec extends ObjectCodec where
  approvalDigest : List PolicyFinding → Digest

structure PreparedPlan where
  record : PreparedRecord
  findings : List PolicyFinding
deriving DecidableEq, Repr

section Prepare

variable (codec : PlanCodec) (machine : Machine) (state : StoreState)

def loadExpectedGeneration (namespaceName : NamespaceName) (expectedHead : Option Digest) :
    Except EngineError (Option StateGeneration) := do
  let actual ← asCommitError (inspectHead codec.toObjectCodec state namespaceName)
  reject (actual ≠ expectedHead)
    (.commit (.staleNamespaceHead namespaceName expectedHead actual))
  match expectedHead with
  | none => return none
  | some digest => do
    let generation ←
      asCommitError (inspectGeneration codec.toObjectCodec state.objects digest)
    return some generation

/-- The record of a request and its derived plan, before it is built. -/
def planRecord (previous : Option StateGeneration)
    (explicitState : Option ExplicitPreparedState) (trackedRoot : Option TrackedRoot)
    (request : PrepareRequest) (plan : DerivedPlan) : PreparedRecord where
  namespaceName := request.namespaceName
  expectedHead := request.expectedHead
  transition := (explicitState.map ExplicitPreparedState.transition).getD .reconcile
  lifecycle := (explicitState.map ExplicitPreparedState.lifecycle).getD .enabled
  restorePoint := explicitState.bind ExplicitPreparedState.restorePoint
  retention :=
    match explicitState with
    | some explicitState => explicitState.retention
    | none => (previous.map StateGeneration.retention).getD .default
  trackedRoot := (explicitState.bind ExplicitPreparedState.trackedRoot).or trackedRoot
  graphDigest := request.graphDigest
  inputs := request.inputs
  artifacts := request.artifacts
  transforms := request.transforms
  approvalDigest := codec.approvalDigest plan.findings
  operations := plan.operations
  desiredSnapshot := plan.desiredSnapshot
  desiredSnapshotDigest :=
    codec.desiredSnapshotDigest request.namespaceName plan.desiredSnapshot

/-- `PreparedRecordV1::try_from`, with transition, lifecycle and authority set afterwards. -/
def buildRecord (record : PreparedRecord) (findings : List PolicyFinding) :
    Except EngineError PreparedRecord := do
  asRecordError (checkLimit "policy findings" findings.length maxPolicyFindings)
  asRecordError (rejectDuplicates "policy finding" findings)
  let built ← asRecordError
    (PreparedRecord.tryFrom codec.toCodec record record.desiredSnapshot)
  asRecordError (withAuthority codec.toCodec built record record.trackedRoot)

def prepareInner (config : EngineConfig) (system : TargetSystem) (objects : CanonicalObjects)
    (observed : ObservedIdentities) (explicitState : Option ExplicitPreparedState)
    (trackedRoot : Option TrackedRoot) (request : PrepareRequest) :
    Except EngineError PreparedPlan := do
  preflightRequest request
  let previous ← loadExpectedGeneration codec state request.namespaceName request.expectedHead
  reject
    (previous.any fun generation => generation.namespaceName ≠ request.namespaceName)
    (.invalidRecord "expected generation belongs to another deployment namespace")
  reject
    (explicitState.isNone ∧ previous.any fun generation => generation.lifecycle = .disabled)
    (.invalidRecord
      "a disabled namespace can only be restored through explicit enable or checkout")
  let plan ← derivePlan config system objects previous observed explicitState request
  let record ← buildRecord codec
    (planRecord codec previous explicitState trackedRoot request plan) plan.findings
  Checks.when explicitState.isSome
    (asStateError (validatePreparedTransition codec.toCodec previous record))
  let _ ← asCommitError
    (deriveOwnedTransition codec.toObjectCodec machine state.objects state.catalog
      (codec.preparedId record) record)
  return ⟨record, plan.findings⟩

end Prepare

end Malm.Engine
