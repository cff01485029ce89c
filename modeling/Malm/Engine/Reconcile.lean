/-
Malm.Engine.Reconcile — one reconciliation from the request to the
targets: `prepare_inner`, the publication of the plan and `commit_v1` with the
approval of its findings.

A deployment is a store and the target file systems. What a run finds besides them
comes in with each request. A reconciliation that fails rolls back what it did.
-/
import Malm.Engine.Plan
import Malm.Commit.Apply

namespace Malm.Engine

open Store Commit Target

/-! ## 1. Publication of a plan -/

/-- `publish_blob`: a stored blob of the right length is kept. -/
def publishBlob (objects : ObjectStore) (artifact : PreparedArtifact) :
    Except EngineError ObjectStore :=
  match objects.blobs.get? artifact.digest with
  | some file =>
    if file.regular && file.owned && file.bytes.byteLen = artifact.byteLen then
      .ok objects
    else
      .error (.storedEntry "prepared-store blob differs from its content")
  | none =>
    .ok { objects with
      blobs := objects.blobs.insert artifact.digest
        ⟨true, true, true, ⟨artifact.digest, artifact.byteLen⟩⟩ }

def publishRecord (codec : ObjectCodec) (objects : ObjectStore) (record : PreparedRecord) :
    Except EngineError ObjectStore :=
  match objects.prepared.get? (codec.preparedId record) with
  | some file =>
    if file.regular && file.owned && file.immutable && file.bytes = .canonical record then
      .ok objects
    else
      .error (.storedEntry "prepared record differs from its content")
  | none =>
    .ok { objects with
      prepared := objects.prepared.insert (codec.preparedId record)
        ⟨true, true, true, .canonical record⟩ }

/-- The publications at the end of `prepare_inner`. -/
def publishPlan (codec : ObjectCodec) (objects : ObjectStore) (record : PreparedRecord) :
    Except EngineError ObjectStore := do
  let objects ← record.artifacts.foldlM publishBlob objects
  publishRecord codec objects record

/-! ## 2. A deployment -/

/-- A store and the target file systems. -/
structure Deployment where
  store : StoreState
  system : TargetSystem

structure ReconcileInput where
  request : PrepareRequest
  trackedRoot : Option TrackedRoot
  /-- The canonical objects the store can load. -/
  objects : CanonicalObjects
  /-- What evaluation and prune did to the areas besides the generations. -/
  areas : ObjectStore → ObjectStore
  cache : ObservedIdentities
  stamps : TargetKey → Stamp
  resolved : TargetKey → Probe
  readThrough : TargetKey → Option Contents

namespace ReconcileInput

def store (input : ReconcileInput) (state : StoreState) : StoreState :=
  ⟨{ input.areas state.objects with generations := state.objects.generations }, state.catalog⟩

def system (input : ReconcileInput) (system : TargetSystem) : TargetSystem :=
  { system with resolved := input.resolved, readThrough := input.readThrough }

end ReconcileInput

section Reconcile

variable (codec : PlanCodec) (machine : Machine) (config : EngineConfig)

/-- Prepare a request, approve its findings and commit the plan. -/
def reconcile (input : ReconcileInput) (deployment : Deployment) :
    Except EngineError Deployment := do
  let store := input.store deployment.store
  let system := input.system deployment.system
  let plan ← prepareInner codec machine store config system input.objects
    input.cache none input.trackedRoot input.request
  let objects ← publishPlan codec.toObjectCodec store.objects plan.record
  let planId := codec.preparedId plan.record
  let (store, system) ← asCommitError
    (commitPlan codec.toObjectCodec machine config.effectiveUserId input.stamps
      ⟨objects, store.catalog⟩ system ⟨planId, planId, plan.record.approvalDigest⟩)
  return ⟨store, system⟩

/-- The deployment after a reconciliation that may fail. -/
def advance (deployment : Deployment) (input : ReconcileInput) : Deployment :=
  match reconcile codec machine config input deployment with
  | .ok next => next
  | .error _ => deployment


end Reconcile

end Malm.Engine
