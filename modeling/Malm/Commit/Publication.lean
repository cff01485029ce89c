/-
Malm.Commit.Publication — a commit as the store sees it: load the approved
plan, admit it, publish its generation and the next catalog.

Between two commits the environment publishes plans and contents and prunes
objects. It never rewrites a published record, and it keeps the generations that a
head or one of its restore points selects.
-/
import Malm.Commit.Admission

namespace Malm.Commit

open Store Checks

/-! ## 1. Descriptor budget -/

def maxTargetPinnedDescriptors : Nat := 4096
def targetDescriptorReserve : Nat := 64

structure DescriptorAuthority where
  traversalAnchor : FileIdentity
  prefixes : SortedMap Text FileIdentity

/-- The variables of `target_descriptor_requirement`. -/
structure DescriptorState where
  pinned : Nat
  destinations : List (DeploymentName × Text)
  pendingPrefixes : List (DeploymentName × Text)
  authorities : SortedMap DeploymentName DescriptorAuthority

def leadingPaths (segments : List Text) : List Text :=
  (segments.inits.drop 1).map fun part => ['/'].intercalate part

def observeDescriptorPrefix (state : SortedMap Text FileIdentity × Nat)
    (observed : Text × FileIdentity) : Except CommitError (SortedMap Text FileIdentity × Nat) :=
  match state.1.get? observed.1 with
  | some previous =>
    if previous ≠ observed.2 then
      .error (.invalidPlan "target observations conflict on one ancestor")
    else
      .ok state
  | none => .ok (state.1.insert observed.1 observed.2, state.2 + 1)

/-- The existing parents with their identities: the authority root alone directly below it. -/
def observedPrefixes (observation : TargetObservation) (existing : List Text) :
    List (Text × FileIdentity) :=
  if existing.isEmpty then
    [([], observation.parent)]
  else
    (leadingPaths existing).zip (observation.ancestors ++ [observation.parent])

/-- The authority record of an observation: the first one pins its chain and
root. -/
def descriptorAuthority (depth : Nat) (state : DescriptorState)
    (observation : TargetObservation) : DescriptorAuthority × Nat :=
  match state.authorities.get? observation.authority with
  | some authority => (authority, state.pinned)
  | none =>
    (⟨observation.traversalAnchor, SortedMap.empty.insert [] observation.traversalAnchor⟩,
      state.pinned + (depth + 1) + 1)

/-- The loop body of `target_descriptor_requirement`. -/
def requireDescriptors (machine : Machine) (state : DescriptorState)
    (operation : PreparedOperation) : Except CommitError DescriptorState := do
  let observation := operation.observation
  let depth ← require (machine.authorityDepth observation.authority)
    (.unknownTargetAuthority observation.authority)
  reject (observation.key ∈ state.destinations)
    (.invalidPlan "target operation destinations are duplicated")
  let parents := observation.relativePath.segments.dropLast
  let missing := observation.missingAncestors
  reject (parents.length < missing ∨ 0 < missing ∧ observation.leaf.isPresent)
    (.invalidPlan "target missing-ancestor observation is inconsistent")
  let existing := parents.take (parents.length - missing)
  reject (observation.ancestors.length ≠ existing.length - 1)
    (.invalidPlan "target ancestor count is inconsistent")
  let (authority, pinned) := descriptorAuthority depth state observation
  reject (authority.traversalAnchor ≠ observation.traversalAnchor)
    (.invalidPlan "target observations conflict on one authority")
  let (prefixes, pinned) ← (observedPrefixes observation existing).foldlM
    observeDescriptorPrefix (authority.prefixes, pinned)
  let pending := ((leadingPaths parents).drop existing.length).map
    fun path => (observation.authority, path)
  let fresh := pending.filter fun key => key ∉ state.pendingPrefixes
  return {
    pinned := pinned + fresh.length
    destinations := observation.key :: state.destinations
    pendingPrefixes := fresh ++ state.pendingPrefixes
    authorities := state.authorities.insert observation.authority
      { authority with prefixes := prefixes } }

def validateDescriptorBudget (machine : Machine) (prepared : PreparedRecord) :
    Except CommitError Unit := do
  let state ← prepared.operations.foldlM (requireDescriptors machine) ⟨0, [], [], .empty⟩
  reject (maxTargetPinnedDescriptors < state.pinned)
    (.invalidPlan "plan exceeds the pinned descriptor safety limit")
  reject
    (machine.openFileSoftLimit.any fun limit =>
      limit - max (limit / 4) targetDescriptorReserve < state.pinned)
    (.invalidPlan "plan exceeds the process descriptor limit")

/-! ## 2. One commit -/

structure StoreState where
  objects : ObjectStore
  catalog : StateCatalog

/-- `CommitRequestV1`: a plan and the approval of its findings. -/
structure CommitRequest where
  planId : PreparedId
  approvedPlanId : PreparedId
  findingsDigest : Digest

section Commit

variable (codec : ObjectCodec) (machine : Machine)

def readCatalog (state : StoreState) : Except CommitError StateCatalog := do
  validateCatalogLineages codec state.objects none .routine state.catalog
  return state.catalog

/-- `commit_v1` up to `derive_owned_transition`. -/
def admitCommit (state : StoreState) (request : CommitRequest) :
    Except CommitError (PreparedRecord × OwnedTransition) := do
  reject (request.approvedPlanId ≠ request.planId) .approvalPlanMismatch
  let prepared ← loadPrepared codec state.objects request.planId
  reject (request.findingsDigest ≠ prepared.approvalDigest) .approvalFindingsMismatch
  validateDescriptorBudget machine prepared
  let catalog ← readCatalog codec state
  let transition ← deriveOwnedTransition codec machine state.objects catalog request.planId
    prepared
  return (prepared, transition)

def publishImmutable (objects : ObjectStore) (digest : Digest) (generation : StateGeneration) :
    Except CommitError ObjectStore := do
  let found ← readImmutable (Encoded.byteLen codec.generationBytes) maxStateRecordBytes
    (objects.generations.get? digest)
  match found with
  | some existing =>
    if existing = .canonical generation then
      return objects
    else
      .error (.invalidStore "immutable state generation name collision")
  | none =>
    return { objects with
      generations := objects.generations.insert digest ⟨true, true, true, .canonical generation⟩ }

def publishGenerationAndCatalog (state : StoreState) (transition : OwnedTransition) :
    Except CommitError StoreState :=
  match transition.generationDigest, transition.generation with
  | some digest, some generation => do
    reject (maxStateRecordBytes < codec.generationBytes generation)
      (.invalidPlan "derived state generation exceeds its encoded size limit")
    let objects ← publishImmutable codec state.objects digest generation
    return ⟨objects, transition.nextCatalog⟩
  | none, none => .ok ⟨state.objects, transition.nextCatalog⟩
  | _, _ => .error (.invalidPlan "generation identity and record presence differ")

def commitStore (state : StoreState) (request : CommitRequest) :
    Except CommitError (PreparedRecord × StoreState) := do
  let (prepared, transition) ← admitCommit codec machine state request
  let next ← publishGenerationAndCatalog codec state transition
  return (prepared, next)

end Commit

/-! ## 3. Runs -/

def ObjectStore.record (objects : ObjectStore) (digest : Digest) : Option StateGeneration :=
  match objects.generations.get? digest with
  | some ⟨_, _, _, .canonical generation⟩ => some generation
  | _ => none

def StoreState.selected (state : StoreState) : List (NamespaceName × StateGeneration) :=
  state.catalog.heads.filterMap fun head =>
    (state.objects.record head.generation).map fun generation => (head.namespaceName, generation)

/-- Selected by a head, or by a restore point in the authority of a selected generation. -/
def StoreState.Selects (state : StoreState) (digest : Digest) : Prop :=
  (∃ head ∈ state.catalog.heads, head.generation = digest) ∨
    ∃ entry ∈ state.selected, ∃ point ∈ entry.2.retention.restorePoints,
      point.generation = digest

def Commits (codec : ObjectCodec) (state : StoreState) (prepared : PreparedRecord)
    (next : StoreState) : Prop :=
  ∃ machine request, commitStore codec machine state request = .ok (prepared, next)

/-- What happens to a store. A commit that is rolled back may leave its generation behind
(`abandoned`); nothing else publishes one. -/
inductive StoreStep (codec : ObjectCodec) : StoreState → StoreState → Prop
  | commit {state next : StoreState} (prepared : PreparedRecord)
      (accepted : Commits codec state prepared next) : StoreStep codec state next
  | abandoned {state next : StoreState} (prepared : PreparedRecord)
      (accepted : Commits codec state prepared next) :
      StoreStep codec state ⟨next.objects, state.catalog⟩
  | environment {state : StoreState} (objects : ObjectStore)
      (keeps : ∀ digest, state.Selects digest →
        objects.generations.get? digest = state.objects.generations.get? digest)
      (adds : ∀ digest file, objects.generations.get? digest = some file →
        state.objects.generations.get? digest = some file) :
      StoreStep codec state ⟨objects, state.catalog⟩

/-- The states a new store can reach: the empty catalog and no generation. -/
inductive Reachable (codec : ObjectCodec) : StoreState → Prop
  | initial (objects : ObjectStore) (fresh : objects.generations = .empty) :
      Reachable codec ⟨objects, .empty⟩
  | step {state next : StoreState} (before : Reachable codec state)
      (step : StoreStep codec state next) : Reachable codec next

/-! ## 4. A small store -/

/-- Identities that tell the records of the small store apart. -/
def sampleCodec : ObjectCodec where
  generationDigest generation := ⟨100 + generation.planId.value⟩
  generationBytes _ := 10
  preparedId record := ⟨record.approvalDigest.value⟩
  preparedBytes _ := 10
  desiredSnapshotDigest _ snapshot := ⟨snapshot.targets.length⟩
  catalogDigest catalog := ⟨(catalog.heads.map fun head => head.generation.value).sum⟩
  catalogBytes _ := 10
  fileDigest contents := ⟨1000 + contents.hash.value⟩
  symlinkDigest target := ⟨2000 + target.length⟩
  treeDigest tree := ⟨3000 + tree.entries.length⟩

/-- One authority per name, none of them aliased. -/
def sampleMachine : Machine where
  authorityDepth _ := some 1
  openFileSoftLimit := none
  openAuthority _ := .ok ()
  rootsOverlap _ _ := .ok false

/-- The observed root of authority `d`. -/
def sampleIdentity : FileIdentity := ⟨1, 1, 1000, 1000, 0o040755#32, 2, 0, 0, 0, 0, 0⟩

/-- A plan without targets that reconciles a new namespace. -/
def samplePlan (namespaceName : NamespaceName) (id : Nat) : PreparedRecord where
  namespaceName := namespaceName
  expectedHead := none
  transition := .reconcile
  lifecycle := .enabled
  restorePoint := none
  retention := .default
  trackedRoot := none
  graphDigest := ⟨0⟩
  inputs := []
  artifacts := []
  transforms := []
  approvalDigest := ⟨id⟩
  operations := []
  desiredSnapshot := .empty
  desiredSnapshotDigest := ⟨0⟩

/-- A plan that places one file of three bytes at an absent path. -/
def sampleFilePlan (namespaceName : NamespaceName) (path : Text) (id : Nat) : PreparedRecord :=
  { samplePlan namespaceName id with
    artifacts := [⟨['a'], ⟨5⟩, 3, ['t']⟩]
    operations := [.placeFile ⟨['d'], path, sampleIdentity, [], sampleIdentity, .absent, 0⟩ ['a']
      0o600#32 false]
    desiredSnapshot := ⟨[⟨['d'], path, .file (some ⟨⟨5⟩, 3, 0o600#32⟩)⟩]⟩
    desiredSnapshotDigest := ⟨1⟩ }

def publishedFile {α : Type} (bytes : α) : StoreFile α := ⟨true, true, true, bytes⟩

/-- A store of plans under their identities, with the blob their files use. -/
def sampleObjects (plans : List PreparedRecord) : ObjectStore :=
  { ObjectStore.empty with
    prepared := plans.foldl
      (fun map plan => map.insert (sampleCodec.preparedId plan) (publishedFile (.canonical plan)))
      .empty
    blobs := SortedMap.empty.insert ⟨5⟩ (publishedFile ⟨⟨5⟩, 3⟩) }

def sampleRequest (id : Nat) : CommitRequest := ⟨⟨id⟩, ⟨id⟩, ⟨id⟩⟩

end Malm.Commit
