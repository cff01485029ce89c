/-
Malm.Commit.Retention — `prune_store` (`retention.rs`): the objects that current authority
retains, and the removal of all others.

`planPrune` is everything up to the dry-run return, and `removeEntry` one step of
`remove_names`. Sets of digests that are only asked for membership are lists; where order
or number counts they go through `sortedSet`.
-/
import Malm.Commit.Publication

namespace Malm.Commit

open Store Checks

/-! ## 1. Requests and budgets -/

/-- The named plans in order, and whether every unreferenced plan is pruned as well. -/
structure PruneRequest where
  planIds : List PreparedId
  sorted : planIds.Pairwise (· < ·)
  sweepUnreferenced : Bool

theorem noPlans_sorted : ([] : List PreparedId).Pairwise (· < ·) := .nil

/-- `PruneRequestV1::new(Vec::new()).sweep_unreferenced()`. -/
def PruneRequest.sweep : PruneRequest := ⟨[], noPlans_sorted, true⟩

def chargeRetentionBytes (total bytes : Nat) : Except CommitError Nat :=
  if maxRetentionDecodedBytes < total + bytes then
    .error (.invalidStore "retention decoded records exceed their bytes")
  else
    .ok (total + bytes)

def checkDirectory {κ α : Type} [LinearOrder κ] (area : SortedMap κ α) : Except CommitError Unit :=
  reject (maxRetentionEntries < area.entries.length)
    (.invalidStore "store directory contains too many entries")

/-! ## 2. Loading whole areas -/

/-- One entry of a loaded area, with the records and bytes so far. -/
def loadAreaEntry {κ α β : Type} [LinearOrder κ] (sizeOf : α → Nat) (limit : Nat)
    (decode : κ → α → Except CommitError β) (state : SortedMap κ β × Nat)
    (entry : κ × StoreFile α) : Except CommitError (SortedMap κ β × Nat) := do
  let found ← readImmutable sizeOf limit (some entry.2)
  let bytes ← require found (.invalidStore "store entry vanished")
  let total ← chargeRetentionBytes state.2 (sizeOf bytes)
  let value ← decode entry.1 bytes
  return (state.1.insert entry.1 value, total)

/-- Read, charge and decode every entry of an area. -/
def loadArea {κ α β : Type} [LinearOrder κ] (sizeOf : α → Nat) (limit : Nat)
    (decode : κ → α → Except CommitError β) (area : SortedMap κ (StoreFile α)) (total : Nat) :
    Except CommitError (SortedMap κ β × Nat) := do
  checkDirectory area
  area.entries.foldlM (loadAreaEntry sizeOf limit decode) (.empty, total)

section Prune

variable (codec : ObjectCodec) (machine : Machine) (store : ObjectStore)

def loadPreparedRecords (total : Nat) :
    Except CommitError (SortedMap PreparedId PreparedRecord × Nat) :=
  loadArea (Encoded.byteLen codec.preparedBytes) maxPreparedRecordBytes
    (decodePreparedRecord codec) store.prepared total

def loadAllGenerations (total : Nat) :
    Except CommitError (SortedMap Digest StateGeneration × Nat) :=
  loadArea (Encoded.byteLen codec.generationBytes) maxStateRecordBytes
    (fun digest bytes => asInvalidStore (decodeStateGeneration codec digest bytes))
    store.generations total

def loadTreeNames (total : Nat) : Except CommitError (SortedMap Digest TreeObject × Nat) :=
  loadArea (Encoded.byteLen TreeObject.encodedLen) maxTreeObjectBytes
    (fun digest bytes => asInvalidObject (decodeTree codec digest bytes)) store.trees total

/-- `load_canonical_names` of files and symlinks, whose shape is enough. -/
def loadLeafNames {α : Type} (sizeOf : α → Nat) (limit : Nat)
    (area : SortedMap Digest (StoreFile α)) : Except CommitError Unit := do
  checkDirectory area
  area.entries.forM fun entry => do
    let _ ← statShape sizeOf limit
      (.invalidStore "canonical object differs from its published shape") entry.2
    return ()

/-- `load_pack_names`: both representations, each name checked. -/
def loadPackNames : Except CommitError (List Digest) := do
  checkDirectory store.packs
  checkDirectory store.packManifests
  let names := store.packs.keys ++ store.packManifests.keys
  names.forM fun digest => do
    let _ ← verifyPackObject store digest
    return ()
  return names

def verifyPreparedArtifacts (record : PreparedRecord) : Except CommitError Unit :=
  record.artifacts.forM fun artifact => do
    let length ← verifyBlob store artifact.digest
    reject (length ≠ artifact.byteLen)
      (.invalidPlan "artifact length differs from prepared metadata")

/-- The rebuild check of one generation against its plan. -/
def verifyGenerationTransition (prepared : SortedMap PreparedId PreparedRecord)
    (generations : SortedMap Digest StateGeneration) (generation : StateGeneration) :
    Except CommitError Unit := do
  let record ← require (prepared.get? generation.planId)
    (.invalidStore "state generation references missing plan")
  let previous := generation.previousGeneration.bind generations.get?
  let rebuilt ← asInvalidStore
    (if generation.previousGeneration.isSome ∧ previous.isNone then
      fromRetainedPrepared codec.toCodec generation.planId generation.previousGeneration record
    else
      fromPrepared codec.toCodec generation.planId generation.previousGeneration previous record)
  reject (rebuilt ≠ generation)
    (.invalidStore "state generation does not match its prepared transition")

/-! ## 3. Roots -/

/-- The states of the target slots of some plans and generations. -/
def recordStates (records : List PreparedRecord) (generations : List StateGeneration) :
    List StateTargetState :=
  (records.flatMap fun record => snapshotStates record.desiredSnapshot) ++
    generations.flatMap fun generation => snapshotStates generation.desiredSnapshot

/-- The tree roots of plans and generations, in target slots and tracked roots. -/
def recordTreeRoots (records : List PreparedRecord) (generations : List StateGeneration) :
    List Digest :=
  stateTreeRoots (recordStates records generations) ++
    (records.filterMap PreparedRecord.trackedRoot ++
      generations.filterMap StateGeneration.trackedRoot).map TrackedRoot.rootTreeDigest

structure RetainedClosure where
  generationRoots : List (Digest × Nat)
  planIds : List PreparedId
  blobs : List Digest
  packs : List Digest
  pinnedFiles : List Digest
  pinnedSymlinks : List Digest
  pinnedTrees : List Digest

def RetainedClosure.empty : RetainedClosure := ⟨[], [], [], [], [], [], []⟩

def collectPin (retained : RetainedClosure) : RetentionObject → RetainedClosure
  | .preparedPlan planId => { retained with planIds := planId :: retained.planIds }
  | .stateGeneration digest =>
    { retained with generationRoots := retained.generationRoots ++ [(digest, 1)] }
  | .artifactBlob digest => { retained with blobs := digest :: retained.blobs }
  | .packObject digest => { retained with packs := digest :: retained.packs }
  | .canonicalFile digest => { retained with pinnedFiles := digest :: retained.pinnedFiles }
  | .canonicalSymlink digest =>
    { retained with pinnedSymlinks := digest :: retained.pinnedSymlinks }
  | .canonicalTree digest => { retained with pinnedTrees := digest :: retained.pinnedTrees }

def collectRestorePointRoot (generations : SortedMap Digest StateGeneration)
    (retained : RetainedClosure) (point : RestorePoint) : Except CommitError RetainedClosure := do
  let generation ← require (generations.get? point.generation)
    (.invalidStore "restore point generation is missing")
  (validateRestorePointReference point point.generation generation).mapError fun _ =>
    .invalidStore "restore point differs from its retained generation"
  return { retained with generationRoots := retained.generationRoots ++ [(point.generation, 1)] }

/-- `collect_retention_authority_roots`, after the selected restore point. -/
def collectRecordRoots (generations : SortedMap Digest StateGeneration)
    (restorePoint : Option RestorePoint) (authority : RetentionAuthority)
    (retained : RetainedClosure) : Except CommitError RetainedClosure := do
  let retained ← (restorePoint.toList ++ authority.restorePoints).foldlM
    (collectRestorePointRoot generations) retained
  return authority.explicitPins.foldl collectPin retained

def collectHeadRoots (generations : SortedMap Digest StateGeneration)
    (retained : RetainedClosure) (head : NamespaceHead) : Except CommitError RetainedClosure := do
  let generation ← require (generations.get? head.generation)
    (.invalidStore "retained state generation is missing")
  collectRecordRoots generations generation.restorePoint generation.retention
    { retained with
      generationRoots :=
        retained.generationRoots ++ [(head.generation, generation.retention.history)] }

def collectPlanRoots (generations : SortedMap Digest StateGeneration) (named : List PreparedId)
    (retained : RetainedClosure) (plan : PreparedId × PreparedRecord) :
    Except CommitError RetainedClosure :=
  if plan.1 ∈ named then
    .ok retained
  else
    collectRecordRoots generations plan.2.restorePoint plan.2.retention retained

/-- The walk of one generation root, with the records its limit leaves. -/
def retainedLineage (generations : SortedMap Digest StateGeneration) :
    Nat → Option Digest → List Digest → Except CommitError (List Digest)
  | 0, _, lineage => .ok lineage
  | _ + 1, none, lineage => .ok lineage
  | left + 1, some digest, lineage =>
    if digest ∈ lineage then
      .error (.invalidStore "retained generation root contains a cycle")
    else do
      let generation ← require (generations.get? digest)
        (.invalidStore "retained state generation is missing")
      retainedLineage generations left generation.previousGeneration (digest :: lineage)

def reachRoot (generations : SortedMap Digest StateGeneration) (reached : List Digest)
    (root : Digest × Nat) : Except CommitError (List Digest) := do
  let lineage ← retainedLineage generations root.2 (some root.1) []
  return lineage ++ reached

/-! ## 4. Blobs and packs -/

def decodePackManifestMembers (bytes : Encoded (List PackMember)) :
    Except CommitError (List PackMember) :=
  match bytes with
  | .other _ => .error (.invalidStore "pack manifest is invalid")
  | .canonical members =>
    if 100000 < members.length ∨ members.any fun member => 1024 < member.path.byteLen then
      .error (.invalidStore "pack manifest is invalid")
    else
      .ok members

def retainedPackMemberBlobs (digest : Digest) (total : Nat) :
    Except CommitError (List PackMember × Nat) := do
  let found ← readImmutable (Encoded.byteLen packManifestLen) maxPackManifestBytes
    (store.packManifests.get? digest)
  match found with
  | none => return ([], total)
  | some bytes => do
    let total ← chargeRetentionBytes total (bytes.byteLen packManifestLen)
    let members ← decodePackManifestMembers bytes
    return (members, total)

/-- The member check of one retained pack, with the blobs and bytes so far. -/
def retainPackMembers (state : List Digest × Nat) (digest : Digest) :
    Except CommitError (List Digest × Nat) := do
  let (members, total) ← retainedPackMemberBlobs store digest state.2
  members.forM fun member => do
    let length ← verifyBlob store member.blob
    reject (length ≠ member.byteLen)
      (.invalidStore "pack member blob length differs from its manifest entry")
  return (members.map PackMember.blob ++ state.1, total)

def requireStored (retained stored : List Digest) (missing : Digest → CommitError) :
    Except CommitError Unit :=
  retained.forM fun digest => reject (digest ∉ stored) (missing digest)

/-! ## 5. The order of generation removals -/

def childrenIn (generations : SortedMap Digest StateGeneration) (left : List Digest)
    (digest : Digest) : List Digest :=
  left.filter fun child =>
    (generations.get? child).bind StateGeneration.previousGeneration = some digest

/-- The least generation without a remaining child goes next. -/
def orderRemovals (generations : SortedMap Digest StateGeneration) :
    Nat → List Digest → List Digest
  | 0, _ => []
  | fuel + 1, left =>
    match left.find? fun digest => (childrenIn generations left digest).isEmpty with
    | none => []
    | some digest => digest :: orderRemovals generations fuel (left.erase digest)

def orderGenerationRemovals (generations : SortedMap Digest StateGeneration)
    (reachable : List Digest) : Except CommitError (List Digest) := do
  let removed := generations.keys.filter fun digest => digest ∉ reachable
  let ordered := orderRemovals generations removed.length removed
  reject (ordered.length ≠ removed.length)
    (.invalidStore "unreachable state generations contain a dependency cycle")
  return ordered

/-! ## 6. The plan of a prune -/

/-- The decoded records of a store and the budget they leave. -/
structure LoadedStore where
  prepared : SortedMap PreparedId PreparedRecord
  generations : SortedMap Digest StateGeneration
  budget : CanonicalLoadBudget

/-- Every record, artifact and canonical object of the store is there and valid. -/
def loadWholeStore (request : PruneRequest) : Except CommitError LoadedStore := do
  let (prepared, decodedBytes) ← loadPreparedRecords codec store 0
  request.planIds.forM fun planId =>
    reject (prepared.contains planId = false) (.missingPlan planId)
  prepared.entries.forM fun plan => verifyPreparedArtifacts store plan.2
  let (generations, decodedBytes) ← loadAllGenerations codec store decodedBytes
  generations.entries.forM fun entry =>
    verifyGenerationTransition codec prepared generations entry.2
  let records := prepared.entries.map Prod.snd
  let allGenerations := generations.entries.map Prod.snd
  let (_, budget) ← loadCanonicalRootsWithBudget codec store
    (recordTreeRoots records allGenerations) (stateSymlinks (recordStates records allGenerations))
    ⟨0, decodedBytes⟩
  return ⟨prepared, generations, budget⟩

def selectLoaded (generations : SortedMap Digest StateGeneration) (head : NamespaceHead) :
    Except CommitError (NamespaceName × StateGeneration) := do
  let generation ← require (generations.get? head.generation)
    (.invalidStore "retained state generation is missing")
  return (head.namespaceName, generation)

/-- The catalog is valid and its claims are exclusive. -/
def validateSelection (state : StoreState) (generations : SortedMap Digest StateGeneration) :
    Except CommitError Unit := do
  let catalog ← readCatalog codec state
  let selected ← catalog.heads.mapM (selectLoaded generations)
  let projection ← asProjectionStore (fromSelectedGenerations selected)
  rejectProjectionAuthorityAliases machine projection none true

def collectRoots (loaded : LoadedStore) (catalog : StateCatalog) (request : PruneRequest) :
    Except CommitError RetainedClosure := do
  let retained ← catalog.heads.foldlM (collectHeadRoots loaded.generations) .empty
  loaded.prepared.entries.foldlM (collectPlanRoots loaded.generations request.planIds) retained

def generationsOf (generations : SortedMap Digest StateGeneration) (digests : List Digest) :
    List StateGeneration :=
  (sortedSet digests).filterMap generations.get?

/-- The retained closure after the reachability pass, with the reachable generations. -/
def reachRetained (loaded : LoadedStore) (catalog : StateCatalog) (request : PruneRequest) :
    Except CommitError (RetainedClosure × List Digest) := do
  let retained ← collectRoots loaded catalog request
  let reachable ← retained.generationRoots.foldlM (reachRoot loaded.generations) []
  let generations := generationsOf loaded.generations reachable
  let files := generations.flatMap fun generation =>
    generation.targets.filterMap fun target =>
      match target.state with
      | .file (some file) => some (file.digest, file.byteLen)
      | _ => none
  files.forM (verifySnapshotFile store)
  let retained : RetainedClosure := { retained with
    planIds := generations.map StateGeneration.planId ++ retained.planIds
    blobs := (generations.flatMap fun generation =>
      generation.artifacts.map StateArtifact.digest) ++ files.map Prod.fst ++ retained.blobs }
  retained.planIds.forM fun planId => reject (loaded.prepared.contains planId = false)
    (.invalidStore "explicitly retained prepared plan is missing")
  request.planIds.forM fun planId => reject (planId ∈ retained.planIds) (.planInUse planId)
  return (retained, reachable)

def prunedPlanIds (loaded : LoadedStore) (request : PruneRequest) (retained : RetainedClosure) :
    List PreparedId :=
  sortedSet (request.planIds ++
    if request.sweepUnreferenced then
      loaded.prepared.keys.filter fun planId => planId ∉ retained.planIds
    else
      [])

/-- The names a prune removes, generations in removal order. -/
structure PrunePlan where
  generations : List Digest
  plans : List PreparedId
  blobs : List Digest
  packs : List Digest
  trees : List Digest
  symlinks : List Digest
  files : List Digest
deriving DecidableEq, Repr

/-- The canonical objects that the kept records and the pins retain. -/
structure RetainedCanonical where
  files : List Digest
  symlinks : List Digest
  trees : List Digest
  budget : CanonicalLoadBudget

def retainCanonical (records : List PreparedRecord) (generations : List StateGeneration)
    (retained : RetainedClosure) (budget : CanonicalLoadBudget) :
    Except CommitError RetainedCanonical := do
  let (kept, budget) ← loadCanonicalRootsWithBudget codec store
    (recordTreeRoots records generations) (stateSymlinks (recordStates records generations)) budget
  let (pinned, budget) ← loadCanonicalRootsWithBudget codec store retained.pinnedTrees
    retained.pinnedSymlinks budget
  return {
    files := kept.files.keys ++ pinned.files.keys ++ retained.pinnedFiles
    symlinks := kept.symlinks.keys ++ pinned.symlinks.keys ++ retained.pinnedSymlinks
    trees := kept.trees.keys ++ pinned.trees.keys ++ retained.pinnedTrees
    budget := budget }

/-- What is stored and not retained, given the plans and generations that are kept. -/
def planRemovals (loaded : LoadedStore) (request : PruneRequest) (retained : RetainedClosure)
    (reachable : List Digest) : Except CommitError PrunePlan := do
  let pruned := prunedPlanIds loaded request retained
  let records := (loaded.prepared.entries.filter fun plan => plan.1 ∉ pruned).map Prod.snd
  let canonical ← retainCanonical codec store records
    (generationsOf loaded.generations reachable) retained loaded.budget
  let artifacts := records.flatMap fun record => record.artifacts.map PreparedArtifact.digest
  let packs := records.flatMap recordPackRoots ++ retained.packs
  let blobs := artifacts ++ retained.blobs
  checkDirectory store.blobs
  requireStored blobs store.blobs.keys .missingArtifact
  let (blobs, decodedBytes) ← (sortedSet packs).foldlM (retainPackMembers store)
    (blobs, canonical.budget.decodedBytes)
  let allPacks ← loadPackNames store
  requireStored packs allPacks fun _ => .invalidStore "retained pack object is missing"
  loadLeafNames (Encoded.byteLen fileObjectLen) maxFileObjectBytes store.files
  loadLeafNames (Encoded.byteLen symlinkObjectLen) maxSymlinkObjectBytes store.symlinks
  let _ ← loadTreeNames codec store decodedBytes
  requireStored canonical.files store.files.keys fun _ =>
    .invalidStore "retained canonical file object is missing"
  requireStored canonical.symlinks store.symlinks.keys fun _ =>
    .invalidStore "retained canonical symlink object is missing"
  requireStored canonical.trees store.trees.keys fun _ =>
    .invalidStore "retained canonical tree object is missing"
  let removedBlobs := store.blobs.keys.filter fun digest => digest ∉ blobs
  removedBlobs.forM fun digest => do
    let _ ← verifyBlob store digest
    return ()
  let generations ← orderGenerationRemovals loaded.generations reachable
  return {
    generations := generations
    plans := pruned
    blobs := removedBlobs
    packs := (sortedSet allPacks).filter fun digest => digest ∉ packs
    trees := store.trees.keys.filter fun digest => digest ∉ canonical.trees
    symlinks := store.symlinks.keys.filter fun digest => digest ∉ canonical.symlinks
    files := store.files.keys.filter fun digest => digest ∉ canonical.files }

end Prune

/-- `prune_store` up to the dry-run return. -/
def planPrune (codec : ObjectCodec) (machine : Machine) (state : StoreState)
    (request : PruneRequest) : Except CommitError PrunePlan := do
  let loaded ← loadWholeStore codec state.objects request
  validateSelection codec machine state loaded.generations
  let (retained, reachable) ← reachRetained state.objects loaded state.catalog request
  planRemovals codec state.objects loaded request retained reachable

/-! ## 7. Removal -/

/-- An entry of the store; a pack digest names one in each of its two representations. -/
inductive StoreEntry where
  | generation (digest : Digest)
  | plan (planId : PreparedId)
  | blob (digest : Digest)
  | pack (digest : Digest)
  | packManifest (digest : Digest)
  | tree (digest : Digest)
  | symlink (digest : Digest)
  | file (digest : Digest)
deriving DecidableEq, Repr

/-- The unlinks of a prune, in order; of a pack only what is stored. -/
def removals (store : ObjectStore) (plan : PrunePlan) : List StoreEntry :=
  plan.generations.map .generation ++ plan.plans.map .plan ++ plan.blobs.map .blob ++
    (plan.packs.filter fun digest => store.packs.contains digest).map .pack ++
    (plan.packs.filter fun digest => store.packManifests.contains digest).map .packManifest ++
    plan.trees.map .tree ++ plan.symlinks.map .symlink ++ plan.files.map .file

def ObjectStore.unlink (store : ObjectStore) : StoreEntry → ObjectStore
  | .generation digest => { store with generations := store.generations.erase digest }
  | .plan planId => { store with prepared := store.prepared.erase planId }
  | .blob digest => { store with blobs := store.blobs.erase digest }
  | .pack digest => { store with packs := store.packs.erase digest }
  | .packManifest digest => { store with packManifests := store.packManifests.erase digest }
  | .tree digest => { store with trees := store.trees.erase digest }
  | .symlink digest => { store with symlinks := store.symlinks.erase digest }
  | .file digest => { store with files := store.files.erase digest }

def checkRemoval {α : Type} (sizeOf : α → Nat) (limit : Nat) (identityHolds : α → Bool)
    (file : Option (StoreFile α)) : Except CommitError Unit := do
  let found ← readImmutable sizeOf limit file
  let bytes ← require found (.invalidStore "retention entry vanished")
  reject (identityHolds bytes = false)
    (.invalidStore "retention entry identity changed")

def manifestIdentity (digest : Digest) : Encoded (List PackMember) → Bool
  | .canonical members =>
    match decodePackManifestMembers (.canonical members) with
    | .ok _ => true
    | .error _ => false
  | .other bytes => bytes.hash = digest

def checkEntry (codec : ObjectCodec) (store : ObjectStore) : StoreEntry → Except CommitError Unit
  | .generation digest =>
    checkRemoval (Encoded.byteLen codec.generationBytes) maxStateRecordBytes
      (fun bytes => bytes.hash codec.generationDigest = digest) (store.generations.get? digest)
  | .plan planId =>
    checkRemoval (Encoded.byteLen codec.preparedBytes) maxPreparedRecordBytes
      (fun bytes => bytes.hash (fun record => (codec.preparedId record).digest) = planId.digest)
      (store.prepared.get? planId)
  | .blob digest =>
    checkRemoval Contents.byteLen maxArtifactBlobBytes (fun bytes => bytes.hash = digest)
      (store.blobs.get? digest)
  | .pack digest =>
    checkRemoval Contents.byteLen maxPackObjectBytes (fun bytes => bytes.hash = digest)
      (store.packs.get? digest)
  | .packManifest digest =>
    checkRemoval (Encoded.byteLen packManifestLen) maxPackObjectBytes (manifestIdentity digest)
      (store.packManifests.get? digest)
  | .tree digest =>
    checkRemoval (Encoded.byteLen TreeObject.encodedLen) maxTreeObjectBytes
      (fun bytes => bytes.hash codec.treeDigest = digest) (store.trees.get? digest)
  | .symlink digest =>
    checkRemoval (Encoded.byteLen symlinkObjectLen) maxSymlinkObjectBytes
      (fun bytes => bytes.hash codec.symlinkDigest = digest) (store.symlinks.get? digest)
  | .file digest =>
    checkRemoval (Encoded.byteLen fileObjectLen) maxFileObjectBytes
      (fun bytes => bytes.hash codec.fileDigest = digest) (store.files.get? digest)

def removeEntry (codec : ObjectCodec) (store : ObjectStore) (entry : StoreEntry) :
    Except CommitError ObjectStore := do
  checkEntry codec store entry
  return store.unlink entry

def pruneStore (codec : ObjectCodec) (machine : Machine) (state : StoreState)
    (request : PruneRequest) : Except CommitError StoreState := do
  let plan ← planPrune codec machine state request
  let objects ← (removals state.objects plan).foldlM (removeEntry codec) state.objects
  return ⟨objects, state.catalog⟩

/-- What was unlinked before a failure stays unlinked. -/
def removeUntilFailure (codec : ObjectCodec) : ObjectStore → List StoreEntry → ObjectStore
  | store, [] => store
  | store, entry :: rest =>
    match removeEntry codec store entry with
    | .ok next => removeUntilFailure codec next rest
    | .error _ => store

/-- What a prune leaves behind, whether it succeeds or not. -/
def attemptPrune (codec : ObjectCodec) (machine : Machine) (state : StoreState)
    (request : PruneRequest) : StoreState :=
  match planPrune codec machine state request with
  | .ok plan => ⟨removeUntilFailure codec state.objects (removals state.objects plan),
      state.catalog⟩
  | .error _ => state

end Malm.Commit
