/-
Malm.Commit.Apply — a commit on the target file system (`commit_v1` from the pinned
targets to the cleanup of the backups).

Directories, symbolic links and trees are published first, in plan order; the other
operations run in phases, and at the end every one is verified. A removal or an absence
assertion may stay pinned at the deepest directory that exists; its last checks look for
its leaf's name there (`pinnedLeaf`). What the kernel gives to new objects is `stamps`.
-/
import Malm.Commit.Target
import Malm.Commit.Publication

namespace Malm.Commit

open Store Target Checks

/-! ## 1. New objects -/

inductive Creation where
  | file (contents : Contents)
  | directory
  | symlink (target : Text)
deriving DecidableEq, Repr

namespace Creation

def kind : Creation → EntryKind
  | file contents => .file contents
  | directory => .directory
  | symlink target => .symlink target

def typeBits : Creation → BitVec 32
  | file _ => 0o100000#32
  | directory => 0o040000#32
  | symlink _ => 0o120000#32

def links : Creation → Nat
  | directory => 2
  | _ => 1

def size : Creation → Nat
  | file contents => contents.byteLen
  | directory => 0
  | symlink target => target.byteLen

/-- Whether its owner can open it. -/
def accessible (mode : BitVec 32) : Creation → Bool
  | file _ => mode &&& 0o400#32 ≠ 0
  | directory => mode &&& 0o500#32 = 0o500#32
  | symlink _ => true

end Creation

/-- What the kernel chooses for a new object. -/
structure Stamp where
  device : Nat
  inode : Nat
  groupId : Nat
  modifiedSeconds : Int
  modifiedNanoseconds : Nat
  changedSeconds : Int
  changedNanoseconds : Nat
deriving DecidableEq, Repr

theorem typeBits_or (bits mode : BitVec 32) (h : bits &&& 0o170000#32 = bits) :
    (bits ||| mode &&& 0o7777#32) &&& 0o170000#32 = bits := by
  rw [BitVec.and_or_distrib_right, h, BitVec.and_assoc]
  simp

theorem fromRawMode_created (creation : Creation) (mode : BitVec 32) :
    FileType.fromRawMode (creation.typeBits ||| mode &&& 0o7777#32) = creation.kind.fileType := by
  have hfile := typeBits_or 0o100000#32 mode (by decide)
  have hdir := typeBits_or 0o040000#32 mode (by decide)
  have hsymlink := typeBits_or 0o120000#32 mode (by decide)
  cases creation with
  | file data => simp [FileType.fromRawMode, Creation.typeBits, hfile, Creation.kind,
      EntryKind.fileType]
  | directory => simp [FileType.fromRawMode, Creation.typeBits, hdir, Creation.kind,
      EntryKind.fileType]
  | symlink t => simp [FileType.fromRawMode, Creation.typeBits, hsymlink, Creation.kind,
      EntryKind.fileType]

/-- A new object of the effective user. -/
def createdEntry (uid : Nat) (stamp : Stamp) (mode : BitVec 32) (creation : Creation) : Entry where
  kind := creation.kind
  identity :=
    ⟨stamp.device, stamp.inode, uid, stamp.groupId, creation.typeBits ||| mode &&& 0o7777#32,
      creation.links, creation.size, stamp.modifiedSeconds, stamp.modifiedNanoseconds,
      stamp.changedSeconds, stamp.changedNanoseconds⟩
  accessible := creation.accessible mode
  typed := fromRawMode_created creation mode
  sized := by
    intro contents h
    cases creation <;> cases h
    rfl

/-- Rename a new object into place; the directories above it are there. -/
def placeEntry (system : TargetSystem) (key : TargetKey) (placed : Entry) :
    Except CommitError TargetSystem :=
  if h : key.2 ≠ [] ∧ system.hasParents key = true then
    .ok (system.replace key placed h.1 h.2)
  else
    .error (.invalidPlan "target ancestors were never created by the plan")

/-- Rename a leaf to its backup name, below which nobody looks. -/
def unlinkEntry (system : TargetSystem) (key : TargetKey) : TargetSystem :=
  if h : key.2 ≠ [] then system.remove key h else system

section Apply

variable (objects : CanonicalObjects) (uid : Nat) (stamps : TargetKey → Stamp)

/-- `materialize_tree_directory`, with the levels that are left. -/
def materializeTreeDirectory :
    Nat → TargetKey → Digest → TargetSystem → Except CommitError TargetSystem
  | 0, _, _, _ => .error (.invalidStore "canonical tree exceeds its depth limit")
  | depthLeft + 1, key, digest, system => do
    let tree ← require (objects.trees.get? digest)
      (.invalidStore "canonical tree object is missing")
    let system ← placeEntry system key (createdEntry uid (stamps key) tree.rootMode .directory)
    tree.entries.foldlM (fun system member =>
      let child : TargetKey := (key.1, joinPath key.2 member.name)
      match member.kind with
      | .file digest _ => do
        let bytes ← require (objects.files.get? digest)
          (.invalidStore "canonical file object is missing")
        placeEntry system child (createdEntry uid (stamps child) member.mode (.file bytes))
      | .symlink digest => do
        let target ← asInvalidObject (objects.safeSymlinkTarget digest)
        placeEntry system child (createdEntry uid (stamps child) 0o777 (.symlink target))
      | .directory digest => materializeTreeDirectory depthLeft child digest system) system

/-! ## 2. Pinned targets -/

/-- The paths of the directories above a destination that were observed. -/
def existingPaths (observation : TargetObservation) : List Text :=
  observation.relativePath.ancestorPaths.take
    (observation.relativePath.ancestorPaths.length - observation.missingAncestors)

/-- `pending_prefixes`: the missing directories the plan has not created yet. -/
def pendingPrefixes (created : List TargetKey) (observation : TargetObservation) : List Text :=
  (observation.relativePath.ancestorPaths.drop (existingPaths observation).length).dropWhile
    fun path => decide ((observation.authority, path) ∈ created)

def pinnedDirectories (observation : TargetObservation) : List (Text × FileIdentity) :=
  ([], observation.traversalAnchor) ::
    (existingPaths observation).zip (observation.ancestors ++ [observation.parent])

def revalidateBindings (system : TargetSystem) (created : List TargetKey)
    (observation : TargetObservation) : Except CommitError Unit := do
  (pinnedDirectories observation).forM fun (path, identity) => do
    let entry ← require (system.entry (observation.authority, path))
      (.ioFailure "revalidate target ancestor")
    reject
      (entry.identity.device ≠ identity.device ∨ entry.identity.inode ≠ identity.inode)
      (.staleTarget "target ancestor binding changed")
  whenSome (pendingPrefixes created observation).head? fun path =>
    reject (system.entry (observation.authority, path)).isSome
      (.staleTarget "target ancestor was created externally")

def sameCreatedIdentity (actual expected : FileIdentity) : Bool :=
  actual.device = expected.device && actual.inode = expected.inode &&
    actual.userId = expected.userId && actual.groupId = expected.groupId &&
    actual.mode = expected.mode

def compareLeaf (system : TargetSystem) (key : TargetKey) (expected : LeafObservation) :
    Except CommitError Unit :=
  match expected, system.entry key with
  | .absent, none => .ok ()
  | .present expected, some actual =>
    if FileType.fromRawMode expected.mode = .directory then
      reject (sameCreatedIdentity actual.identity expected = false)
        (.staleTarget "target leaf identity changed")
    else do
      reject (actual.identity ≠ expected) (.staleTarget "target leaf identity changed")
      reject (actual.identity.links ≠ 1)
        (.unsafeTarget "target leaf has multiple hard links")
  | _, _ => .error (.staleTarget "target leaf presence changed")

/-- The leaf of a target, unless a directory above it is still missing. -/
def pinnedLeaf (created : List TargetKey) (observation : TargetObservation) : TargetKey :=
  match pendingPrefixes created observation with
  | [] => observation.key
  | head :: _ =>
    let leaf := observation.relativePath.segments.getLast?.getD []
    (observation.authority, joinPath (head.ancestorPaths.getLast?.getD []) leaf)

def revalidate (system : TargetSystem) (created : List TargetKey)
    (observation : TargetObservation) : Except CommitError Unit := do
  revalidateBindings system created observation
  Checks.when (pendingPrefixes created observation = [])
    (compareLeaf system observation.key observation.leaf)

def verifyPriorState (system : TargetSystem) (operation : PreparedOperation) :
    Except CommitError Unit :=
  match operation with
  | .assertExact observation state =>
    requireTargetState objects uid system observation.key state
  | _ => .ok ()

/-! ## 3. Canonical operations -/

/-- The file system during a commit, with the directories created so far. -/
structure ApplyState where
  system : TargetSystem
  created : List TargetKey

/-- The old leaf is moved aside, the new object renamed into its place (`place`). -/
def publishStagedEntry (prior : Option StateTargetState) (operation : PreparedOperation)
    (state : ApplyState) (place : TargetSystem → Except CommitError TargetSystem) :
    Except CommitError TargetSystem := do
  revalidate state.system state.created operation.observation
  discardLeaf objects uid state.system prior operation
  place state.system

/-- `apply` of a directory: a created one is opened like any directory above a target. -/
def applyDirectory (prior : Option StateTargetState) (operation : PreparedOperation)
    (mode : BitVec 32) (state : ApplyState) : Except CommitError ApplyState := do
  let placed := createdEntry uid (stamps operation.key) mode .directory
  let system ← publishStagedEntry objects uid prior operation state fun system =>
    placeEntry system operation.key placed
  requireSafeDirectory uid placed
  return ⟨system, operation.key :: state.created⟩

/-- `apply`, for the operations that run in plan order. -/
def applyCanonical (previous : Option StateGeneration) (state : ApplyState)
    (operation : PreparedOperation) : Except CommitError ApplyState :=
  let prior := priorTargetState previous operation.key
  match operation with
  | .ensureDirectory _ mode => applyDirectory objects uid stamps prior operation mode state
  | .placeSymlink _ object _ => do
    let target ← asInvalidObject (objects.safeSymlinkTarget object)
    let system ← publishStagedEntry objects uid prior operation state fun system =>
      placeEntry system operation.key
        (createdEntry uid (stamps operation.key) 0o777 (.symlink target))
    return { state with system := system }
  | .placeTree _ tree _ _ => do
    let system ← publishStagedEntry objects uid prior operation state
      (materializeTreeDirectory objects uid stamps (maxTreeDepth + 1) operation.key tree)
    return { state with system := system }
  | .assertAbsent observation => do
    revalidate state.system state.created observation
    compareLeaf state.system (pinnedLeaf state.created observation) .absent
    return state
  | _ => .ok state

/-! ## 4. Phases -/

/-- Whether an operation was applied in plan order. -/
def isCanonicalPlacement : PreparedOperation → Bool
  | .ensureDirectory _ _ => true
  | .placeSymlink _ _ _ => true
  | .placeTree _ _ _ _ => true
  | _ => false

/-- The race check before the phases: every placement has its parent by now. -/
def revalidatePhased (state : ApplyState) (operation : PreparedOperation) :
    Except CommitError Unit :=
  Checks.when (isCanonicalPlacement operation = false) do
    reject
      (pendingPrefixes state.created operation.observation ≠ [] ∧ absenceShaped operation = false)
      (.invalidPlan "target ancestors were never created by the plan")
    revalidate state.system state.created operation.observation

/-- Phases B and C for one leaf: pin, rename to the backup, and identify it. -/
def checkReplacement (previous : Option StateGeneration) (state : ApplyState)
    (operation : PreparedOperation) : Except CommitError Unit :=
  match operation with
  | .placeFile _ _ _ _ =>
    discardLeaf objects uid state.system (priorTargetState previous operation.key) operation
  | .removeLeaf observation => do
    revalidateBindings state.system state.created observation
    Checks.when (pendingPrefixes state.created observation = [])
      (discardLeaf objects uid state.system (priorTargetState previous operation.key) operation)
  | _ => .ok ()

/-- The leaves the phases move aside. -/
def renameToBackup (system : TargetSystem) (operation : PreparedOperation) : TargetSystem :=
  match operation with
  | .placeFile _ _ _ _ => unlinkEntry system operation.key
  | .removeLeaf observation =>
    if observation.leaf.isPresent then unlinkEntry system operation.key else system
  | _ => system

def artifactContents (blobs : List (ArtifactId × Contents)) (artifactId : ArtifactId) :
    Except CommitError Contents :=
  require ((blobs.find? fun blob => blob.1 = artifactId).map Prod.snd)
    (.invalidPlan "artifact is not loaded")

def renameIntoPlace (blobs : List (ArtifactId × Contents)) (system : TargetSystem)
    (operation : PreparedOperation) : Except CommitError TargetSystem :=
  match operation with
  | .placeFile _ artifactId mode _ => do
    let contents ← artifactContents blobs artifactId
    placeEntry system operation.key
      (createdEntry uid (stamps operation.key) mode (.file contents))
  | _ => .ok system

/-! ## 5. Verification -/

def requireManagedDirectory (system : TargetSystem) (key : TargetKey) (mode : BitVec 32) :
    Except CommitError Unit := do
  let entry ← require (system.entry key) (.ioFailure "open transaction directory")
  reject (entry.kind ≠ .directory ∨ entry.accessible = false)
    (.ioFailure "open transaction directory")
  reject
    (entry.identity.userId ≠ uid ∨ entry.identity.mode &&& 0o7777#32 ≠ mode)
    (.invalidJournal "transaction directory has unexpected metadata")

def verifyApplied (blobs : List (ArtifactId × Contents)) (state : ApplyState)
    (operation : PreparedOperation) : Except CommitError Unit :=
  let system := state.system
  match operation with
  | .placeFile _ artifactId mode _ => do
    let contents ← artifactContents blobs artifactId
    requireLeafBytes uid system operation.key mode contents
  | .ensureDirectory _ mode => requireManagedDirectory uid system operation.key mode
  | .placeSymlink _ object _ => do
    let target ← asInvalidObject (objects.safeSymlinkTarget object)
    requireSymlinkTarget uid system operation.key target
  | .placeTree _ tree _ _ =>
    requireTreeDirectory objects uid system (maxTreeDepth + 1) operation.key tree
  | .removeLeaf observation =>
    requireEntryAbsent system (pinnedLeaf state.created observation)
  | .assertAbsent observation =>
    requireEntryAbsent system (pinnedLeaf state.created observation)
  | .assertExact observation expected => do
    requireTargetState objects uid system operation.key expected
    compareLeaf system operation.key observation.leaf

/-- The targets of a commit, once its objects are loaded. -/
def applyTargets (previous : Option StateGeneration) (blobs : List (ArtifactId × Contents))
    (operations : List PreparedOperation) (system : TargetSystem) :
    Except CommitError TargetSystem := do
  operations.forM fun operation => do
    revalidate system [] operation.observation
    verifyPriorState objects uid system operation
  let state ← operations.foldlM (applyCanonical objects uid stamps previous) ⟨system, []⟩
  operations.forM (revalidatePhased state)
  operations.forM (checkReplacement objects uid previous state)
  let system ← operations.foldlM (renameIntoPlace uid stamps blobs)
    (operations.foldl renameToBackup state.system)
  operations.forM (verifyApplied objects uid blobs { state with system := system })
  return system

end Apply

/-! ## 6. The commit -/

def loadCanonicalObjects (codec : ObjectCodec) (store : ObjectStore) (prepared : PreparedRecord)
    (previous : Option StateGeneration) : Except CommitError CanonicalObjects := do
  let states := (prepared.desiredSnapshot.targets ++
    ((previous.map StateGeneration.targets).getD [])).map StateTarget.state
  let tracked := (prepared.trackedRoot.toList ++
    (previous.bind StateGeneration.trackedRoot).toList).map TrackedRoot.rootTreeDigest
  let (objects, _) ← loadCanonicalRootsWithBudget codec store (stateTreeRoots states ++ tracked)
    (stateSymlinks states) .default
  return objects

/-- `commit_v1`: the store and the targets it leaves behind. -/
def commitPlan (codec : ObjectCodec) (machine : Machine) (uid : Nat)
    (stamps : TargetKey → Stamp) (store : StoreState) (system : TargetSystem)
    (request : CommitRequest) : Except CommitError (StoreState × TargetSystem) := do
  let (prepared, transition) ← admitCommit codec machine store request
  let previous ← transition.previous.mapM (loadGeneration codec store.objects)
  let blobs ← loadAllArtifacts store.objects prepared
  let objects ← loadCanonicalObjects codec store.objects prepared previous
  let system ← applyTargets objects uid stamps previous blobs prepared.operations system
  let next ← publishGenerationAndCatalog codec store transition
  return (next, system)

end Malm.Commit
