/-
Malm.Commit.Objects — the published objects of a store and their loaders
(`object_load.rs`, `load_generation…`, the object checks of `retention.rs`).

A store area is a map from names to files. Files that change while they are read are left
out. The work list of `load_canonical_roots_with_budget` charges one item per popped tree,
so it recurses on the items that are left.
-/
import Malm.Commit.Canonical
import Malm.Store.Prepared

namespace Malm.Commit

open Store Checks

def maxRetentionEntries : Nat := 1000000
def maxRetentionDecodedBytes : Nat := 512 * 1024 * 1024
def maxPackObjectBytes : Nat := 1024 * 1024 * 1024 + 100000 * (16 + 1024) + 64
def maxPackManifestBytes : Nat := 128 * 1024 * 1024

/-! ## 1. Areas -/

/-- A published file: a regular one, owned, with the immutable mode and one link. -/
structure StoreFile (α : Type) where
  regular : Bool
  owned : Bool
  immutable : Bool
  bytes : α
deriving DecidableEq, Repr

structure PackMember where
  path : Text
  blob : Digest
  byteLen : Nat
deriving DecidableEq, Repr

def packManifestLen (members : List PackMember) : Nat :=
  29 + 2 + 8 + (members.map fun member => 8 + member.path.byteLen + 8 + 71 + 8).sum

/-- The immutable objects; a pack manifest is named by the logical pack digest. -/
structure ObjectStore where
  generations : SortedMap Digest (StoreFile (Encoded StateGeneration))
  prepared : SortedMap PreparedId (StoreFile (Encoded PreparedRecord))
  blobs : SortedMap Digest (StoreFile Contents)
  packs : SortedMap Digest (StoreFile Contents)
  packManifests : SortedMap Digest (StoreFile (Encoded (List PackMember)))
  files : SortedMap Digest (StoreFile (Encoded Contents))
  symlinks : SortedMap Digest (StoreFile (Encoded Text))
  trees : SortedMap Digest (StoreFile (Encoded TreeObject))

def ObjectStore.empty : ObjectStore :=
  ⟨.empty, .empty, .empty, .empty, .empty, .empty, .empty, .empty⟩

def readImmutable {α : Type} (sizeOf : α → Nat) (limit : Nat) (file : Option (StoreFile α)) :
    Except CommitError (Option α) :=
  match file with
  | none => .ok none
  | some file =>
    if !file.regular || !file.owned || !file.immutable || limit < sizeOf file.bytes then
      .error (.invalidStore "unsafe file metadata")
    else
      .ok (some file.bytes)

/-- A bounded regular file of the effective user, by its length. -/
def statShape {α : Type} (sizeOf : α → Nat) (limit : Nat) (invalid : CommitError)
    (file : StoreFile α) : Except CommitError Nat :=
  if !file.regular || !file.owned || limit < sizeOf file.bytes then
    .error invalid
  else
    .ok (sizeOf file.bytes)

/-! ## 2. Errors of records -/

def stateRecordReason : StateRecordError → String
  | .tooLarge _ _ => "state record exceeds its byte limit"
  | .unsupportedVersion _ _ => "unsupported state version"
  | .nonCanonical => "state record is not canonical"
  | .digestMismatch _ _ => "state generation mismatch"
  | .invalidState reason => reason
  | .targetsOverlap _ _ _ => "present targets overlap"
  | .operationAt reason _ _ => reason
  | .record _ => "invalid nested record"

def asInvalidStore {α : Type} (result : Except StateRecordError α) : Except CommitError α :=
  result.mapError fun error => .invalidStore (stateRecordReason error)

def asInvalidPlan {α : Type} (result : Except StateRecordError α) : Except CommitError α :=
  result.mapError fun error => .invalidPlan (stateRecordReason error)

def asInvalidObject {α : Type} (result : Except CanonicalObjectIssue α) : Except CommitError α :=
  result.mapError fun _ => .invalidStore "canonical object is invalid"

/-! ## 3. Generations and plans -/

section Loaders

variable (codec : ObjectCodec) (store : ObjectStore)

def decodeStateGeneration (expected : Digest) (bytes : Encoded StateGeneration) :
    Except StateRecordError StateGeneration :=
  match bytes with
  | .other _ => .error .nonCanonical
  | .canonical generation => do
    reject (codec.generationDigest generation ≠ expected)
      (.digestMismatch expected (codec.generationDigest generation))
    validateStateGeneration codec.toCodec generation
    return generation

def loadGenerationWithEncodedLen (digest : Digest) :
    Except CommitError (StateGeneration × Nat) := do
  let found ← readImmutable (Encoded.byteLen codec.generationBytes) maxStateRecordBytes
    (store.generations.get? digest)
  let bytes ← require found (.invalidStore "state generation object is missing")
  let generation ← asInvalidStore (decodeStateGeneration codec digest bytes)
  return (generation, bytes.byteLen codec.generationBytes)

def loadGeneration (digest : Digest) : Except CommitError StateGeneration := do
  let (generation, _) ← loadGenerationWithEncodedLen codec store digest
  return generation

def decodePreparedRecord (expected : PreparedId) (bytes : Encoded PreparedRecord) :
    Except CommitError PreparedRecord :=
  match bytes with
  | .other _ => .error (.invalidPlan "prepared record is not canonical")
  | .canonical record =>
    if codec.preparedId record ≠ expected then
      .error (.invalidPlan "prepared record identity mismatch")
    else
      match validateDecoded codec.toCodec record with
      | .error _ => .error (.invalidPlan "invalid prepared record")
      | .ok () => .ok record

def loadPreparedWithEncodedLen (planId : PreparedId) :
    Except CommitError (PreparedRecord × Nat) := do
  let found ← readImmutable (Encoded.byteLen codec.preparedBytes) maxPreparedRecordBytes
    (store.prepared.get? planId)
  let bytes ← require found (.missingPlan planId)
  let record ← decodePreparedRecord codec planId bytes
  return (record, bytes.byteLen codec.preparedBytes)

def loadPrepared (planId : PreparedId) : Except CommitError PreparedRecord := do
  let (record, _) ← loadPreparedWithEncodedLen codec store planId
  return record

/-! ## 4. Blobs and packs -/

/-- `verify_blob`: a bounded, owned regular file, by its length. -/
def verifyBlob (digest : Digest) : Except CommitError Nat := do
  let file ← require (store.blobs.get? digest) (.missingArtifact digest)
  statShape Contents.byteLen maxArtifactBlobBytes
    (.invalidStore "retained artifact blob differs from its published shape") file

def referencedArtifacts (prepared : PreparedRecord) : List ArtifactId :=
  prepared.operations.filterMap PreparedOperation.artifactId

/-- A placed artifact is read and hashed; of the others the stored shape is enough. -/
def loadArtifact (referenced : List ArtifactId) (artifact : PreparedArtifact) :
    Except CommitError (Option (ArtifactId × Contents)) :=
  if artifact.id ∉ referenced then do
    let file ← require (store.blobs.get? artifact.digest) (.missingArtifact artifact.digest)
    reject (file.regular = false ∨ file.bytes.byteLen ≠ artifact.byteLen)
      (.invalidStore "artifact blob differs from its prepared metadata")
    return none
  else do
    let found ← readImmutable Contents.byteLen maxArtifactBlobBytes
      (store.blobs.get? artifact.digest)
    let bytes ← require found (.missingArtifact artifact.digest)
    reject (bytes.hash ≠ artifact.digest) (.corruptArtifact artifact.digest bytes.hash)
    reject (bytes.byteLen ≠ artifact.byteLen)
      (.invalidPlan "artifact length differs from prepared metadata")
    return some (artifact.id, bytes)

def loadAllArtifacts (prepared : PreparedRecord) :
    Except CommitError (List (ArtifactId × Contents)) := do
  let loaded ← prepared.artifacts.mapM (loadArtifact store (referencedArtifacts prepared))
  return loaded.filterMap id

def recordPackRoots (record : PreparedRecord) : List Digest :=
  sortedSet
    ((record.inputs.filter fun input =>
        input.kind = .source && input.name.take 5 = ['p', 'a', 'c', 'k', ':']).map
        PreparedInput.digest ++
      record.transforms.filterMap fun transform =>
        match transform.implementation with
        | .component _ packContentDigest _ _ _ _ => some packContentDigest
        | .builtIn _ => none)

/-- `verify_pack_object`: the manifest area is asked first. -/
def verifyPackObject (digest : Digest) : Except CommitError Nat :=
  match store.packManifests.get? digest with
  | some file =>
    statShape (Encoded.byteLen packManifestLen) maxPackObjectBytes
      (.invalidStore "pack object is invalid") file
  | none =>
    match store.packs.get? digest with
    | some file =>
      statShape Contents.byteLen maxPackObjectBytes (.invalidStore "pack object is invalid") file
    | none => .error (.invalidStore "pack object is missing")

/-! ## 5. Canonical objects -/

structure CanonicalLoadBudget where
  traversedItems : Nat
  decodedBytes : Nat
deriving DecidableEq, Repr

def CanonicalLoadBudget.default : CanonicalLoadBudget := ⟨0, 0⟩

def chargeCanonicalLoadItem (budget : CanonicalLoadBudget) :
    Except CommitError CanonicalLoadBudget :=
  if budget.traversedItems = maxRetentionEntries then
    .error (.invalidStore "canonical root traversal exceeds its logical work items")
  else
    .ok { budget with traversedItems := budget.traversedItems + 1 }

def chargeCanonicalLoadBytes (budget : CanonicalLoadBudget) (bytes : Nat) :
    Except CommitError CanonicalLoadBudget :=
  if maxRetentionDecodedBytes < budget.decodedBytes + bytes then
    .error (.invalidStore "canonical root loading exceeds its decoded bytes")
  else
    .ok { budget with decodedBytes := budget.decodedBytes + bytes }

def readCanonicalObject {α : Type} (sizeOf : α → Nat) (limit : Nat)
    (file : Option (StoreFile α)) : Except CommitError α := do
  let found ← readImmutable sizeOf limit file
  require found (.invalidStore "canonical object is missing")

/-- Read, charge and decode one object: the common part of the three kinds. -/
def loadCanonicalObject {α β : Type} (sizeOf : α → Nat) (limit : Nat)
    (decode : α → Except CanonicalObjectIssue β) (file : Option (StoreFile α))
    (budget : CanonicalLoadBudget) : Except CommitError (β × CanonicalLoadBudget) := do
  let bytes ← readCanonicalObject sizeOf limit file
  let budget ← chargeCanonicalLoadBytes budget (sizeOf bytes)
  let value ← asInvalidObject (decode bytes)
  return (value, budget)

def loadTreeObject (digest : Digest) (budget : CanonicalLoadBudget) :
    Except CommitError (TreeObject × CanonicalLoadBudget) :=
  loadCanonicalObject (Encoded.byteLen TreeObject.encodedLen) maxTreeObjectBytes
    (decodeTree codec digest) (store.trees.get? digest) budget

def loadFileObject (digest : Digest) (budget : CanonicalLoadBudget) :
    Except CommitError (Contents × CanonicalLoadBudget) :=
  loadCanonicalObject (Encoded.byteLen fileObjectLen) maxFileObjectBytes
    (decodeFile codec digest) (store.files.get? digest) budget

def loadSymlinkObject (digest : Digest) (budget : CanonicalLoadBudget) :
    Except CommitError (Text × CanonicalLoadBudget) :=
  loadCanonicalObject (Encoded.byteLen symlinkObjectLen) maxSymlinkObjectBytes
    (decodeSymlink codec digest) (store.symlinks.get? digest) budget

def stateTreeRoots (states : List StateTargetState) : List Digest :=
  states.filterMap fun
    | .tree (some tree) => some tree.tree
    | _ => none

/-- `collect_canonical_state_roots`: the direct symlinks of some states. -/
def stateSymlinks (states : List StateTargetState) : List Digest :=
  states.filterMap fun
    | .symlink (some symlink) => some symlink.object
    | _ => none

/-- A tree on the work list: its digest, depth and path bytes. -/
structure PendingTree where
  digest : Digest
  depth : Nat
  prefixBytes : Nat
deriving DecidableEq, Repr

/-- The variables of the loops over roots, trees and entries. -/
structure LoadState where
  objects : CanonicalObjects
  directSymlinks : List Digest
  budget : CanonicalLoadBudget
  pending : List PendingTree
  logicalEntries : Nat
  logicalFileBytes : Nat

def invalidCanonicalGraph : CommitError := .invalidStore "canonical tree graph object is invalid"

def loadFileEntry (state : LoadState) (digest : Digest) (byteLen : Nat) :
    Except CommitError LoadState := do
  let total := state.logicalFileBytes + byteLen
  reject (maxTreeFileBytes < total) invalidCanonicalGraph
  let state := { state with logicalFileBytes := total }
  if state.objects.files.contains digest then
    return state
  else do
    let (contents, budget) ← loadFileObject codec store digest state.budget
    reject (contents.byteLen ≠ byteLen) invalidCanonicalGraph
    return { state with
      budget := budget
      objects := { state.objects with files := state.objects.files.insert digest contents } }

/-- The length of an entry's path below a prefix of `prefixBytes`. -/
def entryPathBytes (prefixBytes : Nat) (name : Text) : Nat :=
  prefixBytes + (if prefixBytes ≠ 0 then 1 else 0) + name.byteLen

def loadEntry (tree : PendingTree) (state : LoadState) (entry : TreeEntry) :
    Except CommitError LoadState := do
  let budget ← chargeCanonicalLoadItem state.budget
  reject (maxTreeDepth < tree.depth + 1) invalidCanonicalGraph
  let pathBytes := entryPathBytes tree.prefixBytes entry.name
  reject (maxTreePathBytes < pathBytes) invalidCanonicalGraph
  reject (state.logicalEntries = maxTreeEntries) invalidCanonicalGraph
  let state := { state with budget := budget, logicalEntries := state.logicalEntries + 1 }
  match entry.kind with
  | .file digest byteLen => loadFileEntry codec store state digest byteLen
  | .directory digest =>
    return { state with pending := ⟨digest, tree.depth + 1, pathBytes⟩ :: state.pending }
  | .symlink digest => return { state with directSymlinks := digest :: state.directSymlinks }

/-- The tree of a popped item: cached, or read, charged and decoded. -/
def fetchTree (state : LoadState) (digest : Digest) : Except CommitError (TreeObject × LoadState) :=
  match state.objects.trees.get? digest with
  | some tree => .ok (tree, state)
  | none => do
    let (tree, budget) ← loadTreeObject codec store digest state.budget
    return (tree, { state with
      budget := budget
      objects := { state.objects with trees := state.objects.trees.insert digest tree } })

/-- The work list of one root, with the items that are left in the budget. -/
def loadPending : Nat → LoadState → Except CommitError LoadState
  | itemsLeft, state =>
    match state.pending with
    | [] => .ok state
    | top :: pending =>
      match itemsLeft with
      | 0 => .error (.invalidStore "canonical root traversal exceeds its logical work items")
      | itemsLeft + 1 => do
        let budget ← chargeCanonicalLoadItem state.budget
        let (tree, state) ← fetchTree codec store
          { state with pending := pending, budget := budget } top.digest
        let state ← tree.entries.foldlM (loadEntry codec store top) state
        loadPending itemsLeft state

def loadTreeRoot (state : LoadState) (root : Digest) : Except CommitError LoadState :=
  loadPending codec store (maxRetentionEntries - state.budget.traversedItems)
    { state with pending := [⟨root, 0, 0⟩], logicalEntries := 0, logicalFileBytes := 0 }

def loadSymlink (state : CanonicalObjects × CanonicalLoadBudget) (digest : Digest) :
    Except CommitError (CanonicalObjects × CanonicalLoadBudget) :=
  if state.1.symlinks.contains digest then
    .ok state
  else do
    let budget ← chargeCanonicalLoadItem state.2
    let (target, budget) ← loadSymlinkObject codec store digest budget
    return ({ state.1 with symlinks := state.1.symlinks.insert digest target }, budget)

def loadCanonicalRootsWithBudget (treeRoots directSymlinks : List Digest)
    (budget : CanonicalLoadBudget) :
    Except CommitError (CanonicalObjects × CanonicalLoadBudget) := do
  let state ← (sortedSet treeRoots).foldlM (loadTreeRoot codec store)
    ⟨.empty, directSymlinks, budget, [], 0, 0⟩
  let (objects, budget) ← (sortedSet state.directSymlinks).foldlM (loadSymlink codec store)
    (state.objects, state.budget)
  (sortedSet treeRoots).forM fun root => asInvalidObject (objects.validateTree root)
  return (objects, budget)

def loadCanonicalStateObjectsWithBudget (states : List StateTargetState)
    (budget : CanonicalLoadBudget) :
    Except CommitError (CanonicalObjects × CanonicalLoadBudget) :=
  loadCanonicalRootsWithBudget codec store (stateTreeRoots states) (stateSymlinks states) budget

end Loaders

end Malm.Commit
