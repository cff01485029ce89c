/-
Malm.Pack.Store — publication and loading of packs (`pack_store.rs`).

A pack is stored as a manifest that lists its members, whose bytes are blobs; a
legacy pack is one object and is only read. A manifest that is already there is
reused after a check of its shape only. `fsync` and the checks against concurrent
renames are left out.
-/
import Malm.Commit.Retention
import Malm.Pack.Graph

namespace Malm.Pack

open Commit Checks

def maxPackPathBytes : Nat := 1024
def maxPackPathSegments : Nat := 32

def reservedSegment (segment : Text) : Bool :=
  segment = ".git".toList || segment = "malm.lock".toList || segment = ".malm-lock.tmp".toList

/-- `validate_pack_path`: what `PackPath::new` requires. -/
def packPathShape (path : PackPath) : Bool :=
  !path.isEmpty && path.byteLen ≤ maxPackPathBytes && path.head? ≠ some '/' &&
    !path.contains '\\' && !path.any Text.isControl &&
    path.segments.length ≤ maxPackPathSegments &&
    path.segments.all fun segment =>
      !segment.isEmpty && segment ≠ ['.'] && segment ≠ ['.', '.'] && segment.byteLen ≤ 255 &&
        !reservedSegment segment

/-- `PackObjectIssue`, and the errors of the blob store on the way. -/
inductive PackStoreError where
  | invalidEncoding (detail : String)
  | invalidTree (error : PackTreeError)
  | digestMismatch (actual : Digest)
  | missing
  | unsafeObject
  | objectTooLarge
  | missingBlob (digest : Digest)
  | entryTooLarge (digest : Digest)
  | observationChanged
deriving DecidableEq, Repr

inductive PackObjectPublication where
  | published
  | reused
deriving DecidableEq, Repr

structure PackObjectCodec extends PackCodec where
  /-- The files in the bytes of a legacy object, when its envelope is well
  formed. -/
  objectFiles : Contents → Option (List PackFile)

/-! ## 1. Blobs -/

/-- `publish_blob`: a stored blob of the right length is reused. -/
def publishBlob (store : ObjectStore) (digest : Digest) (bytes : Contents) :
    Except PackStoreError ObjectStore := do
  reject (maxArtifactBlobBytes < bytes.byteLen) (.entryTooLarge digest)
  reject (bytes.hash ≠ digest) (.digestMismatch bytes.hash)
  match store.blobs.get? digest with
  | none => return { store with blobs := store.blobs.insert digest ⟨true, true, true, bytes⟩ }
  | some file =>
    if file.regular && file.owned && file.bytes.byteLen = bytes.byteLen then
      return store
    else do
      reject
        (!file.regular || !file.owned || !file.immutable || bytes.byteLen < file.bytes.byteLen)
        .observationChanged
      reject (file.bytes ≠ bytes) (.digestMismatch file.bytes.hash)
      return store

def publishBlobs (store : ObjectStore) (contents : List Contents) :
    Except PackStoreError ObjectStore :=
  contents.foldlM (fun store bytes => publishBlob store bytes.hash bytes) store

def loadBlobByDigest (store : ObjectStore) (digest : Digest) : Except PackStoreError Contents := do
  let file ← require (store.blobs.get? digest) (.missingBlob digest)
  reject (!file.regular || !file.owned || !file.immutable) .observationChanged
  reject (maxArtifactBlobBytes < file.bytes.byteLen) (.entryTooLarge digest)
  reject (file.bytes.hash ≠ digest) (.digestMismatch file.bytes.hash)
  return file.bytes

/-! ## 2. Manifests -/

def packMember (file : PackFile) : PackMember := ⟨file.path, file.bytes.hash, file.bytes.byteLen⟩

def encodePackManifestObject (members : List PackMember) : Encoded (List PackMember) :=
  .canonical (members.insertionSort fun left right => left.path ≤ right.path)

def decodePackManifestObject (bytes : Encoded (List PackMember)) :
    Except PackStoreError (List PackMember) :=
  match bytes with
  | .other _ => .error (.invalidEncoding "wrong pack manifest domain")
  | .canonical members => do
    reject (100000 < members.length)
      (.invalidEncoding "member count exceeds the pack entry limit")
    reject (∃ member ∈ members, 1024 < member.path.byteLen)
      (.invalidEncoding "member path exceeds the pack path limit")
    reject (¬ (members.map PackMember.path).Pairwise (· < ·))
      (.invalidEncoding "member paths are not strictly ordered")
    reject (∃ member ∈ members, packPathShape member.path = false)
      (.invalidEncoding "invalid member path")
    return members

def validateObjectStat {α : Type} (sizeOf : α → Nat) (file : StoreFile α) :
    Except PackStoreError Unit := do
  reject (!file.regular || !file.owned || !file.immutable) .unsafeObject
  reject (maxPackObjectBytes < sizeOf file.bytes) .objectTooLarge

def requireManifestShape (file : StoreFile (Encoded (List PackMember))) :
    Except PackStoreError (List PackMember) := do
  validateObjectStat (Encoded.byteLen packManifestLen) file
  reject (maxPackManifestBytes < file.bytes.byteLen packManifestLen)
    (.invalidEncoding "pack manifest exceeds the size limit")
  decodePackManifestObject file.bytes

section Store

variable (codec : PackObjectCodec) (store : ObjectStore)

/-! ## 3. Loading -/

def loadMember (member : PackMember) : Except PackStoreError PackFile := do
  let bytes ← loadBlobByDigest store member.blob
  reject (bytes.byteLen ≠ member.byteLen)
    (.invalidEncoding "member length differs from its manifest entry")
  return ⟨member.path, bytes⟩

def requireContentDigest (digest : Digest) (files : List PackFile) :
    Except PackStoreError Unit := do
  let actual ← (packContentDigest codec.toPackCodec files).mapError .invalidTree
  reject (actual ≠ digest) (.digestMismatch actual)

def loadFromManifest (digest : Digest) (file : StoreFile (Encoded (List PackMember))) :
    Except PackStoreError (List PackFile) := do
  let members ← requireManifestShape file
  let files ← members.mapM (loadMember store)
  requireContentDigest codec digest files
  return files

def readExisting (digest : Digest) : Except PackStoreError (List PackFile) := do
  let file ← require (store.packs.get? digest) .missing
  validateObjectStat Contents.byteLen file
  let files ← require (codec.objectFiles file.bytes)
    (.invalidEncoding "invalid pack object")
  reject (file.bytes.hash ≠ digest) (.digestMismatch file.bytes.hash)
  requireContentDigest codec digest files
  return files

def loadPack (digest : Digest) : Except PackStoreError (List PackFile) :=
  match store.packManifests.get? digest with
  | some file => loadFromManifest codec store digest file
  | none => readExisting codec store digest

/-! ## 4. Publication -/

def publishManifest (digest : Digest) (files : List PackFile) :
    Except PackStoreError (PackObjectPublication × ObjectStore) := do
  let store ← publishBlobs store (files.map PackFile.bytes)
  let manifest := encodePackManifestObject (files.map packMember)
  return (.published, { store with
    packManifests := store.packManifests.insert digest ⟨true, true, true, manifest⟩ })

def publishPack (expectedDigest : Digest) (files : List PackFile) :
    Except PackStoreError (PackObjectPublication × ObjectStore) := do
  requireContentDigest codec expectedDigest files
  if store.packs.contains expectedDigest then do
    let _ ← readExisting codec store expectedDigest
    return (.reused, store)
  else
    match store.packManifests.get? expectedDigest with
    | some file => do
      let _ ← requireManifestShape file
      return (.reused, store)
    | none => publishManifest store expectedDigest files

/-- `publish_verified`: of a legacy object only the metadata is checked. -/
def publishVerified (verifiedDigest : Digest) (pack : VerifiedPack) :
    Except PackStoreError (PackObjectPublication × ObjectStore) :=
  match store.packs.get? verifiedDigest with
  | some file => do
    validateObjectStat Contents.byteLen file
    return (.reused, store)
  | none =>
    match store.packManifests.get? verifiedDigest with
    | some file => do
      let _ ← requireManifestShape file
      return (.reused, store)
    | none =>
      publishManifest store verifiedDigest (pack.files.entries.map fun entry => ⟨entry.1, entry.2⟩)

end Store

end Malm.Pack
