/-
Malm.Pack.ManifestObject — the bytes of a pack manifest (`pack_store.rs`), and
the part of them that the committer reads (`malm-commit/src/retention.rs`).

The engine checks what it reads; the committer skips the paths and keeps the blobs and
lengths. Each has a parser of its own.
-/
import Malm.Pack.Object
import Malm.Tree.CodecTheorems

namespace Malm.Pack.ManifestObject

open Pack Pack.Object Malm.Tree Bytes Checks

/-! ## 1. Members -/

def packManifestObjectDomain : List UInt8 := utf8 "malm-pack-manifest-object-v1\x00".toList
def packManifestObjectVersion : Nat := 1
def maxMembers : Nat := 100000
def maxMemberPathBytes : Nat := 1024
def maxMemberDigestBytes : Nat := 128

structure PackManifestMember where
  path : Object.PackPath
  blob : ObjectDigest
  byteLen : UInt64
deriving DecidableEq

def sortMembers (members : List PackManifestMember) : List PackManifestMember :=
  members.insertionSort fun left right => left.path.val ≤ right.path.val

/-! ## 2. The encoder -/

def encodeMember (member : PackManifestMember) : List UInt8 :=
  withLength (utf8 member.path.val) ++ (withLength (utf8 (digestText member.blob.val)) ++
    bigEndian 8 member.byteLen.toNat)

def encodeOrdered (members : List PackManifestMember) : List UInt8 :=
  packManifestObjectDomain ++ (bigEndian 2 packManifestObjectVersion ++
    (bigEndian 8 members.length ++ members.flatMap encodeMember))

def encodePackManifestObject (members : List PackManifestMember) : List UInt8 :=
  encodeOrdered (sortMembers members)

/-! ## 3. The decoder of the engine -/

/-- The texts of both decoders, and the errors of the values they build. -/
inductive ManifestDecodeError where
  | malformed (reason : String)
  | invalidPath (reason : String)
  | invalidDigest
deriving DecidableEq, Repr

/-- The domain, the version and the count, which both decoders read alike. -/
def readHeader : Parser ManifestDecodeError Nat := do
  literal packManifestObjectDomain (.malformed "wrong pack manifest domain")
    (.malformed "wrong pack manifest domain")
  constant 2 packManifestObjectVersion (.malformed "truncated version")
    fun _ => .malformed "unsupported pack manifest version"
  let count ← number 8 (.malformed "truncated count")
  check (reject (maxMembers < count)
    (.malformed "member count exceeds the pack entry limit"))
  return count

def readMember (previous : Option Text) : Parser ManifestDecodeError PackManifestMember := do
  let pathBytes ← sized maxMemberPathBytes
    (.malformed "member path exceeds the pack path limit") (.malformed "truncated member")
  let path ← check (require (fromUtf8 pathBytes) (.malformed "member path is not UTF-8"))
  check (reject (previous.any (path ≤ ·) = true)
    (.malformed "member paths are not strictly ordered"))
  let digestBytes ← sized maxMemberDigestBytes
    (.malformed "member digest exceeds the identifier limit") (.malformed "truncated member")
  let digest ← check (require (fromUtf8 digestBytes)
    (.malformed "member digest is not UTF-8"))
  let byteLen ← number 8 (.malformed "truncated member")
  let path ← check ((PackPath.new path).mapError .invalidPath)
  let blob ← check (require (digestOf digest) .invalidDigest)
  return ⟨path, blob, UInt64.ofNat byteLen⟩

def readMembers : Nat → Option Text → Parser ManifestDecodeError (List PackManifestMember)
  | 0, _ => pure []
  | count + 1, previous => do
    let member ← readMember previous
    let members ← readMembers count (some member.path.val)
    return member :: members

def readManifest : Parser ManifestDecodeError (List PackManifestMember) := do
  let count ← readHeader
  let members ← readMembers count none
  finish (.malformed "trailing bytes after the final member")
  return members

def decodePackManifestObject (bytes : List UInt8) :
    Except ManifestDecodeError (List PackManifestMember) := do
  let (members, _) ← readManifest bytes
  return members

/-! ## 4. The decoder of the committer -/

/-- One turn of the loop of `decode_pack_manifest_members`. -/
def readBlob : Parser ManifestDecodeError (ObjectDigest × UInt64) := do
  let _ ← sized maxMemberPathBytes
    (.malformed "member path exceeds the pack path limit") (.malformed "truncated member")
  let digestBytes ← sized maxMemberDigestBytes
    (.malformed "member digest exceeds the identifier limit") (.malformed "truncated member")
  let digest ← check (require (fromUtf8 digestBytes)
    (.malformed "member digest is not UTF-8"))
  let byteLen ← number 8 (.malformed "truncated member")
  let blob ← check (require (digestOf digest) .invalidDigest)
  return (blob, UInt64.ofNat byteLen)

def readBlobs : Nat → Parser ManifestDecodeError (List (ObjectDigest × UInt64))
  | 0 => pure []
  | count + 1 => do
    let blob ← readBlob
    let blobs ← readBlobs count
    return blob :: blobs

/-- What `decode_pack_manifest_members` reads, to the end. -/
def readManifestBlobs : Parser ManifestDecodeError (List (ObjectDigest × UInt64)) := do
  let count ← readHeader
  let blobs ← readBlobs count
  finish (.malformed "trailing bytes after the final member")
  return blobs

def decodePackManifestMembers (bytes : List UInt8) :
    Except ManifestDecodeError (List (ObjectDigest × UInt64)) := do
  let (blobs, _) ← readManifestBlobs bytes
  return blobs

end Malm.Pack.ManifestObject
