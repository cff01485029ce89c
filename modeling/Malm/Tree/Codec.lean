/-
Malm.Tree.Codec — the binary encodings of files, symlinks and trees
(`malm-tree/src/codec.rs`).

The decoders check the size before they read, and symlinks and trees are encoded again at
the end. Names compare as texts (`Bytes.utf8_lt_iff`).
-/
import Malm.Tree.Model

namespace Malm.Tree

open Pack Bytes Checks

def treeObjectEncodingVersion : Nat := 1
def fileDomain : List UInt8 := utf8 "malm-file-object\x00".toList
def symlinkDomain : List UInt8 := utf8 "malm-symlink-object\x00".toList
def treeDomain : List UInt8 := utf8 "malm-tree-object\x00".toList
def digestTextBytes : Nat := 71
def fileTag : Nat := 0
def directoryTag : Nat := 1
def safeRelativeSymlinkTag : Nat := 2

inductive ObjectKind where
  | file
  | symlink
  | tree
deriving DecidableEq, Repr

inductive ObjectReadError where
  | tooLarge (object : ObjectKind) (limit actual : Nat)
  | truncated (object : ObjectKind)
  | invalidEncoding (object : ObjectKind) (reason : String)
  | unsupportedVersion (object : ObjectKind) (expected found : Nat)
  | invalidValue (error : TreeValueError)
  | invalidTree (error : TreeValidationError)
  | digestMismatch (object : ObjectKind) (expected actual : Digest)
deriving DecidableEq

/-! ## 1. Encoders -/

def encoderNew (domain : List UInt8) : List UInt8 :=
  domain ++ bigEndian 2 treeObjectEncodingVersion

def encodeText (value : Text) : List UInt8 := withLength (utf8 value)

def fileObjectBytes (contents : List UInt8) : List UInt8 :=
  encoderNew fileDomain ++ bigEndian 8 contents.length ++ contents

def encodeFileObject (contents : List UInt8) : Except ObjectReadError (List UInt8) := do
  reject (maxTreeFileBytes < contents.length)
    (.tooLarge .file maxTreeFileBytes contents.length)
  return fileObjectBytes contents

def encodeSymlinkObject (object : SymlinkObject) : List UInt8 :=
  encoderNew symlinkDomain ++ encodeText object.val

def TreeEntryKind.tag : TreeEntryKind → Nat
  | .file _ _ => fileTag
  | .directory _ => directoryTag
  | .safeRelativeSymlink _ => safeRelativeSymlinkTag

def TreeEntryKind.lengthBytes : TreeEntryKind → List UInt8
  | .file _ byteLen => bigEndian 8 byteLen
  | _ => []

def encodeEntry (entry : TreeEntry) : List UInt8 :=
  encodeText entry.name.val ++ bigEndian 1 entry.kind.tag ++ bigEndian 4 entry.mode.toNat ++
    encodeText (digestText entry.kind.digest.val) ++ entry.kind.lengthBytes

def treeBytes (rootMode : BitVec 32) (entries : List TreeEntry) : List UInt8 :=
  encoderNew treeDomain ++ bigEndian 4 rootMode.toNat ++ bigEndian 8 entries.length ++
    entries.flatMap encodeEntry

section Objects

variable {sha256 : List UInt8 → Digest}

def encodeTreeObject (object : TreeObject sha256) : List UInt8 :=
  treeBytes object.rootMode object.entries

variable (sha256)


def symlinkObjectDigest (object : SymlinkObject) : Digest := sha256 (encodeSymlinkObject object)

variable {sha256} in
def treeObjectDigest (object : TreeObject sha256) : Digest := sha256 (encodeTreeObject object)

/-! ## 2. Readers -/

section Reader

variable (object : ObjectKind)

/-- `Reader::take`, of bytes that stand for a number. -/
def readNumber (width : Nat) : Parser ObjectReadError Nat := number width (.truncated object)

def readMode : Parser ObjectReadError (BitVec 32) := bits 4 (.truncated object)

def readDomain (expected : List UInt8) : Parser ObjectReadError Unit :=
  literal expected (.truncated object) (.invalidEncoding object "wrong domain prefix")

def readVersion : Parser ObjectReadError Unit :=
  constant 2 treeObjectEncodingVersion (.truncated object)
    (.unsupportedVersion object treeObjectEncodingVersion)

def readText (maximum : Nat) (tooLong : String) : Parser ObjectReadError (List UInt8) :=
  sized maximum (.invalidEncoding object tooLong) (.truncated object)

def readEnd : Parser ObjectReadError Unit := finish (.invalidEncoding object "trailing bytes")

/-- `Digest::new`, of a text that the source has already found to be short. -/
def digestOf (text : Text) : Option ObjectDigest :=
  (parseDigest text).bind fun digest =>
    if h : digest.value < 16 ^ 64 then some ⟨digest, h⟩ else none

def readDigest : Parser ObjectReadError ObjectDigest := do
  let bytes ← readText object digestTextBytes "entry digest is too long"
  check (reject (bytes.length ≠ digestTextBytes)
    (.invalidEncoding object "entry digest has the wrong length"))
  let value ← check (require (fromUtf8 bytes)
    (.invalidEncoding object "entry digest is not UTF-8"))
  check (require (digestOf value)
    (.invalidEncoding object "entry digest is not canonical SHA-256"))

end Reader

def preflightSize (object : ObjectKind) (actual limit : Nat) : Except ObjectReadError Unit :=
  reject (limit < actual) (.tooLarge object limit actual)

def checkCanonical (object : ObjectKind) (canonical bytes : List UInt8) :
    Except ObjectReadError Unit :=
  reject (canonical ≠ bytes) (.invalidEncoding object "bytes are not canonical")

/-! ## 3. Decoders -/

def readFileObject : Parser ObjectReadError (List UInt8) := do
  readDomain .file fileDomain
  readVersion .file
  let length ← readNumber .file 8
  check (reject (maxTreeFileBytes < length) (.tooLarge .file maxTreeFileBytes length))
  let contents ← take length (.truncated .file)
  readEnd .file
  return contents

def decodeFileObject (bytes : List UInt8) : Except ObjectReadError (List UInt8) := do
  preflightSize .file bytes.length maxFileObjectBytes
  let (contents, _) ← readFileObject bytes
  return contents

def readSymlinkObject : Parser ObjectReadError SymlinkObject := do
  readDomain .symlink symlinkDomain
  readVersion .symlink
  let target ← readText .symlink maxSymlinkTargetBytes "symlink target is too long"
  let target ← check (require (fromUtf8 target)
    (.invalidEncoding .symlink "symlink target is not UTF-8"))
  let object ← check ((SymlinkObject.new target).mapError .invalidValue)
  readEnd .symlink
  return object

def decodeSymlinkObject (bytes : List UInt8) : Except ObjectReadError SymlinkObject := do
  preflightSize .symlink bytes.length maxSymlinkObjectBytes
  let (object, _) ← readSymlinkObject bytes
  checkCanonical .symlink (encodeSymlinkObject object) bytes
  return object

def readEntryKind (name : TreePathSegment) (tag : Nat) (mode : BitVec 32) (digest : ObjectDigest) :
    Parser ObjectReadError TreeEntry :=
  if tag = fileTag then do
    let byteLen ← readNumber .tree 8
    check ((TreeEntry.file sha256 name mode digest byteLen).mapError .invalidTree)
  else if tag = directoryTag then
    check ((TreeEntry.directory sha256 name mode digest).mapError .invalidTree)
  else if tag = safeRelativeSymlinkTag ∧ mode = normalizedSymlinkMode then
    pure (TreeEntry.safeRelativeSymlink name digest)
  else if tag = safeRelativeSymlinkTag then
    check (.error (.invalidTree (.unsupportedMode .safeRelativeSymlink mode)))
  else
    check (.error (.invalidEncoding .tree "unknown tree entry tag"))

def readEntry (previous : Option TreePathSegment) : Parser ObjectReadError TreeEntry := do
  let name ← readText .tree maxTreeSegmentBytes "tree path segment is too long"
  let name ← check (require (fromUtf8 name)
    (.invalidEncoding .tree "tree path segment is not UTF-8"))
  let name ← check ((TreePathSegment.new name).mapError .invalidValue)
  check (reject (previous.any fun previous => name.val ≤ previous.val)
    (.invalidEncoding .tree "entries are not strictly ordered by UTF-8 name bytes"))
  let tag ← readNumber .tree 1
  let mode ← readMode .tree
  let digest ← readDigest .tree
  readEntryKind sha256 name tag mode digest

def readEntries : Nat → Option TreePathSegment → Parser ObjectReadError (List TreeEntry)
  | 0, _ => pure []
  | count + 1, previous => do
    let entry ← readEntry sha256 previous
    let entries ← readEntries count (some entry.name)
    return entry :: entries

def readTreeObject : Parser ObjectReadError (TreeObject sha256) := do
  readDomain .tree treeDomain
  readVersion .tree
  let rootMode ← readMode .tree
  let count ← readNumber .tree 8
  check (reject (maxTreeEntries < count)
    (.invalidTree (.tooManyEntries maxTreeEntries count)))
  let entries ← readEntries sha256 count none
  readEnd .tree
  check ((TreeObject.new sha256 rootMode entries).mapError .invalidTree)

def decodeTreeObject (bytes : List UInt8) : Except ObjectReadError (TreeObject sha256) := do
  preflightSize .tree bytes.length maxTreeObjectBytes
  let (object, _) ← readTreeObject sha256 bytes
  checkCanonical .tree (encodeTreeObject object) bytes
  return object

def verifyDigest (object : ObjectKind) (expected : Digest) (bytes : List UInt8) :
    Except ObjectReadError Unit :=
  reject (sha256 bytes ≠ expected) (.digestMismatch object expected (sha256 bytes))

def decodeVerified {α : Type} (object : ObjectKind)
    (decode : List UInt8 → Except ObjectReadError α) (expected : Digest) (bytes : List UInt8) :
    Except ObjectReadError α := do
  let value ← decode bytes
  verifyDigest sha256 object expected bytes
  return value

def decodeVerifiedFileObject : Digest → List UInt8 → Except ObjectReadError (List UInt8) :=
  decodeVerified sha256 .file decodeFileObject

def decodeVerifiedSymlinkObject : Digest → List UInt8 → Except ObjectReadError SymlinkObject :=
  decodeVerified sha256 .symlink decodeSymlinkObject

def decodeVerifiedTreeObject : Digest → List UInt8 → Except ObjectReadError (TreeObject sha256) :=
  decodeVerified sha256 .tree (decodeTreeObject sha256)

end Objects

end Malm.Tree
