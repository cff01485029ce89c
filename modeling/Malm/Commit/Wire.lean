/-
Malm.Commit.Wire — the object decoders of the committer over raw bytes
(`canonical.rs`).

`Malm.Commit.Canonical` knows stored bytes by their identity; here they are
read. The decoders check the digest first and every entry as soon as it is
read, in the order of the source.
-/
import Malm.Tree.Codec

namespace Malm.Commit.Wire

open Commit Bytes Checks

def fileDomain : List UInt8 := utf8 "malm-file-object\x00".toList
def symlinkDomain : List UInt8 := utf8 "malm-symlink-object\x00".toList
def treeDomain : List UInt8 := utf8 "malm-tree-object\x00".toList
def version : Nat := 1

/-! ## 1. Readers -/

def truncated : CanonicalObjectIssue := .invalidEncoding "truncated canonical object"

def readDomain (expected : List UInt8) (kind : String) : Parser CanonicalObjectIssue Unit :=
  literal expected truncated
    (.invalidEncoding ("canonical " ++ kind ++ " object has the wrong domain"))

def readVersion (kind : String) : Parser CanonicalObjectIssue Unit :=
  constant 2 version truncated fun found => .invalidEncoding
    ("unsupported canonical " ++ kind ++ " object version " ++ toString found)

/-- `Reader::u8` and `Reader::u64`. -/
def readNumber (width : Nat) : Parser CanonicalObjectIssue Nat := number width truncated

def readMode : Parser CanonicalObjectIssue (BitVec 32) := bits 4 truncated

def readText (maximum : Nat) (role : String) : Parser CanonicalObjectIssue (List UInt8) :=
  sized maximum (.invalidEncoding ("canonical " ++ role ++ " exceeds its byte limit")) truncated

def readDigest : Parser CanonicalObjectIssue Tree.ObjectDigest := do
  let bytes ← readText 71 "digest"
  check (reject (bytes.length ≠ 71)
    (.invalidEncoding "canonical object digest has the wrong length"))
  let value ← check (require (fromUtf8 bytes)
    (.invalidEncoding "canonical object digest is not UTF-8"))
  check (require (Tree.digestOf value) (.invalidEncoding "invalid digest"))

def readEnd (kind : String) : Parser CanonicalObjectIssue Unit :=
  finish (.invalidEncoding ("canonical " ++ kind ++ " object has trailing bytes"))

/-! ## 2. Files and symlinks -/

section Decoders

variable (sha256 : List UInt8 → Digest)

def readFile : Parser CanonicalObjectIssue (List UInt8) := do
  readDomain fileDomain "file"
  readVersion "file"
  let length ← readNumber 8
  check (reject (maxTreeFileBytes < length) (.tooLarge maxTreeFileBytes length))
  let contents ← take length truncated
  readEnd "file"
  return contents

def decodeFile (expected : Digest) (bytes : List UInt8) :
    Except CanonicalObjectIssue (List UInt8) := do
  verifyDigest expected (sha256 bytes)
  let (contents, _) ← readFile bytes
  return contents

def readSymlink : Parser CanonicalObjectIssue Text := do
  readDomain symlinkDomain "symlink"
  readVersion "symlink"
  let target ← readText maxSymlinkBytes "symlink target"
  let target ← check (require (fromUtf8 target)
    (.invalidEncoding "canonical symlink target is not UTF-8"))
  check (reject (target.isEmpty ∨ target.any Text.isControl)
    (.invalidEncoding "canonical symlink target is empty or contains control characters"))
  readEnd "symlink"
  return target

def decodeSymlink (expected : Digest) (bytes : List UInt8) :
    Except CanonicalObjectIssue Text := do
  verifyDigest expected (sha256 bytes)
  let (target, _) ← readSymlink bytes
  return target

/-! ## 3. Trees -/

def emptyFileDigest : Digest :=
  sha256 (fileDomain ++ bigEndian 2 version ++ bigEndian 8 0)

/-- The checks on a file entry after its length is read. -/
def addFile (state : TreeDecodeState) (digest : Digest) (byteLen : Nat) :
    Except CanonicalObjectIssue TreeDecodeState := do
  reject (maxTreeFileBytes < byteLen) (.tooLarge maxTreeFileBytes byteLen)
  reject (maxTreeFileBytes < state.aggregate + byteLen)
    (.tooLarge maxTreeFileBytes (state.aggregate + byteLen))
  reject ((state.fileLengths.lookup digest).any (· ≠ byteLen))
    (.invalidEncoding "canonical tree assigns conflicting lengths to one file object")
  reject (byteLen = 0 ∧ digest ≠ emptyFileDigest sha256)
    (.invalidEncoding "canonical empty tree file has a noncanonical object identity")
  return { state with
    aggregate := state.aggregate + byteLen
    fileLengths := (digest, byteLen) :: state.fileLengths }

def readKind (state : TreeDecodeState) (tag : Nat) (mode : BitVec 32) (digest : Digest) :
    Parser CanonicalObjectIssue (TreeEntryKind × TreeDecodeState) :=
  if tag = 0 then do
    check (validateFileMode mode)
    let byteLen ← readNumber 8
    let state ← check (addFile sha256 state digest byteLen)
    return (.file digest byteLen, state)
  else if tag = 1 then do
    check (validateDirectoryMode mode)
    return (.directory digest, state)
  else if tag = 2 ∧ mode = 0o777#32 then
    pure (.symlink digest, state)
  else if tag = 2 then
    check (.error (.invalidEncoding "canonical tree symlink mode is not normalized"))
  else
    check (.error (.invalidEncoding "canonical tree has an unknown entry tag"))

def readEntry (state : TreeDecodeState) :
    Parser CanonicalObjectIssue (TreeEntry × TreeDecodeState) := do
  let name ← readText 255 "tree child name"
  let name ← check (require (fromUtf8 name)
    (.invalidEncoding "canonical tree child name is not UTF-8"))
  check (validateSegment name)
  check (reject (state.previous.any (name ≤ ·))
    (.invalidEncoding "canonical tree entries are not strictly name-sorted"))
  let tag ← readNumber 1
  let mode ← readMode
  let digest ← readDigest
  let (kind, state) ← readKind sha256 { state with previous := some name } tag mode digest.val
  return (⟨name, mode, kind⟩, state)

def readEntries : Nat → TreeDecodeState → Parser CanonicalObjectIssue (List TreeEntry)
  | 0, _ => pure []
  | count + 1, state => do
    let (entry, state) ← readEntry sha256 state
    let entries ← readEntries count state
    return entry :: entries

def readTree : Parser CanonicalObjectIssue TreeObject := do
  readDomain treeDomain "tree"
  readVersion "tree"
  let rootMode ← readMode
  check (validateDirectoryMode rootMode)
  let count ← readNumber 8
  check (reject (maxTreeEntries < count) (.tooLarge maxTreeEntries count))
  let entries ← readEntries sha256 count ⟨none, 0, []⟩
  readEnd "tree"
  return ⟨rootMode, entries⟩

def decodeTree (expected : Digest) (bytes : List UInt8) :
    Except CanonicalObjectIssue TreeObject := do
  verifyDigest expected (sha256 bytes)
  let (tree, _) ← readTree sha256 bytes
  return tree

end Decoders

end Malm.Commit.Wire
