/-
Malm.Pack.Object — canonical pack objects over raw bytes
(`malm-pack/src/object.rs` and what it uses of `model.rs`).

The writer sorts and checks the files; the reader hashes what it reads and bounds it
after every field. SHA-256 is a parameter, and a writer is the bytes written to it.
-/
import Malm.Pack.Store

namespace Malm.Pack.Object

open Pack Commit Bytes Checks

def packContentDomain : List UInt8 := utf8 "malm-pack-content\x00".toList
def encodingVersion : Nat := 1
def maxPathSegmentBytes : Nat := 255

/-! ## 1. Paths and files -/

def validateSegment (segment : Text) : Except String Unit := do
  reject (segment = []) "must not contain empty segments"
  reject (segment = ['.'] ∨ segment = ['.', '.']) "must not contain dot segments"
  reject (maxPathSegmentBytes < segment.byteLen) "segments must be at most 255 bytes"
  reject (reservedSegment segment = true) "must not enter reserved .git or lock paths"

def validatePackPath (value : Text) : Except String Unit := do
  reject (value = []) "must not be empty"
  reject (maxPackPathBytes < value.byteLen) "must be at most 1024 bytes"
  reject (value.head? = some '/') "must be relative to the pack root"
  reject ('\\' ∈ value) "must use slash separators"
  reject (value.any Text.isControl = true) "must not contain control characters"
  reject (maxPackPathSegments < value.segments.length) "must contain at most 32 segments"
  value.segments.forM validateSegment

abbrev PackPath := { value : Text // validatePackPath value = .ok () }

def PackPath.new (value : Text) : Except String PackPath :=
  match h : validatePackPath value with
  | .ok () => .ok ⟨value, h⟩
  | .error reason => .error reason

structure PackFile where
  path : PackPath
  bytes : List UInt8
deriving DecidableEq

/-! ## 2. Entries -/

def sortFiles (files : List PackFile) : List PackFile :=
  files.insertionSort fun left right => left.path.val ≤ right.path.val

/-- What the loop of `validated_pack_entries` carries. -/
structure EntryState where
  previous : Option PackPath
  total : Nat
  foundManifest : Bool

/-- One turn of the loop of `validated_pack_entries`. -/
def checkEntry (state : EntryState) (file : PackFile) : Except PackTreeError EntryState := do
  reject (state.previous = some file.path) (.duplicatePath file.path.val)
  reject (maxPackFileBytes < file.bytes.length)
    (.fileTooLarge file.path.val maxPackFileBytes file.bytes.length)
  reject (maxPackTreeBytes < state.total + file.bytes.length)
    (.treeTooLarge maxPackTreeBytes (state.total + file.bytes.length))
  return {
    previous := some file.path
    total := state.total + file.bytes.length
    foundManifest := state.foundManifest || file.path.val = packManifestFile }

def validatedPackEntries (files : List PackFile) : Except PackTreeError (List PackFile) := do
  reject (maxPackTreeEntries < files.length)
    (.tooManyEntries maxPackTreeEntries (maxPackTreeEntries + 1))
  let entries := sortFiles files
  let state ← entries.foldlM checkEntry ⟨none, 0, false⟩
  reject (state.foundManifest = false) .missingManifest
  return entries

def encodeFile (file : PackFile) : List UInt8 :=
  withLength (utf8 file.path.val) ++ withLength file.bytes

/-- The preimage of the content digest: `Encoder::start` and `encode_pack_entries`. -/
def encodeEntries (entries : List PackFile) : List UInt8 :=
  packContentDomain ++ bigEndian 2 encodingVersion ++ bigEndian 8 entries.length ++
    entries.flatMap encodeFile

section Objects

variable (sha256 : List UInt8 → Digest)

def packContentDigest (files : List PackFile) : Except PackTreeError Digest := do
  let entries ← validatedPackEntries files
  return sha256 (encodeEntries entries)

def writePackObject (files : List PackFile) : Except PackTreeError (List UInt8 × Digest) := do
  let entries ← validatedPackEntries files
  let bytes := encodeEntries entries
  return (bytes, sha256 bytes)

/-! ## 3. Reading -/

inductive PackObjectReadError where
  | invalidEncoding (reason : String)
  | unsupportedVersion (expected found : Nat)
  | invalidPath (reason : String)
  | invalidTree (error : PackTreeError)
  | digestMismatch (expected actual : Digest)
deriving DecidableEq

/-- `HashingReader::bytes_read` over its limit, for an input of `total` bytes. -/
def withinLimit (total : Nat) : Parser PackObjectReadError Unit := fun bytes => do
  reject (maxPackObjectBytes < total - bytes.length)
    (.invalidEncoding "encoded object exceeds its byte limit")
  return ((), bytes)

def readExact (total count : Nat) : Parser PackObjectReadError (List UInt8) := do
  let bytes ← take count (.invalidEncoding "truncated object")
  withinLimit total
  return bytes

/-- `HashingReader::read_u16` and `HashingReader::read_u64`. -/
def readNumber (total width : Nat) : Parser PackObjectReadError Nat := do
  let bytes ← readExact total width
  return ofBigEndian bytes

/-- What the loop of `read_pack_object_v1` carries beside the files. -/
structure ReadState where
  previous : Option PackPath
  total : Nat

/-- One turn of the loop of `read_pack_object_v1`. -/
def readFile (total : Nat) (state : ReadState) :
    Parser PackObjectReadError (PackFile × ReadState) := do
  let pathLen ← readNumber total 8
  check (reject (pathLen = 0 ∨ maxPackPathBytes < pathLen)
    (.invalidEncoding "path length is outside pack/v1 limits"))
  let pathBytes ← readExact total pathLen
  let pathText ← check (require (fromUtf8 pathBytes)
    (.invalidEncoding "path is not UTF-8"))
  let path ← check ((PackPath.new pathText).mapError .invalidPath)
  check (reject (state.previous.any fun previous => path.val ≤ previous.val)
    (.invalidEncoding "paths are not strictly increasing"))
  let fileLen ← readNumber total 8
  check (reject (maxPackFileBytes < fileLen)
    (.invalidTree (.fileTooLarge path.val maxPackFileBytes fileLen)))
  check (reject (maxPackTreeBytes < state.total + fileLen)
    (.invalidTree (.treeTooLarge maxPackTreeBytes (state.total + fileLen))))
  let bytes ← readExact total fileLen
  return (⟨path, bytes⟩, ⟨some path, state.total + fileLen⟩)

def readFiles (total : Nat) : Nat → ReadState → Parser PackObjectReadError (List PackFile)
  | 0, _ => pure []
  | count + 1, state => do
    let (file, state) ← readFile total state
    let files ← readFiles total count state
    return file :: files

def readEntries (total : Nat) : Parser PackObjectReadError (List PackFile) := do
  let domain ← readExact total packContentDomain.length
  check (reject (domain ≠ packContentDomain) (.invalidEncoding "wrong domain prefix"))
  let version ← readNumber total 2
  check (reject (version ≠ encodingVersion) (.unsupportedVersion encodingVersion version))
  let count ← readNumber total 8
  check (reject (maxPackTreeEntries < count)
    (.invalidTree (.tooManyEntries maxPackTreeEntries count)))
  let files ← readFiles total count ⟨none, 0⟩
  finish (.invalidEncoding "trailing bytes")
  withinLimit total
  return files

def readPackObject (expectedDigest : Digest) (bytes : List UInt8) :
    Except PackObjectReadError (List PackFile) := do
  let (files, _) ← readEntries bytes.length bytes
  let actual := sha256 bytes
  reject (actual ≠ expectedDigest) (.digestMismatch expectedDigest actual)
  let logical ← (packContentDigest sha256 files).mapError .invalidTree
  reject (logical ≠ expectedDigest) (.digestMismatch expectedDigest logical)
  reject (∀ file ∈ files, file.path.val ≠ packManifestFile) (.invalidTree .missingManifest)
  return files

end Objects

end Malm.Pack.Object
