/-
Malm.Archive.Decoder — the archive decoder (`malm-archive/src/decoder.rs`).

Every entry goes into the tree at once; directories that no entry has named yet are
implicit. The nested maps of the source are one map from component lists to nodes,
and the reader is a byte slice. On an error the rest of the payload is still read, so
a step keeps the reader when it fails.
-/
import Malm.Tree.Graph

namespace Malm.Archive

open Malm.Tree Bytes Checks

def ustarBlockBytes : Nat := 512
def archiveDecoderVersion : Nat := 1
def rootAndImplicitDirectoryMode : BitVec 32 := 0o755#32
def fileChunkBytes : Nat := 8192
def u64Max : Nat := 2 ^ 64 - 1

/-! ## 1. Limits and errors -/

inductive ArchiveResource where
  | payloadBytes
  | fileBytes
  | expandedFileBytes
  | entries
  | pathBytes
  | pathDepth
  | pathSegmentBytes
  | symlinkTargetBytes
  | metadataBytes
  | objectBytes
  | readOperations
  | workUnits
deriving DecidableEq, Repr

structure ArchiveLimits where
  maxPayloadBytes : Nat
  maxFileBytes : Nat
  maxExpandedFileBytes : Nat
  maxEntries : Nat
  maxPathBytes : Nat
  maxPathDepth : Nat
  maxPathSegmentBytes : Nat
  maxSymlinkTargetBytes : Nat
  maxMetadataBytes : Nat
  maxObjectBytes : Nat
  maxReadOperations : Nat
  maxWorkUnits : Nat
deriving DecidableEq, Repr

namespace ArchiveLimits

/-! The members of `EffectiveLimits`. -/

def fileBytes (limits : ArchiveLimits) : Nat := min limits.maxFileBytes maxTreeFileBytes
def expandedFileBytes (limits : ArchiveLimits) : Nat :=
  min limits.maxExpandedFileBytes maxTreeAggregateFileBytes
def entries (limits : ArchiveLimits) : Nat := min limits.maxEntries maxTreeEntries
def pathBytes (limits : ArchiveLimits) : Nat := min limits.maxPathBytes maxTreePathBytes
def pathDepth (limits : ArchiveLimits) : Nat := min limits.maxPathDepth maxTreeDepth
def pathSegmentBytes (limits : ArchiveLimits) : Nat :=
  min limits.maxPathSegmentBytes maxTreeSegmentBytes
def symlinkTargetBytes (limits : ArchiveLimits) : Nat :=
  min limits.maxSymlinkTargetBytes Tree.maxSymlinkTargetBytes

end ArchiveLimits

/-- `ArchiveDecodeError`, without the failures of a reader. -/
inductive ArchiveDecodeError where
  | unsupportedDecoderVersion (expected found : Nat)
  | resourceLimitExceeded (resource : ArchiveResource) (limit actual : Nat)
  | truncatedPayload (expected actual : Nat)
  | trailingBytes
  | trailingPayloadData (bytesAfterTerminator : Nat)
  | payloadDigestMismatch (expected actual : ObjectDigest)
  | invalidChecksum (block stored computed : Nat)
  | malformedHeader (block : Nat) (reason : String)
  | malformedEntry (block : Nat) (reason : String)
  | malformedTerminator (reason : String)
  | invalidPath (block : Nat) (reason : String)
  | unsafeSymlinkTarget (path : Text) (reason : String)
  | duplicatePath (path : Text)
  | pathKindCollision (path : Text)
  | descendantBelowNonDirectory (path : Text)
  | fileDescendantCollision (path : Text)
  | hardLink (block : Nat)
  | sparseEntry (block : Nat)
  | specialEntry (block : Nat) (typeflag : UInt8)
  | unsupportedExtension (block : Nat) (typeflag : UInt8)
  | unsupportedEntryType (block : Nat) (typeflag : UInt8)
  | unsupportedMode (path : Text) (mode : BitVec 32)
  | objectDigestCollision (digest : ObjectDigest)
  | invalidObject (error : ObjectReadError)
  | invalidTreeValue (error : TreeValueError)
  | invalidTree (error : TreeValidationError)
  | invalidTreeGraph (error : TreeGraphError)

def checkArchiveLimit (resource : ArchiveResource) (actual limit : Nat) :
    Except ArchiveDecodeError Unit :=
  reject (limit < actual) (.resourceLimitExceeded resource limit actual)

def saturatingAdd (left right : Nat) : Nat := min (left + right) u64Max

def charge (current amount : Nat) (resource : ArchiveResource) (limit : Nat) :
    Except ArchiveDecodeError Nat := do
  checkArchiveLimit resource (saturatingAdd current amount) limit
  return saturatingAdd current amount

/-! ## 2. The payload -/

structure ArchiveDeclaration where
  decoderVersion : Nat
  payloadByteLen : Nat
  payloadDigest : ObjectDigest
deriving DecidableEq

def ArchiveDeclaration.posixUstar (payloadByteLen : Nat) (payloadDigest : ObjectDigest) :
    ArchiveDeclaration :=
  ⟨archiveDecoderVersion, payloadByteLen, payloadDigest⟩

/-- `ExactPayloadReader`: the slice ahead, and what was read, the latest last. -/
structure PayloadReader where
  rest : List UInt8
  expected : Nat
  hashed : List UInt8
  readOperations : Nat

namespace PayloadReader

def consumed (reader : PayloadReader) : Nat := reader.hashed.length

def remaining (reader : PayloadReader) : Nat := reader.expected - reader.consumed

end PayloadReader

/-- A step of the decoder: it keeps the reader when it fails. -/
abbrev Decode := ExceptT ArchiveDecodeError (StateM PayloadReader)

def ofExcept {α : Type} (result : Except ArchiveDecodeError α) : Decode α :=
  fun reader => (result, reader)

def ask {α : Type} (question : PayloadReader → α) : Decode α :=
  fun reader => (.ok (question reader), reader)

section Reader

variable (limits : ArchiveLimits)

/-- `charged_read` of at most `count` bytes, which are not counted as consumed. -/
def chargedRead (count : Nat) : Decode (List UInt8) := fun reader =>
  match charge reader.readOperations 1 .readOperations limits.maxReadOperations with
  | .error error => (.error error, reader)
  | .ok operations =>
    (.ok (reader.rest.take count),
      { reader with rest := reader.rest.drop count, readOperations := operations })

def consume (bytes : List UInt8) : Decode Unit := fun reader =>
  (.ok (), { reader with hashed := reader.hashed ++ bytes })

/-- The loop of `read_exact_payload`, with a turn for every byte. -/
def readExactPayload : Nat → Nat → Decode (List UInt8)
  | _, 0 => pure []
  | 0, _ + 1 => pure []
  | turns + 1, needed + 1 => do
    let remaining ← ask PayloadReader.remaining
    let expected ← ask PayloadReader.expected
    let consumed ← ask PayloadReader.consumed
    ofExcept (reject (remaining = 0) (.truncatedPayload expected consumed))
    let bytes ← chargedRead limits (min (needed + 1) remaining)
    ofExcept (reject (bytes = []) (.truncatedPayload expected consumed))
    consume bytes
    let behind ← readExactPayload turns (needed + 1 - bytes.length)
    return bytes ++ behind

def readBuffer (count : Nat) : Decode (List UInt8) := readExactPayload limits count count

/-- The loops that read `count` bytes a chunk at a time, with as many turns left. -/
def readChunks : Nat → Nat → Decode (List UInt8)
  | _, 0 => pure []
  | 0, _ + 1 => pure []
  | turns + 1, count + 1 => do
    let bytes ← readBuffer limits (min (count + 1) fileChunkBytes)
    let behind ← readChunks turns (count + 1 - fileChunkBytes)
    return bytes ++ behind

def drainVerifyEnd : Decode (List UInt8) := do
  let remaining ← ask PayloadReader.remaining
  let _ ← readChunks limits remaining remaining
  let trailing ← chargedRead limits 1
  ofExcept (reject (trailing ≠ []) .trailingBytes)
  ask PayloadReader.hashed

end Reader

/-! ## 3. Fields of a header -/

def field (block : List UInt8) (start stop : Nat) : List UInt8 := (block.take stop).drop start

def isOctalDigit (byte : UInt8) : Bool := 48 ≤ byte && byte ≤ 55

def parseOctalDigits (digits : List UInt8) (blockIndex : Nat) (reason : String) :
    Except ArchiveDecodeError Nat :=
  digits.foldlM
    (fun value digit => do
      let next := value * 8 + (digit.toNat - 48)
      reject (u64Max < next) (.malformedHeader blockIndex reason)
      return next)
    0

def parseOctal (bytes : List UInt8) (blockIndex : Nat) (reason : String) :
    Except ArchiveDecodeError Nat := do
  let terminator ← require bytes.getLast?
    (.malformedHeader blockIndex "empty numeric field")
  let digits := bytes.dropLast
  reject (terminator ≠ 0 ∨ digits = [] ∨ digits.all isOctalDigit = false)
    (.malformedHeader blockIndex reason)
  parseOctalDigits digits blockIndex reason

def parseOptionalOctal (bytes : List UInt8) (blockIndex : Nat) (reason : String) :
    Except ArchiveDecodeError Nat :=
  if bytes.all (· = 0) then .ok 0 else parseOctal bytes blockIndex reason

def fieldBytes (bytes : List UInt8) (blockIndex : Nat) (reason : String) :
    Except ArchiveDecodeError (List UInt8) := do
  let text := bytes.takeWhile (· ≠ 0)
  reject ((bytes.drop text.length).any (· ≠ 0) = true) (.malformedHeader blockIndex reason)
  return text

def validateIgnoredText (bytes : List UInt8) (blockIndex : Nat) (textReason ignoredReason : String) :
    Except ArchiveDecodeError Unit := do
  let bytes ← fieldBytes bytes blockIndex textReason
  let value ← require (fromUtf8 bytes) (.malformedHeader blockIndex ignoredReason)
  reject (value.any Text.isControl = true) (.malformedHeader blockIndex ignoredReason)

/-- The sum that `verify_checksum` compares: the checksum field counts as blanks. -/
def computedChecksum (block : List UInt8) : Nat :=
  ((block.take 148).map UInt8.toNat).sum + 8 * 32 + ((block.drop 156).map UInt8.toNat).sum

def verifyChecksum (block : List UInt8) (blockIndex : Nat) : Except ArchiveDecodeError Unit := do
  let bytes := field block 148 156
  reject (bytes.drop 6 ≠ [0, 32] ∨ (bytes.take 6).all isOctalDigit = false)
    (.malformedHeader blockIndex "checksum field is not six octal digits, NUL, space")
  let stored ← parseOctalDigits (bytes.take 6) blockIndex "checksum field is invalid"
  reject (stored ≠ computedChecksum block)
    (.invalidChecksum blockIndex stored (computedChecksum block))

/-! ## 4. The state of a parse -/

/-- `Node`, without the children of a directory. -/
inductive Node where
  | file (mode : BitVec 32) (digest : ObjectDigest) (byteLen : Nat)
  | directory (mode : BitVec 32) (explicit : Bool)
  | symlink (digest : ObjectDigest)
deriving DecidableEq

/-- `ObjectAccumulator`, with the models of the trees and symlinks. -/
structure ObjectAccumulator (sha256 : List UInt8 → Digest) where
  fileBlobs : SortedMap ObjectDigest (List UInt8)
  trees : SortedMap ObjectDigest (TreeObject sha256 × List UInt8)
  symlinks : SortedMap ObjectDigest (SymlinkObject × List UInt8)

/-- `ParseState`, without the limits. -/
structure ParseState (sha256 : List UInt8 → Digest) where
  nodes : SortedMap (List Text) Node
  objects : ObjectAccumulator sha256
  logicalEntries : Nat
  expandedFileBytes : Nat
  metadataBytes : Nat
  objectBytes : Nat
  workUnits : Nat

def ParseState.new (sha256 : List UInt8 → Digest) : ParseState sha256 :=
  ⟨.empty, ⟨.empty, .empty, .empty⟩, 0, 0, 0, 0, 0⟩

inductive HeaderKind where
  | file
  | directory
  | symlink (target : Text)
deriving DecidableEq

structure Header where
  path : Text
  components : List Text
  mode : BitVec 32
  size : Nat
  kind : HeaderKind

section Decoder

variable {sha256 : List UInt8 → Digest} (limits : ArchiveLimits)

def ParseState.chargeWork (state : ParseState sha256) (amount : Nat) :
    Except ArchiveDecodeError (ParseState sha256) := do
  let workUnits ← charge state.workUnits amount .workUnits limits.maxWorkUnits
  return { state with workUnits := workUnits }

def ParseState.chargeMetadataBlock (state : ParseState sha256) :
    Except ArchiveDecodeError (ParseState sha256) := do
  let metadataBytes ← charge state.metadataBytes ustarBlockBytes .metadataBytes
    limits.maxMetadataBytes
  ParseState.chargeWork limits { state with metadataBytes := metadataBytes } 1

/-! ## 5. Headers -/

def parseHeaderPath (block : List UInt8) (blockIndex : Nat) : Except ArchiveDecodeError Text := do
  let name ← fieldBytes (field block 0 100) blockIndex "name has bytes after its NUL terminator"
  reject (name = []) (.invalidPath blockIndex "name is empty")
  let front ← fieldBytes (field block 345 500) blockIndex
    "prefix has bytes after its NUL terminator"
  let name ← require (fromUtf8 name) (.invalidPath blockIndex "name is not UTF-8")
  let front ← require (fromUtf8 front) (.invalidPath blockIndex "prefix is not UTF-8")
  return if front = [] then name else front ++ '/' :: name

def validateComponent (blockIndex : Nat) (component : Text) : Except ArchiveDecodeError Unit := do
  reject (component = []) (.invalidPath blockIndex "empty path components are forbidden")
  reject (component = ['.'] ∨ component = ['.', '.'])
    (.invalidPath blockIndex "dot and dot-dot components are forbidden")
  checkArchiveLimit .pathSegmentBytes component.byteLen limits.pathSegmentBytes

def validatePath (path : Text) (blockIndex : Nat) : Except ArchiveDecodeError (List Text) := do
  reject (path.head? = some '/') (.invalidPath blockIndex "absolute paths are forbidden")
  reject ('\\' ∈ path) (.invalidPath blockIndex "backslashes are forbidden")
  reject (path.any Text.isControl = true)
    (.invalidPath blockIndex "control characters are forbidden")
  checkArchiveLimit .pathBytes path.byteLen limits.pathBytes
  path.segments.forM (validateComponent limits blockIndex)
  checkArchiveLimit .pathDepth path.segments.length limits.pathDepth
  return path.segments

def validateTargetComponent (path component : Text) : Except ArchiveDecodeError Unit := do
  reject (component = [] ∨ component = ['.'] ∨ component = ['.', '.'])
    (.unsafeSymlinkTarget path "target must contain only nonempty canonical path components")
  checkArchiveLimit .pathSegmentBytes component.byteLen limits.pathSegmentBytes

def validateLinkTarget (path : Text) (components : List Text) (target : Text) :
    Except ArchiveDecodeError Unit := do
  reject (target = []) (.unsafeSymlinkTarget path "target is empty")
  reject (target.head? = some '/') (.unsafeSymlinkTarget path "target must be relative")
  reject ('\\' ∈ target) (.unsafeSymlinkTarget path "target contains backslash")
  reject (target.any Text.isControl = true)
    (.unsafeSymlinkTarget path "target contains a control character")
  checkArchiveLimit .symlinkTargetBytes target.byteLen limits.symlinkTargetBytes
  (Text.segments target).forM (validateTargetComponent limits path)
  checkArchiveLimit .pathDepth (components.length - 1 + (Text.segments target).length) limits.pathDepth
  let parentBytes := (parentPath path).byteLen
  checkArchiveLimit .pathBytes
    (if parentBytes = 0 then target.byteLen else parentBytes + 1 + target.byteLen)
    limits.pathBytes

def validateMode (path : Text) (mode : BitVec 32) (supported : Bool) :
    Except ArchiveDecodeError Unit :=
  reject (supported = false) (.unsupportedMode path mode)

/-- The allowlist of type flags in `parse_header`. -/
def checkTypeflag (blockIndex : Nat) (typeflag : UInt8) : Except ArchiveDecodeError Unit :=
  if typeflag = 49 then .error (.hardLink blockIndex)
  else if typeflag = 83 then .error (.sparseEntry blockIndex)
  else if typeflag ∈ ([51, 52, 54, 55] : List UInt8) then
    .error (.specialEntry blockIndex typeflag)
  else if typeflag ∈ ([120, 103, 76, 75, 68, 77, 78, 86] : List UInt8) then
    .error (.unsupportedExtension blockIndex typeflag)
  else if typeflag ∈ ([48, 50, 53] : List UInt8) then .ok ()
  else .error (.unsupportedEntryType blockIndex typeflag)

/-- The fields that `parse_header` checks before the path. -/
def parseMetadata (block : List UInt8) (blockIndex : Nat) :
    Except ArchiveDecodeError (BitVec 32 × Nat) := do
  verifyChecksum block blockIndex
  reject (field block 257 263 ≠ [117, 115, 116, 97, 114, 0])
    (.malformedHeader blockIndex "magic is not POSIX ustar")
  reject (field block 263 265 ≠ [48, 48])
    (.malformedHeader blockIndex "ustar version is not 00")
  reject ((field block 500 512).any (· ≠ 0) = true)
    (.malformedHeader blockIndex "reserved header bytes are nonzero")
  let mode ← parseOctal (field block 100 108) blockIndex
    "mode is not a fixed-width NUL-terminated octal field"
  reject (2 ^ 32 ≤ mode) (.malformedHeader blockIndex "mode does not fit u32")
  let _ ← parseOctal (field block 108 116) blockIndex
    "uid is not a fixed-width NUL-terminated octal field"
  let _ ← parseOctal (field block 116 124) blockIndex
    "gid is not a fixed-width NUL-terminated octal field"
  let size ← parseOctal (field block 124 136) blockIndex
    "size is not a fixed-width NUL-terminated octal field"
  let _ ← parseOctal (field block 136 148) blockIndex
    "mtime is not a fixed-width NUL-terminated octal field"
  validateIgnoredText (field block 265 297) blockIndex
    "user name has bytes after its NUL terminator" "user name is not control-free UTF-8"
  validateIgnoredText (field block 297 329) blockIndex
    "group name has bytes after its NUL terminator" "group name is not control-free UTF-8"
  let major ← parseOptionalOctal (field block 329 337) blockIndex
    "device major is not an empty or fixed-width octal field"
  reject (major ≠ 0)
    (.malformedHeader blockIndex "device numbers must be zero for an allowed entry")
  let minor ← parseOptionalOctal (field block 337 345) blockIndex
    "device minor is not an empty or fixed-width octal field"
  reject (minor ≠ 0)
    (.malformedHeader blockIndex "device numbers must be zero for an allowed entry")
  return (BitVec.ofNat 32 mode, size)

/-- The last part of `parse_header`: what the entry is. -/
def parseKind (blockIndex : Nat) (typeflag : UInt8) (path : Text) (components : List Text)
    (mode : BitVec 32) (size : Nat) (link : List UInt8) : Except ArchiveDecodeError HeaderKind :=
  if typeflag = 48 then do
    reject (link ≠ []) (.malformedEntry blockIndex "regular file has a link name")
    validateMode path mode (mode &&& ~~~0o777#32 = 0 && mode &&& 0o400#32 ≠ 0)
    return .file
  else if typeflag = 53 then do
    reject (size ≠ 0) (.malformedEntry blockIndex "directory size is not zero")
    reject (link ≠ []) (.malformedEntry blockIndex "directory has a link name")
    validateMode path mode (mode &&& ~~~0o777#32 = 0 && mode &&& 0o500#32 = 0o500#32)
    return .directory
  else do
    reject (size ≠ 0) (.malformedEntry blockIndex "symlink size is not zero")
    validateMode path mode (mode = 0o777#32)
    let target ← require (fromUtf8 link)
      (.unsafeSymlinkTarget path "target is not UTF-8")
    validateLinkTarget limits path components target
    return .symlink target

/-- The work that ends `validate_symlink_target`. -/
def ParseState.chargeTarget (kind : HeaderKind) (state : ParseState sha256) :
    Except ArchiveDecodeError (ParseState sha256) :=
  match kind with
  | .symlink target => state.chargeWork limits (Text.segments target).length
  | _ => .ok state

def parseHeader (block : List UInt8) (blockIndex : Nat) (state : ParseState sha256) :
    Except ArchiveDecodeError (Header × ParseState sha256) := do
  let (mode, size) ← parseMetadata block blockIndex
  let typeflag := block[156]?.getD 0
  checkTypeflag blockIndex typeflag
  let path ← parseHeaderPath block blockIndex
  let components ← validatePath limits path blockIndex
  let state ← state.chargeWork limits components.length
  let link ← fieldBytes (field block 157 257) blockIndex
    "link name has bytes after its NUL terminator"
  let kind ← parseKind limits blockIndex typeflag path components mode size link
  let state ← state.chargeTarget limits kind
  return (⟨path, components, mode, size, kind⟩, state)

/-! ## 6. Insertion -/

def ancestorLists (components : List Text) : List (List Text) :=
  components.inits.tail.dropLast

def ensureDirectory (path : Text) (state : ParseState sha256) (parent : List Text) :
    Except ArchiveDecodeError (ParseState sha256) :=
  match state.nodes.get? parent with
  | none => do
    let logicalEntries ← charge state.logicalEntries 1 .entries limits.entries
    return { state with
      nodes := state.nodes.insert parent (.directory rootAndImplicitDirectoryMode false)
      logicalEntries := logicalEntries }
  | some (.directory _ _) => .ok state
  | some _ => .error (.descendantBelowNonDirectory path)

def ensureParents (path : Text) (components : List Text) (state : ParseState sha256) :
    Except ArchiveDecodeError (ParseState sha256) :=
  (ancestorLists components).foldlM (ensureDirectory limits path) state

def hasChildren (nodes : SortedMap (List Text) Node) (components : List Text) : Bool :=
  nodes.keys.any fun key => key.dropLast = components && key ≠ []

def reserveLeafPath (path : Text) (components : List Text) (state : ParseState sha256) :
    Except ArchiveDecodeError (ParseState sha256) := do
  let state ← ensureParents limits path components state
  match state.nodes.get? components with
  | none => do
    checkArchiveLimit .entries (saturatingAdd state.logicalEntries 1) limits.entries
    return state
  | some (.directory _ _) =>
    if hasChildren state.nodes components then .error (.fileDescendantCollision path)
    else .error (.pathKindCollision path)
  | some _ => .error (.duplicatePath path)

def insertLeaf (path : Text) (components : List Text) (node : Node) (state : ParseState sha256) :
    Except ArchiveDecodeError (ParseState sha256) := do
  let state ← ensureParents limits path components state
  reject (state.nodes.contains components) (.duplicatePath path)
  let logicalEntries ← charge state.logicalEntries 1 .entries limits.entries
  return { state with
    nodes := state.nodes.insert components node, logicalEntries := logicalEntries }

def insertDirectoryEntry (header : Header) (state : ParseState sha256) :
    Except ArchiveDecodeError (ParseState sha256) := do
  let state ← ensureParents limits header.path header.components state
  match state.nodes.get? header.components with
  | none => do
    let logicalEntries ← charge state.logicalEntries 1 .entries limits.entries
    return { state with
      nodes := state.nodes.insert header.components (.directory header.mode true)
      logicalEntries := logicalEntries }
  | some (.directory _ false) =>
    return { state with
      nodes := state.nodes.insert header.components (.directory header.mode true) }
  | some (.directory _ true) => .error (.duplicatePath header.path)
  | some _ => .error (.pathKindCollision header.path)

end Decoder

/-! ## 7. Objects -/

namespace ObjectAccumulator

variable {sha256 : List UInt8 → Digest}

def bytesForDigest (objects : ObjectAccumulator sha256) (digest : ObjectDigest) :
    Option (List UInt8) :=
  (objects.fileBlobs.get? digest).or
    (((objects.trees.get? digest).map Prod.snd).or
      ((objects.symlinks.get? digest).map Prod.snd))

def admitObject (objects : ObjectAccumulator sha256) (digest : ObjectDigest) (bytes : List UInt8)
    (alreadyStored : Bool) (objectBytes limit : Nat) : Except ArchiveDecodeError Nat := do
  reject ((objects.bytesForDigest digest).any (· ≠ bytes) = true)
    (.objectDigestCollision digest)
  if alreadyStored then
    return objectBytes
  else
    charge objectBytes bytes.length .objectBytes limit

end ObjectAccumulator

section Objects

variable (sha256 : List UInt8 → ObjectDigest) (limits : ArchiveLimits)

abbrev hash (bytes : List UInt8) : Digest := (sha256 bytes).val

variable {sha256} in
def insertFile (digest : ObjectDigest) (bytes : List UInt8) (state : ParseState (hash sha256)) :
    Except ArchiveDecodeError (ParseState (hash sha256)) := do
  let objectBytes ← state.objects.admitObject digest bytes
    (state.objects.fileBlobs.contains digest) state.objectBytes limits.maxObjectBytes
  return { state with
    objectBytes := objectBytes
    objects := { state.objects with
      fileBlobs := if state.objects.fileBlobs.contains digest then state.objects.fileBlobs
        else state.objects.fileBlobs.insert digest bytes } }

variable {sha256} in
def insertSymlink (digest : ObjectDigest) (object : SymlinkObject) (bytes : List UInt8)
    (state : ParseState (hash sha256)) :
    Except ArchiveDecodeError (ParseState (hash sha256)) := do
  let objectBytes ← state.objects.admitObject digest bytes
    (state.objects.symlinks.contains digest) state.objectBytes limits.maxObjectBytes
  return { state with
    objectBytes := objectBytes
    objects := { state.objects with
      symlinks := if state.objects.symlinks.contains digest then state.objects.symlinks
        else state.objects.symlinks.insert digest (object, bytes) } }

/-! ## 8. Entries -/

def paddingLen (size : Nat) : Nat :=
  if size % ustarBlockBytes = 0 then 0 else ustarBlockBytes - size % ustarBlockBytes

def divCeil512 (value : Nat) : Nat :=
  if value % ustarBlockBytes = 0 then value / ustarBlockBytes else value / ustarBlockBytes + 1

/-- What `decode_file_entry` does before it reads the body. -/
def reserveFile (header : Header) (remaining blockIndex : Nat)
    (state : ParseState (hash sha256)) :
    Except ArchiveDecodeError (ParseState (hash sha256)) := do
  checkArchiveLimit .fileBytes header.size limits.fileBytes
  let expanded ← charge state.expandedFileBytes header.size .expandedFileBytes
    limits.expandedFileBytes
  let state ← reserveLeafPath limits header.path header.components
    { state with expandedFileBytes := expanded }
  reject (remaining < saturatingAdd header.size (paddingLen header.size))
    (.malformedEntry blockIndex "file body extends beyond the declared payload")
  state.chargeWork limits (divCeil512 header.size)

def insertFileEntry (header : Header) (bytes : List UInt8) (state : ParseState (hash sha256)) :
    Except ArchiveDecodeError (ParseState (hash sha256)) := do
  let encoded ← (encodeFileObject bytes).mapError .invalidObject
  let state ← insertFile limits (sha256 encoded) encoded state
  insertLeaf limits header.path header.components
    (.file header.mode (sha256 encoded) header.size) state

def decodeFileEntry (header : Header) (state : ParseState (hash sha256)) :
    Decode (ParseState (hash sha256)) := do
  let remaining ← ask PayloadReader.remaining
  let consumed ← ask PayloadReader.consumed
  let state ← ofExcept (reserveFile sha256 limits header remaining (consumed / ustarBlockBytes)
    state)
  let bytes ← readChunks limits header.size header.size
  if paddingLen header.size ≠ 0 then do
    let padding ← readBuffer limits (paddingLen header.size)
    let consumed ← ask PayloadReader.consumed
    ofExcept (reject (padding.any (· ≠ 0) = true)
      (.malformedEntry (consumed / ustarBlockBytes) "file padding is nonzero"))
  ofExcept (insertFileEntry sha256 limits header bytes state)

def insertSymlinkEntry (header : Header) (target : Text) (state : ParseState (hash sha256)) :
    Except ArchiveDecodeError (ParseState (hash sha256)) := do
  let state ← reserveLeafPath limits header.path header.components state
  let object ← (SymlinkObject.new target).mapError .invalidTreeValue
  let bytes := encodeSymlinkObject object
  let state ← insertSymlink limits (sha256 bytes) object bytes state
  insertLeaf limits header.path header.components (.symlink (sha256 bytes)) state

def isZeroBlock (block : List UInt8) : Bool := block.all (· = 0)

/-- What follows the first zero block. -/
def parseTerminator (state : ParseState (hash sha256)) : Decode (ParseState (hash sha256)) := do
  let remaining ← ask PayloadReader.remaining
  ofExcept (reject (remaining < ustarBlockBytes)
    (.malformedTerminator "first zero block is not followed by a complete second zero block"))
  let state ← ofExcept (state.chargeMetadataBlock limits)
  let second ← readBuffer limits ustarBlockBytes
  ofExcept (reject (isZeroBlock second = false)
    (.malformedTerminator "first zero block is not followed by a zero block"))
  let remaining ← ask PayloadReader.remaining
  ofExcept (reject (remaining ≠ 0) (.trailingPayloadData remaining))
  return state

def decodeEntry (header : Header) (state : ParseState (hash sha256)) :
    Decode (ParseState (hash sha256)) :=
  match header.kind with
  | .file => decodeFileEntry sha256 limits header state
  | .directory => ofExcept (insertDirectoryEntry limits header state)
  | .symlink target => ofExcept (insertSymlinkEntry sha256 limits header target state)

def parseEntry (block : List UInt8) (blockIndex : Nat) (state : ParseState (hash sha256)) :
    Decode (ParseState (hash sha256)) := do
  let (header, state) ← ofExcept (parseHeader limits block blockIndex state)
  decodeEntry sha256 limits header state

/-- `parse_ustar`, with the turns that are left; every turn reads a block. -/
def parseUstar : Nat → ParseState (hash sha256) → Decode (ParseState (hash sha256))
  | 0, _ => ofExcept (.error (.malformedTerminator "missing complete first zero block"))
  | turns + 1, state => do
    let remaining ← ask PayloadReader.remaining
    let consumed ← ask PayloadReader.consumed
    ofExcept (reject (remaining < ustarBlockBytes)
      (.malformedTerminator "missing complete first zero block"))
    let state ← ofExcept (state.chargeMetadataBlock limits)
    let block ← readBuffer limits ustarBlockBytes
    if isZeroBlock block then
      parseTerminator sha256 limits state
    else do
      let state ← parseEntry sha256 limits block (consumed / ustarBlockBytes) state
      parseUstar turns state

/-! ## 9. The tree -/

def children (nodes : SortedMap (List Text) Node) (directory : List Text) : List (Text × Node) :=
  nodes.entries.filterMap fun entry =>
    match entry.1.getLast? with
    | some name => if entry.1 = directory ++ [name] then some (name, entry.2) else none
    | none => none

def insertTree (digest : ObjectDigest) (object : TreeObject (hash sha256)) (bytes : List UInt8)
    (state : ParseState (hash sha256)) :
    Except ArchiveDecodeError (ParseState (hash sha256)) := do
  let objectBytes ← state.objects.admitObject digest bytes
    (state.objects.trees.contains digest) state.objectBytes limits.maxObjectBytes
  return { state with
    objectBytes := objectBytes
    objects := { state.objects with
      trees := if state.objects.trees.contains digest then state.objects.trees
        else state.objects.trees.insert digest (object, bytes) } }

/-- One child in the loop of `build_tree`; `descend` builds a child directory. -/
def buildEntry (descend : List Text → BitVec 32 → ParseState (hash sha256) →
      Except ArchiveDecodeError (ObjectDigest × ParseState (hash sha256)))
    (directory : List Text) (built : List TreeEntry × ParseState (hash sha256))
    (child : Text × Node) :
    Except ArchiveDecodeError (List TreeEntry × ParseState (hash sha256)) := do
  let state ← built.2.chargeWork limits 1
  let name ← (TreePathSegment.new child.1).mapError .invalidTreeValue
  match child.2 with
  | .file mode digest byteLen => do
    let entry ← (TreeEntry.file (hash sha256) name mode digest byteLen).mapError .invalidTree
    return (built.1 ++ [entry], state)
  | .directory mode _ => do
    let (digest, state) ← descend (directory ++ [child.1]) mode state
    let entry ← (TreeEntry.directory (hash sha256) name mode digest).mapError .invalidTree
    return (built.1 ++ [entry], state)
  | .symlink digest => return (built.1 ++ [TreeEntry.safeRelativeSymlink name digest], state)

/-- `build_tree`, with the levels that are left below the directory. -/
def buildTree (nodes : SortedMap (List Text) Node) : Nat → List Text → BitVec 32 →
    ParseState (hash sha256) → Except ArchiveDecodeError (ObjectDigest × ParseState (hash sha256))
  | 0, _, _, _ => .error (.resourceLimitExceeded .pathDepth limits.pathDepth (maxTreeDepth + 1))
  | levels + 1, directory, mode, state => do
    let (entries, state) ← (children nodes directory).foldlM
      (buildEntry sha256 limits (buildTree nodes levels) directory) ([], state)
    let object ← (TreeObject.new (hash sha256) mode entries).mapError .invalidTree
    let bytes := encodeTreeObject object
    let state ← insertTree sha256 limits (sha256 bytes) object bytes state
    return (sha256 bytes, state)

structure DecodedArchive where
  declaration : ArchiveDeclaration
  rootDigest : ObjectDigest
  objects : ObjectAccumulator (hash sha256)
  graph : TreeGraph (hash sha256)

/-- `finalize_archive`. A path has at most `MAX_TREE_DEPTH` components. -/
def finalizeArchive (parsed : ParseState (hash sha256)) (declaration : ArchiveDeclaration) :
    Except ArchiveDecodeError (DecodedArchive sha256) := do
  let (rootDigest, state) ← buildTree sha256 limits parsed.nodes (maxTreeDepth + 1) []
    rootAndImplicitDirectoryMode parsed
  let graph ← (TreeGraph.new rootDigest.val
    (state.objects.trees.entries.map fun entry => entry.2.1)
    (state.objects.symlinks.entries.map fun entry => entry.2.1)).mapError .invalidTreeGraph
  return ⟨declaration, rootDigest, state.objects, graph⟩

def decodeArchive (input : List UInt8) (declaration : ArchiveDeclaration) :
    Except ArchiveDecodeError (DecodedArchive sha256) := do
  reject (declaration.decoderVersion ≠ archiveDecoderVersion)
    (.unsupportedDecoderVersion archiveDecoderVersion declaration.decoderVersion)
  checkArchiveLimit .payloadBytes declaration.payloadByteLen limits.maxPayloadBytes
  let (parsed, reader) := parseUstar sha256 limits
    (declaration.payloadByteLen / ustarBlockBytes + 1) (ParseState.new (hash sha256))
    ⟨input, declaration.payloadByteLen, [], 0⟩
  let hashed ← (drainVerifyEnd limits reader).1
  reject (sha256 hashed ≠ declaration.payloadDigest)
    (.payloadDigestMismatch declaration.payloadDigest (sha256 hashed))
  let parsed ← parsed
  finalizeArchive sha256 limits parsed declaration

end Objects

end Malm.Archive
