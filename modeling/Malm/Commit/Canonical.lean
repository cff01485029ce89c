/-
Malm.Commit.Canonical — canonical file, symlink and tree objects (`canonical.rs`):
decoding one object, and validating a loaded tree graph.

Raw bytes are known by their SHA-256 identity and length (`Contents`); a stored object is
the encoding of a value or other bytes (`Encoded`). `walk_tree` recurses on the remaining
depth, and the queue of `validate_symlink_graph` visits every link at most once.
-/
import Malm.Commit.Error
import Malm.Store.State
import Malm.Lib.SortedMap

namespace Malm.Commit

open Store Checks

/-! ## 1. Bytes and encodings -/

/-- Raw bytes, by SHA-256 identity and length. -/
structure Contents where
  hash : Digest
  byteLen : Nat
deriving DecidableEq, Repr

/-- The bytes of a store entry: the encoding of a value, or anything else. -/
inductive Encoded (α : Type) where
  | canonical (value : α)
  | other (bytes : Contents)
deriving DecidableEq, Repr

namespace Encoded

variable {α : Type}

/-- The number of bytes, given the size of encodings. -/
def byteLen (sizeOf : α → Nat) : Encoded α → Nat
  | canonical value => sizeOf value
  | other bytes => bytes.byteLen

/-- `Digest::sha256` of the bytes, given the identity of encodings. -/
def hash (hashOf : α → Digest) : Encoded α → Digest
  | canonical value => hashOf value
  | other bytes => bytes.hash

end Encoded

/-! ## 2. Objects -/

def maxTreeEntries : Nat := 100000
def maxTreeDepth : Nat := 64
def maxTreePathBytes : Nat := 4096
def maxTreeFileBytes : Nat := 256 * 1024 * 1024
def maxSymlinkBytes : Nat := 4096
def maxFileObjectBytes : Nat := 17 + 2 + 8 + maxTreeFileBytes
def maxSymlinkObjectBytes : Nat := 20 + 2 + 8 + maxSymlinkBytes
def maxTreeObjectBytes : Nat := 17 + 2 + 4 + 8 + maxTreeEntries * (8 + 255 + 1 + 4 + 8 + 71 + 8)

inductive TreeEntryKind where
  | file (digest : Digest) (byteLen : Nat)
  | directory (digest : Digest)
  | symlink (digest : Digest)
deriving DecidableEq, Repr

structure TreeEntry where
  name : Text
  mode : BitVec 32
  kind : TreeEntryKind
deriving DecidableEq, Repr

structure TreeObject where
  rootMode : BitVec 32
  entries : List TreeEntry
deriving DecidableEq, Repr

/-- The encoded size of one entry: name, tag, mode, digest and a file's length. -/
def TreeEntry.encodedLen (entry : TreeEntry) : Nat :=
  8 + entry.name.byteLen + 1 + 4 + 8 + 71 +
    match entry.kind with
    | .file _ _ => 8
    | _ => 0

def TreeObject.encodedLen (tree : TreeObject) : Nat :=
  17 + 2 + 4 + 8 + (tree.entries.map TreeEntry.encodedLen).sum

def fileObjectLen (contents : Contents) : Nat := 17 + 2 + 8 + contents.byteLen

def symlinkObjectLen (target : Text) : Nat := 20 + 2 + 8 + target.byteLen

/-- The SHA-256 identities of the binary object encodings. -/
structure ObjectCodec extends Codec where
  fileDigest : Contents → Digest
  symlinkDigest : Text → Digest
  treeDigest : TreeObject → Digest

inductive CanonicalObjectIssue where
  | missing (kind : String) (digest : Digest)
  | tooLarge (limit actual : Nat)
  | digestMismatch (expected actual : Digest)
  | invalidEncoding (detail : String)
deriving DecidableEq, Repr

/-! ## 3. Decoding -/

def validateSegment (value : Text) : Except CanonicalObjectIssue Unit :=
  reject
    (value.isEmpty ∨ 255 < value.byteLen ∨ value = ['.'] ∨ value = ['.', '.'] ∨ '/' ∈ value ∨
      '\\' ∈ value ∨ value.any Text.isControl)
    (.invalidEncoding "invalid canonical tree path segment")

def validateFileMode (mode : BitVec 32) : Except CanonicalObjectIssue Unit :=
  reject (mode &&& ~~~0o777#32 ≠ 0 ∨ mode &&& 0o400#32 = 0)
    (.invalidEncoding "invalid canonical tree file mode")

def validateDirectoryMode (mode : BitVec 32) : Except CanonicalObjectIssue Unit :=
  reject (mode &&& ~~~0o777#32 ≠ 0 ∨ mode &&& 0o500#32 ≠ 0o500#32)
    (.invalidEncoding "invalid canonical tree directory mode")

section Decoding

variable (codec : ObjectCodec)

def verifyDigest (expected actual : Digest) : Except CanonicalObjectIssue Unit :=
  reject (actual ≠ expected) (.digestMismatch expected actual)

def decodeFile (expected : Digest) (bytes : Encoded Contents) :
    Except CanonicalObjectIssue Contents := do
  verifyDigest expected (bytes.hash codec.fileDigest)
  match bytes with
  | .other _ => .error (.invalidEncoding "canonical file object has the wrong domain")
  | .canonical contents =>
    reject (maxTreeFileBytes < contents.byteLen)
      (.tooLarge maxTreeFileBytes contents.byteLen)
    return contents

def decodeSymlink (expected : Digest) (bytes : Encoded Text) :
    Except CanonicalObjectIssue Text := do
  verifyDigest expected (bytes.hash codec.symlinkDigest)
  match bytes with
  | .other _ => .error (.invalidEncoding "canonical symlink object has the wrong domain")
  | .canonical target =>
    reject (maxSymlinkBytes < target.byteLen)
      (.invalidEncoding "canonical symlink target exceeds its byte limit")
    reject (target.isEmpty ∨ target.any Text.isControl)
      (.invalidEncoding "canonical symlink target is empty or contains control characters")
    return target

def emptyFileDigest : Digest := codec.fileDigest ⟨emptyDigest, 0⟩

/-- The state of the entry loop of `decode_tree`. -/
structure TreeDecodeState where
  previous : Option Text
  aggregate : Nat
  fileLengths : List (Digest × Nat)

def decodeTreeFile (state : TreeDecodeState) (mode : BitVec 32) (digest : Digest)
    (byteLen : Nat) : Except CanonicalObjectIssue TreeDecodeState := do
  validateFileMode mode
  reject (maxTreeFileBytes < byteLen) (.tooLarge maxTreeFileBytes byteLen)
  reject (maxTreeFileBytes < state.aggregate + byteLen)
    (.tooLarge maxTreeFileBytes (state.aggregate + byteLen))
  reject ((state.fileLengths.lookup digest).any (· ≠ byteLen))
    (.invalidEncoding "canonical tree assigns conflicting lengths to one file object")
  reject (byteLen = 0 ∧ digest ≠ emptyFileDigest codec)
    (.invalidEncoding "canonical empty tree file has a noncanonical object identity")
  return { state with
    aggregate := state.aggregate + byteLen
    fileLengths := (digest, byteLen) :: state.fileLengths }

def decodeTreeEntry (state : TreeDecodeState) (entry : TreeEntry) :
    Except CanonicalObjectIssue TreeDecodeState := do
  validateSegment entry.name
  reject (state.previous.any (entry.name ≤ ·))
    (.invalidEncoding "canonical tree entries are not strictly name-sorted")
  let state := { state with previous := some entry.name }
  match entry.kind with
  | .file digest byteLen => decodeTreeFile codec state entry.mode digest byteLen
  | .directory _ => do
    validateDirectoryMode entry.mode
    return state
  | .symlink _ => do
    reject (entry.mode ≠ 0o777#32)
      (.invalidEncoding "canonical tree symlink mode is not normalized")
    return state

def decodeTree (expected : Digest) (bytes : Encoded TreeObject) :
    Except CanonicalObjectIssue TreeObject := do
  verifyDigest expected (bytes.hash codec.treeDigest)
  match bytes with
  | .other _ => .error (.invalidEncoding "canonical tree object has the wrong domain")
  | .canonical tree =>
    validateDirectoryMode tree.rootMode
    reject (maxTreeEntries < tree.entries.length)
      (.tooLarge maxTreeEntries tree.entries.length)
    let _ ← tree.entries.foldlM (decodeTreeEntry codec) ⟨none, 0, []⟩
    return tree

end Decoding

/-! ## 4. Tree graphs -/

/-- `CanonicalObjects`: decoded objects by digest. -/
structure CanonicalObjects where
  files : SortedMap Digest Contents
  symlinks : SortedMap Digest Text
  trees : SortedMap Digest TreeObject

def CanonicalObjects.empty : CanonicalObjects := ⟨.empty, .empty, .empty⟩

def joinPath (parent child : Text) : Text :=
  if parent.isEmpty then child else parent ++ '/' :: child

def safeTargetPath (path target : Text) : Except CanonicalObjectIssue Text := do
  reject (target.head? = some '/' ∨ '\\' ∈ target)
    (.invalidEncoding "canonical symlink target is not safe-relative")
  target.segments.forM validateSegment
  -- `path.rsplit_once('/')`: everything before the last slash, else nothing.
  let parent := path.ancestorPaths.getLast?.getD []
  let resolved := joinPath parent target
  reject (maxTreeDepth < resolved.segments.length ∨ maxTreePathBytes < resolved.byteLen)
    (.invalidEncoding "canonical symlink target exceeds tree path bounds")
  return resolved

structure WalkState where
  entries : Nat
  fileBytes : Nat
  fileLengths : List (Digest × Nat)
  links : SortedMap Text Digest

def WalkState.default : WalkState := ⟨0, 0, [], .empty⟩

section Walk

variable (objects : CanonicalObjects)

def walkFile (state : WalkState) (digest : Digest) (byteLen : Nat) :
    Except CanonicalObjectIssue WalkState := do
  let contents ← require (objects.files.get? digest) (.missing "file" digest)
  reject (contents.byteLen ≠ byteLen)
    (.invalidEncoding "tree path has inconsistent file length")
  reject (maxTreeFileBytes < state.fileBytes + byteLen)
    (.tooLarge maxTreeFileBytes (state.fileBytes + byteLen))
  reject ((state.fileLengths.lookup digest).any (· ≠ byteLen))
    (.invalidEncoding "canonical tree graph assigns conflicting file lengths")
  return { state with
    fileBytes := state.fileBytes + byteLen
    fileLengths := (digest, byteLen) :: state.fileLengths }

def walkSymlink (state : WalkState) (path : Text) (digest : Digest) :
    Except CanonicalObjectIssue WalkState := do
  reject (objects.symlinks.contains digest = false) (.missing "symlink" digest)
  return { state with links := state.links.insert path digest }

def walkEntry (depthLeft : Nat) (path : Text) (state : WalkState) :
    Except CanonicalObjectIssue WalkState := do
  reject (depthLeft = 0 ∨ maxTreePathBytes < path.byteLen)
    (.invalidEncoding "canonical tree exceeds its depth or path-byte limit")
  reject (maxTreeEntries < state.entries + 1)
    (.invalidEncoding "canonical tree graph exceeds its entry limit")
  return { state with entries := state.entries + 1 }

def walkTree (depthLeft : Nat) (digest : Digest) (path : Text) (ancestors : List Digest)
    (state : WalkState) : Except CanonicalObjectIssue WalkState := do
  reject (digest ∈ ancestors)
    (.invalidEncoding "canonical tree contains a directory cycle")
  let tree ← require (objects.trees.get? digest) (.missing "tree" digest)
  tree.entries.foldlM
    (fun state entry => do
      let entryPath := joinPath path entry.name
      let state ← walkEntry depthLeft entryPath state
      match entry.kind, depthLeft with
      | .file digest byteLen, _ => walkFile objects state digest byteLen
      | .symlink digest, _ => walkSymlink objects state entryPath digest
      | .directory child, depthLeft + 1 => do
        let childTree ← require (objects.trees.get? child) (.missing "tree" child)
        reject (childTree.rootMode ≠ entry.mode)
          (.invalidEncoding "tree path has inconsistent directory mode")
        walkTree depthLeft child entryPath (digest :: ancestors) state
      | .directory child, 0 => .error (.missing "tree" child))
    state
termination_by structural depthLeft

end Walk

/-- The links a resolved target passes through, in path order. -/
def linkDependencies (links : SortedMap Text Digest) (target : Text) : List Text :=
  (target.ancestorPaths ++ [target]).filter fun path => links.contains path

/-- The queue of the topological sort, with the number of links still to visit. -/
def visitLinks (edges : SortedMap Text (List Text)) :
    Nat → List Text → SortedMap Text Nat → Nat → Nat
  | 0, _, _, visited => visited
  | _ + 1, [], _, visited => visited
  | fuel + 1, path :: ready, incoming, visited =>
    let (ready, incoming) := ((edges.get? path).getD []).foldl
      (fun (ready, incoming) dependency =>
        let count := (incoming.get? dependency).getD 0 - 1
        (if count = 0 then ready ++ [dependency] else ready, incoming.insert dependency count))
      (ready, incoming)
    visitLinks edges fuel ready incoming (visited + 1)

def validateSymlinkGraph (links : SortedMap Text Digest) (symlinks : SortedMap Digest Text) :
    Except CanonicalObjectIssue Unit := do
  let targets ← links.entries.mapM fun (path, digest) => do
    let target ← require (symlinks.get? digest) (.missing "symlink" digest)
    let resolved ← safeTargetPath path target
    return (path, resolved)
  let edges := targets.foldl
    (fun (edges : SortedMap Text (List Text)) (path, target) =>
      edges.insert path (linkDependencies links target)) .empty
  let incoming := links.keys.foldl
    (fun (incoming : SortedMap Text Nat) path =>
      incoming.insert path
        ((targets.map fun (_, target) => (linkDependencies links target).count path).sum)) .empty
  let ready := (incoming.entries.filter fun (_, count) => count = 0).map Prod.fst
  let visited := visitLinks edges links.entries.length ready incoming 0
  reject (visited ≠ incoming.entries.length)
    (.invalidEncoding "canonical tree contains a symbolic-link cycle")

def CanonicalObjects.validateTree (objects : CanonicalObjects) (root : Digest) :
    Except CanonicalObjectIssue Unit := do
  reject (objects.trees.contains root = false) (.missing "tree" root)
  let state ← walkTree objects maxTreeDepth root [] [] .default
  validateSymlinkGraph state.links objects.symlinks

end Malm.Commit
