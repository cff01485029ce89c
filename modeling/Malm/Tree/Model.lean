/-
Malm.Tree.Model — canonical files, symlinks and trees (`malm-tree/src/model.rs`).

A tree object carries everything that `TreeObjectV1::new` checks. SHA-256 is a parameter.
An object digest is a digest with 64 hexadecimal digits.
-/
import Malm.Pack.Model

namespace Malm.Tree

open Checks

/-! ## 1. Limits -/

def maxSymlinkTargetBytes : Nat := 4096
def maxTreeSegmentBytes : Nat := 255
def maxTreePathBytes : Nat := 4096
def maxTreeDepth : Nat := 64
def maxTreeEntries : Nat := 100000
def maxTreeFileBytes : Nat := 256 * 1024 * 1024
def maxTreeAggregateFileBytes : Nat := 256 * 1024 * 1024
def maxFileObjectBytes : Nat := 17 + 2 + 8 + maxTreeFileBytes
def maxSymlinkObjectBytes : Nat := 20 + 2 + 8 + maxSymlinkTargetBytes
def maxTreeObjectBytes : Nat :=
  17 + 2 + 4 + 8 + maxTreeEntries * (8 + maxTreeSegmentBytes + 1 + 4 + 8 + 71 + 8)

/-! ## 2. Names and targets -/

inductive TreeValueKind where
  | pathSegment
  | symlinkTarget
deriving DecidableEq, Repr

structure TreeValueError where
  kind : TreeValueKind
  valueLen : Nat
  reason : String
deriving DecidableEq, Repr

def validatePathSegment (value : Text) : Except TreeValueError Unit := do
  let invalid := TreeValueError.mk .pathSegment value.byteLen
  reject (value = []) (invalid "must not be empty")
  reject (maxTreeSegmentBytes < value.byteLen) (invalid "must be at most 255 bytes")
  reject (value = ['.'] ∨ value = ['.', '.']) (invalid "must not be dot or dot-dot")
  reject ('/' ∈ value) (invalid "must not contain slash")
  reject ('\\' ∈ value) (invalid "must not contain backslash")
  reject (value.any Text.isControl = true) (invalid "must not contain control characters")

def validateSymlinkTarget (value : Text) : Except TreeValueError Unit := do
  let invalid := TreeValueError.mk .symlinkTarget value.byteLen
  reject (value = []) (invalid "must not be empty")
  reject (maxSymlinkTargetBytes < value.byteLen) (invalid "must be at most 4096 bytes")
  reject (value.any Text.isControl = true)
    (invalid "must not contain NUL or control characters")

def validated {ε : Type} (validate : Text → Except ε Unit) (value : Text) :
    Except ε { value : Text // validate value = .ok () } :=
  match h : validate value with
  | .ok () => .ok ⟨value, h⟩
  | .error error => .error error

abbrev TreePathSegment := { value : Text // validatePathSegment value = .ok () }

def TreePathSegment.new (value : Text) : Except TreeValueError TreePathSegment :=
  validated validatePathSegment value

abbrev SymlinkObject := { target : Text // validateSymlinkTarget target = .ok () }

def SymlinkObject.new (target : Text) : Except TreeValueError SymlinkObject :=
  validated validateSymlinkTarget target

theorem validated_ok {ε : Type} {validate : Text → Except ε Unit} {value : Text}
    {found : { value : Text // validate value = .ok () }} :
    validated validate value = .ok found ↔ found.val = value := by
  unfold validated
  split
  · rename_i hvalid
    rw [Except.ok.injEq, ← Subtype.val_inj, eq_comm]
  · rename_i error hinvalid
    constructor
    · intro h
      cases h
    · rintro rfl
      rw [found.property] at hinvalid
      cases hinvalid

/-! ## 3. Entries -/

/-- The digests of the source: the text has 64 hexadecimal digits. -/
abbrev ObjectDigest := { digest : Digest // digest.value < 16 ^ 64 }

inductive TreeNodeKind where
  | rootDirectory
  | file
  | directory
  | safeRelativeSymlink
deriving DecidableEq, Repr

inductive TreeEntryKind where
  | file (digest : ObjectDigest) (byteLen : Nat)
  | directory (digest : ObjectDigest)
  | safeRelativeSymlink (digest : ObjectDigest)
deriving DecidableEq

def TreeEntryKind.digest : TreeEntryKind → ObjectDigest
  | .file digest _ => digest
  | .directory digest => digest
  | .safeRelativeSymlink digest => digest

/-- `TreeEntryV1`. `TreeObjectV1::new` validates every entry again. -/
structure TreeEntry where
  name : TreePathSegment
  mode : BitVec 32
  kind : TreeEntryKind
deriving DecidableEq

def normalizedSymlinkMode : BitVec 32 := 0o777#32

inductive TreeValidationError where
  | unsupportedMode (kind : TreeNodeKind) (mode : BitVec 32)
  | tooManyEntries (limit actual : Nat)
  | duplicateName (name : TreePathSegment)
  | fileTooLarge (name : TreePathSegment) (limit actual : Nat)
  | aggregateFileBytesExceeded (limit actual : Nat)
  | emptyFileDigest (name : TreePathSegment) (actual : ObjectDigest)
  | conflictingFileLength (digest : ObjectDigest) (first second : Nat)
deriving DecidableEq

def validateFileMode (mode : BitVec 32) : Except TreeValidationError Unit :=
  reject (mode &&& ~~~0o777#32 ≠ 0 ∨ mode &&& 0o400#32 = 0) (.unsupportedMode .file mode)

def validateDirectoryMode (kind : TreeNodeKind) (mode : BitVec 32) :
    Except TreeValidationError Unit :=
  reject (mode &&& ~~~0o777#32 ≠ 0 ∨ mode &&& 0o500#32 ≠ 0o500#32)
    (.unsupportedMode kind mode)

def emptyFileObject : List UInt8 :=
  Bytes.utf8 "malm-file-object\x00".toList ++ Bytes.bigEndian 2 1 ++ Bytes.bigEndian 8 0

section Objects

variable (sha256 : List UInt8 → Digest)

def validateEntry (entry : TreeEntry) : Except TreeValidationError Unit :=
  match entry.kind with
  | .file digest byteLen => do
    validateFileMode entry.mode
    reject (maxTreeFileBytes < byteLen) (.fileTooLarge entry.name maxTreeFileBytes byteLen)
    reject (byteLen = 0 ∧ digest.val ≠ sha256 emptyFileObject)
      (.emptyFileDigest entry.name digest)
  | .directory _ => validateDirectoryMode .directory entry.mode
  | .safeRelativeSymlink _ =>
    reject (entry.mode ≠ normalizedSymlinkMode)
      (.unsupportedMode .safeRelativeSymlink entry.mode)

def TreeEntry.file (name : TreePathSegment) (mode : BitVec 32) (digest : ObjectDigest)
    (byteLen : Nat) : Except TreeValidationError TreeEntry := do
  let entry : TreeEntry := ⟨name, mode, .file digest byteLen⟩
  validateEntry sha256 entry
  return entry

def TreeEntry.directory (name : TreePathSegment) (mode : BitVec 32) (digest : ObjectDigest) :
    Except TreeValidationError TreeEntry := do
  let entry : TreeEntry := ⟨name, mode, .directory digest⟩
  validateEntry sha256 entry
  return entry

def TreeEntry.safeRelativeSymlink (name : TreePathSegment) (digest : ObjectDigest) : TreeEntry :=
  ⟨name, normalizedSymlinkMode, .safeRelativeSymlink digest⟩

/-! ## 4. Tree objects -/

/-- One entry of `validate_file_lengths`: the bytes so far, the lengths by digest. -/
def validateFileLength (state : Nat × List (ObjectDigest × Nat)) (entry : TreeEntry) :
    Except TreeValidationError (Nat × List (ObjectDigest × Nat)) :=
  match entry.kind with
  | .file digest byteLen => do
    let total := state.1 + byteLen
    reject (maxTreeAggregateFileBytes < total)
      (.aggregateFileBytesExceeded maxTreeAggregateFileBytes total)
    rejectSome ((state.2.lookup digest).filter fun first => first ≠ byteLen)
      fun first => .conflictingFileLength digest first byteLen
    return (total, (digest, byteLen) :: state.2)
  | _ => .ok state

def validateFileLengths (entries : List TreeEntry) : Except TreeValidationError Unit := do
  let _ ← entries.foldlM validateFileLength (0, [])

def sortEntries (entries : List TreeEntry) : List TreeEntry :=
  entries.insertionSort fun left right => left.name.val ≤ right.name.val

/-- The first name that two neighbours share. -/
def duplicateName : List TreeEntry → Option TreePathSegment
  | first :: second :: rest =>
    if first.name = second.name then some first.name else duplicateName (second :: rest)
  | _ => none

def checkTree (rootMode : BitVec 32) (entries : List TreeEntry) :
    Except TreeValidationError Unit := do
  validateDirectoryMode .rootDirectory rootMode
  reject (maxTreeEntries < entries.length) (.tooManyEntries maxTreeEntries entries.length)
  entries.forM (validateEntry sha256)
  rejectSome (duplicateName (sortEntries entries)) .duplicateName
  validateFileLengths (sortEntries entries)

structure TreeObject where
  rootMode : BitVec 32
  entries : List TreeEntry
  sorted : sortEntries entries = entries
  valid : checkTree sha256 rootMode entries = .ok ()

variable {sha256}

theorem TreeObject.ext {left right : TreeObject sha256} (hmode : left.rootMode = right.rootMode)
    (hentries : left.entries = right.entries) : left = right := by
  cases left
  cases right
  obtain rfl := hmode
  obtain rfl := hentries
  rfl

theorem sortEntries_perm (entries : List TreeEntry) : (sortEntries entries).Perm entries :=
  List.perm_insertionSort _ entries

theorem sortEntries_sorted (es : List TreeEntry) :
    (sortEntries es).Pairwise fun left right => left.name.val ≤ right.name.val :=
  List.pairwise_insertionSort _ es

theorem sortEntries_of_sorted {entries : List TreeEntry}
    (h : entries.Pairwise fun left right => left.name.val ≤ right.name.val) :
    sortEntries entries = entries :=
  h.insertionSort_eq

theorem checkTree_sortEntries {rootMode : BitVec 32} {entries : List TreeEntry}
    (h : checkTree sha256 rootMode entries = .ok ()) :
    checkTree sha256 rootMode (sortEntries entries) = .ok () := by
  have hagain : sortEntries (sortEntries entries) = sortEntries entries :=
    sortEntries_of_sorted (sortEntries_sorted entries)
  simp only [checkTree, bind_ok, exists_unit, forM_ok, reject_ok,
    hagain, (sortEntries_perm entries).length_eq, (sortEntries_perm entries).mem_iff] at h ⊢
  exact h

variable (sha256)

def TreeObject.new (rootMode : BitVec 32) (entries : List TreeEntry) :
    Except TreeValidationError (TreeObject sha256) :=
  match h : checkTree sha256 rootMode entries with
  | .ok () => .ok ⟨rootMode, sortEntries entries,
      sortEntries_of_sorted (sortEntries_sorted entries), checkTree_sortEntries h⟩
  | .error error => .error error

end Objects

end Malm.Tree
