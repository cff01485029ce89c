/-
Malm.Commit.Target — what a commit does to the target file system
(`target.rs`, the phases of `commit_v1`, the exact-state checks of `lib.rs`).

A leaf that goes away is pinned, renamed to a backup name, compared with the ledger, and
unlinked once the new catalog is published. Nothing interferes here, so the comparisons
that detect outside changes are left out, and a backup is looked at where it was moved
from. What the kernel gives to a new object is `stamp`.
-/
import Malm.Commit.Objects
import Malm.Target.Changes

namespace Malm.Commit

open Store Target Checks

/-! ## 1. Exact states -/

def CanonicalObjects.safeSymlinkTarget (objects : CanonicalObjects) (digest : Digest) :
    Except CanonicalObjectIssue Text := do
  let target ← require (objects.symlinks.get? digest) (.missing "symlink" digest)
  let _ ← safeTargetPath "link".toList target
  return target

def requireSafeDirectory (uid : Nat) (entry : Entry) : Except CommitError Unit :=
  reject
    (entry.kind ≠ .directory ∨ entry.identity.userId ≠ uid ∨
      entry.identity.mode &&& 0o7022#32 ≠ 0)
    (.unsafeTarget "unsafe directory metadata")

section Exact

variable (objects : CanonicalObjects) (uid : Nat) (system : TargetSystem)

/-- A regular file; `require_state_file` and `require_leaf_bytes` differ in their errors. -/
def requireFile (opening : String) (differs contentDiffers : CommitError) (key : TargetKey)
    (mode : BitVec 32) (contents : Contents) : Except CommitError Unit := do
  let entry ← require (system.entry key) (.ioFailure opening)
  reject (entry.kind.fileType = .symlink ∨ entry.accessible = false)
    (.ioFailure opening)
  reject
    (entry.kind.fileType ≠ .regularFile ∨ entry.identity.userId ≠ uid ∨
      entry.identity.links ≠ 1 ∨ entry.identity.mode &&& 0o7777#32 ≠ mode ∨
      entry.identity.size ≠ contents.byteLen)
    differs
  reject (entry.kind ≠ .file contents) contentDiffers

def requireStateFile (key : TargetKey) (file : StateFile) : Except CommitError Unit :=
  requireFile uid system "open exact target file"
    (.staleTarget "target file differs from its managed state")
    (.staleTarget "target file content differs from its managed state") key file.mode
    ⟨file.digest, file.byteLen⟩

def requireLeafBytes (key : TargetKey) (mode : BitVec 32) (bytes : Contents) :
    Except CommitError Unit :=
  requireFile uid system "open transaction target"
    (.invalidJournal "transaction target is not the prepared regular file")
    (.invalidJournal "transaction target bytes differ from the prepared artifact") key mode bytes

def requireDirectoryState (key : TargetKey) (mode : BitVec 32) : Except CommitError Unit := do
  let entry ← require (system.entry key) (.ioFailure "inspect exact target directory")
  reject
    (entry.kind.fileType ≠ .directory ∨ entry.identity.userId ≠ uid ∨
      entry.identity.mode &&& 0o7777#32 ≠ mode)
    (.staleTarget "target directory differs from its managed state")
  reject (entry.accessible = false) (.ioFailure "open exact target directory")

def requireSymlinkTarget (key : TargetKey) (expected : Text) : Except CommitError Unit := do
  let entry ← require (system.entry key) (.ioFailure "pin exact target symlink")
  reject
    (entry.kind.fileType ≠ .symlink ∨ entry.identity.userId ≠ uid ∨ entry.identity.links ≠ 1)
    (.staleTarget "target symlink differs from its managed state")
  reject (entry.kind ≠ .symlink expected)
    (.staleTarget "target symlink content differs from its managed state")

/-- `directory_entry_names`: the last segments of the paths directly below. -/
def directoryEntryNames (key : TargetKey) : List Text :=
  sortedSet (system.entries.keys.filterMap fun candidate =>
    let path : Text := (ofLex candidate).2
    if (ofLex candidate).1 = key.1 ∧ path ≠ [] ∧ path.ancestorPaths.getLast?.getD [] = key.2 then
      path.segments.getLast?
    else
      none)

/-- `require_tree_directory`, with the levels that are left. -/
def requireTreeDirectory : Nat → TargetKey → Digest → Except CommitError Unit
  | 0, _, _ => .error (.invalidStore "canonical tree exceeds its depth limit")
  | depthLeft + 1, key, digest => do
    let tree ← require (objects.trees.get? digest)
      (.invalidStore "canonical tree object is missing")
    let entry ← require (system.entry key) (.ioFailure "open canonical tree root")
    reject (entry.kind ≠ .directory ∨ entry.accessible = false)
      (.ioFailure "open canonical tree root")
    reject
      (entry.identity.userId ≠ uid ∨ entry.identity.mode &&& 0o7777#32 ≠ tree.rootMode)
      (.staleTarget "canonical tree directory has unexpected metadata")
    reject (directoryEntryNames system key ≠ sortedSet (tree.entries.map TreeEntry.name))
      (.staleTarget "canonical tree directory entries differ from managed state")
    tree.entries.forM fun member =>
      let child : TargetKey := (key.1, joinPath key.2 member.name)
      match member.kind with
      | .file digest _ => do
        let bytes ← require (objects.files.get? digest)
          (.invalidStore "canonical file object is missing")
        requireLeafBytes uid system child member.mode bytes
      | .symlink digest => do
        let target ← asInvalidObject (objects.safeSymlinkTarget digest)
        requireSymlinkTarget uid system child target
      | .directory digest => requireTreeDirectory depthLeft child digest

def requireEntryAbsent (key : TargetKey) : Except CommitError Unit :=
  reject (system.entry key).isSome
    (.invalidJournal "unexpected transaction staging entry remains")

def requireTargetState (key : TargetKey) : StateTargetState → Except CommitError Unit
  | .file (some file) => requireStateFile uid system key file
  | .directory (some directory) => requireDirectoryState uid system key directory.mode
  | .symlink (some symlink) => do
    let target ← asInvalidObject (objects.safeSymlinkTarget symlink.object)
    requireSymlinkTarget uid system key target
  | .tree (some tree) =>
    requireTreeDirectory objects uid system (maxTreeDepth + 1) key tree.tree
  | _ => requireEntryAbsent system key

/-! ## 2. The leaf that goes -/

def requireEmptyDirectoryEntry (key : TargetKey) : Except CommitError Unit := do
  let entry ← require (system.entry key) (.ioFailure "open removed transaction directory")
  reject (entry.kind ≠ .directory ∨ entry.accessible = false)
    (.ioFailure "open removed transaction directory")
  reject (system.isEmptyDirectory key = false)
    (.invalidJournal "removed transaction directory is not empty")

def requirePriorRemovalState (key : TargetKey) (state : StateTargetState) :
    Except CommitError Unit := do
  requireTargetState objects uid system key state
  match state with
  | .directory (some _) => requireEmptyDirectoryEntry system key
  | _ => .ok ()

/-- The prior states whose cleanup follows the ledger. -/
def ledgerDirectory : Option StateTargetState → Option StateTargetState
  | some (.directory directory) => some (.directory directory)
  | some (.tree tree) => some (.tree tree)
  | _ => none

def requirePriorBackupState (prior : Option StateTargetState) (key : TargetKey) :
    Except CommitError Unit :=
  whenSome (ledgerDirectory prior) (requirePriorRemovalState objects uid system key)

/-- `pin_prepared_source`: a regular file is opened for reading. -/
def pinPreparedSource (key : TargetKey) : Except CommitError Unit := do
  let entry ← require (system.entry key) (.ioFailure "pin prepared target source")
  reject (entry.kind.fileType = .regularFile ∧ entry.accessible = false)
    (.ioFailure "pin prepared target source")

/-- A removed directory: a managed tree in its exact state, anything else empty. -/
def requireRemovableDirectory (prior : Option StateTargetState) (key : TargetKey) :
    Except CommitError Unit :=
  match prior with
  | some (.tree (some _)) => requirePriorBackupState objects uid system prior key
  | _ => requireEmptyDirectoryEntry system key

/-- A present leaf is moved to its backup name. -/
def moveAside (prior : Option StateTargetState) (operation : PreparedOperation)
    (entry : Entry) : Except CommitError Unit :=
  match operation with
  | .removeLeaf _ => do
    Checks.when (entry.kind = .directory)
      (requireRemovableDirectory objects uid system prior operation.key)
    pinPreparedSource system operation.key
  | _ => do
    pinPreparedSource system operation.key
    requirePriorBackupState objects uid system prior operation.key

/-- The backup of a leaf without ledger directory is unlinked, which fails for a full
directory. -/
def finishPriorBackup (prior : Option StateTargetState) (key : TargetKey) (entry : Entry) :
    Except CommitError Unit :=
  match ledgerDirectory prior with
  | some state => requirePriorRemovalState objects uid system key state
  | none =>
    reject (entry.kind = .directory ∧ system.isEmptyDirectory key = false)
      (.ioFailure "remove quarantined entry")

/-- All that commit asks of the leaf an operation replaces or removes. -/
def discardLeaf (prior : Option StateTargetState) (operation : PreparedOperation) :
    Except CommitError Unit :=
  whenSome (system.entry operation.key) fun entry => do
    moveAside objects uid system prior operation entry
    finishPriorBackup objects uid system prior operation.key entry

end Exact

def priorTargetState (previous : Option StateGeneration) (key : TargetKey) :
    Option StateTargetState :=
  previous.bind fun generation =>
    (generation.targets.find? fun target => target.key = key).map StateTarget.state

end Malm.Commit
