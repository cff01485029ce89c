/-
Malm.Commit.Pins — removals and absence assertions below missing directories
(`target.rs`).

A pinned target holds open the directories that exist on its path and the names
of the missing ones (`pending`); its parent handle is the deepest that exists.
Handles name objects, so what a name leads to is a table by directory and name,
which nothing changes while a function looks at it.
-/
import Malm.Target.System

namespace Malm.Commit

open Store Target Checks

/-! ## 1. Objects and entries -/

/-- What `statat` answers for a name in an open directory. -/
inductive Lookup where
  | found (object : Nat)
  | absent
  | failed
deriving DecidableEq

abbrev Entries := Nat × Text → Lookup

/-- What the code learns of an object by its handle. -/
structure Objects where
  /-- `fstat`. -/
  identity : Nat → FileIdentity
  /-- Whether the object can be opened as a directory. -/
  opens : Nat → Bool
  /-- `reject_protected_traversal_directory`. -/
  rejectTraversal : Nat → Except CommitError Unit
  /-- `reject_protected_destination_directory`. -/
  rejectDestination : Nat → Except CommitError Unit
  /-- Whether `fsync` succeeds. -/
  syncs : Nat → Bool

/-- A name that is pinned to an object. -/
structure Binding where
  directory : Nat
  name : Text
  object : Nat
deriving DecidableEq

def Binding.key (binding : Binding) : Nat × Text := (binding.directory, binding.name)

def bindingsBelow (directory : Nat) : List (Text × Nat) → List Binding
  | [] => []
  | (name, object) :: rest => ⟨directory, name, object⟩ :: bindingsBelow object rest

inductive AbsenceKind where
  | removeLeaf
  | assertAbsent
deriving DecidableEq

/-- `PinnedTarget` of a removal or an assertion whose leaf was observed absent. -/
structure PinnedTarget where
  kind : AbsenceKind
  chain : List Binding
  root : Nat
  ancestors : List (Text × Nat)
  parent : Nat
  parentObject : FileIdentity
  leaf : Text
  pending : List Text
  /-- The plan ID without its tag. -/
  planDigest : Text
  index : Nat
deriving DecidableEq

def PinnedTarget.temporaryName (target : PinnedTarget) (suffix : String) : Text :=
  ".malm-".toList ++ target.planDigest ++ ['-'] ++ (Nat.repr target.index).toList ++ ['-'] ++
    suffix.toList

section Phases

variable (objects : Objects) (target : PinnedTarget) (entries : Entries)

def sameObject (left right : FileIdentity) : Bool :=
  left.device = right.device && left.inode = right.inode

def compareObjectIdentity (actual expected : FileIdentity) (changed : String) :
    Except CommitError Unit :=
  reject (sameObject actual expected = false) (.staleTarget changed)

/-! ## 2. Bindings -/

def requireBound (opening changed : String) (binding : Binding) : Except CommitError Unit :=
  match entries binding.key with
  | .found bound =>
    reject (sameObject (objects.identity bound) (objects.identity binding.object) = false)
      (.staleTarget changed)
  | _ => .error (.ioFailure opening)

def ensureBound : Except CommitError Unit :=
  target.chain.forM fun binding =>
    requireBound objects entries "revalidate authority path" "authority path binding changed"
      binding

def ensureAncestorsBound (opening changed : String) : Except CommitError Unit :=
  (bindingsBelow target.root target.ancestors).forM fun binding =>
    requireBound objects entries opening changed binding

def proveSafeExistingDirectoryLeaf (object : Nat) : Except CommitError Unit :=
  if FileType.fromRawMode (objects.identity object).mode ≠ .directory then .ok ()
  else do
    reject (objects.opens object = false) (.ioFailure "open target directory leaf")
    objects.rejectDestination object

def revalidateDirectoryLeaf : Except CommitError Unit :=
  match entries (target.parent, target.leaf) with
  | .found object => proveSafeExistingDirectoryLeaf objects object
  | .absent => .ok ()
  | .failed => .error (.ioFailure "inspect transaction entry")

def requirePendingHeadAbsent (head : Text) : Except CommitError Unit :=
  match entries (target.parent, head) with
  | .found _ => .error (.staleTarget "target ancestor was created externally")
  | .absent => .ok ()
  | .failed => .error (.ioFailure "inspect pending target ancestor")

def PinnedTarget.revalidateBindings : Except CommitError Unit := do
  ensureBound objects target entries
  ensureAncestorsBound objects target entries "revalidate target ancestor"
    "target ancestor binding changed"
  compareObjectIdentity (objects.identity target.parent) target.parentObject
    "target parent object identity changed"
  objects.rejectTraversal target.parent
  match target.pending with
  | [] => revalidateDirectoryLeaf objects target entries
  | head :: _ => requirePendingHeadAbsent target entries head

def PinnedTarget.revalidateBindingsForRecovery : Except CommitError Unit := do
  ensureBound objects target entries
  ensureAncestorsBound objects target entries "revalidate recovery ancestor"
    "target ancestor binding changed during recovery"
  compareObjectIdentity (objects.identity target.parent) target.parentObject
    "recovery parent object identity changed"
  objects.rejectTraversal target.parent
  Checks.when (target.pending = []) (revalidateDirectoryLeaf objects target entries)

/-! ## 3. Phases -/

def compareLeafAbsent : Except CommitError Unit :=
  match entries (target.parent, target.leaf) with
  | .found _ => .error (.staleTarget "target leaf presence changed")
  | .absent => .ok ()
  | .failed => .error (.ioFailure "revalidate target leaf")

def requireParentEntryAbsent (name : Text) : Except CommitError Unit :=
  match entries (target.parent, name) with
  | .found _ => .error (.invalidJournal "unexpected transaction staging entry remains")
  | .absent => .ok ()
  | .failed => .error (.ioFailure "inspect transaction entry")

/-- `apply` of an assertion, and `pin_replacement_source` of a removal without a leaf. -/
def PinnedTarget.apply : Except CommitError Unit :=
  match target.kind with
  | .removeLeaf => do
    target.revalidateBindings objects entries
    Checks.when (target.pending = []) (compareLeafAbsent target entries)
  | .assertAbsent => do
    target.revalidateBindings objects entries
    compareLeafAbsent target entries
    target.revalidateBindings objects entries

def PinnedTarget.requireAppliedBinding : Except CommitError Unit := do
  target.revalidateBindingsForRecovery objects entries
  match target.pending with
  | [] => requireParentEntryAbsent target entries target.leaf
  | head :: _ => requirePendingHeadAbsent target entries head

def PinnedTarget.verifyApplied : Except CommitError Unit := do
  target.revalidateBindingsForRecovery objects entries
  requireParentEntryAbsent target entries target.leaf
  Checks.when (target.kind = .removeLeaf)
    (requireParentEntryAbsent target entries (target.temporaryName "backup"))
  target.requireAppliedBinding objects entries

/-- What `rollback_incomplete_inner` does once the bindings are checked. -/
def PinnedTarget.rollbackAbsence : Except CommitError Unit := do
  requireParentEntryAbsent target entries target.leaf
  match target.kind with
  | .removeLeaf => requireParentEntryAbsent target entries (target.temporaryName "backup")
  | .assertAbsent =>
    reject (objects.syncs target.parent = false) (.ioFailure "sync recovered target parent")

def PinnedTarget.rollbackIncomplete : Except CommitError Unit := do
  target.revalidateBindingsForRecovery objects entries
  target.rollbackAbsence objects entries

def PinnedTarget.rollbackPinned : Except CommitError Unit := do
  compareObjectIdentity (objects.identity target.parent) target.parentObject
    "pinned rollback parent object identity changed"
  target.rollbackAbsence objects entries

inductive Phase where
  | apply
  | verifyApplied
  | rollbackIncomplete
  | rollbackPinned
deriving DecidableEq

def PinnedTarget.run : Phase → Except CommitError Unit
  | .apply => target.apply objects entries
  | .verifyApplied => target.verifyApplied objects entries
  | .rollbackIncomplete => target.rollbackIncomplete objects entries
  | .rollbackPinned => target.rollbackPinned objects entries

/-! ## 4. Pinning -/

def validateTargetDirectory (uid : Nat) (object : Nat) : Except CommitError Unit :=
  let identity := objects.identity object
  reject
    (FileType.fromRawMode identity.mode ≠ .directory ∨ identity.userId ≠ uid ∨
      identity.mode &&& 0o7022#32 ≠ 0)
    (.unsafeTarget "unsafe directory metadata")

def checkPinnedDirectory (uid object : Nat) (expected : FileIdentity) (changed : String) :
    Except CommitError Unit := do
  validateTargetDirectory objects uid object
  objects.rejectTraversal object
  reject (objects.identity object ≠ expected) (.staleTarget changed)

/-- The loop over the existing directories, with the identity observed of each. -/
def pinDirectories (uid : Nat) (directory : Nat) :
    List (Text × FileIdentity) → Except CommitError (List (Text × Nat))
  | [] => .ok []
  | (name, expected) :: rest =>
    match entries (directory, name) with
    | .found object => do
      reject (objects.opens object = false) (.ioFailure "open target ancestor")
      checkPinnedDirectory objects uid object expected
        (if rest = [] then "target parent identity changed" else "target ancestor identity changed")
      let below ← pinDirectories uid object rest
      return (name, object) :: below
    | _ => .error (.ioFailure "open target ancestor")

def PinnedTarget.requireStagingAbsent : Except CommitError Unit :=
  match target.kind with
  | .removeLeaf => do
    requireParentEntryAbsent target entries (target.temporaryName "backup")
    requireParentEntryAbsent target entries (target.temporaryName "delete-backup")
  | .assertAbsent => .ok ()

/-- `PinnedTarget::open` where no leaf was observed. -/
def openTarget (uid : Nat) (chain : List Binding) (root : Nat) (planDigest : Text) (index : Nat)
    (kind : AbsenceKind) (observation : TargetObservation) : Except CommitError PinnedTarget := do
  let segments := observation.relativePath.segments
  let parentSegments := segments.dropLast
  reject
    (parentSegments.length < observation.missingAncestors ∨
      0 < observation.missingAncestors ∧ observation.leaf.isPresent = true)
    (.invalidPlan "target missing-ancestor observation is inconsistent")
  let existing := parentSegments.take (parentSegments.length - observation.missingAncestors)
  reject (observation.ancestors.length ≠ existing.length - 1)
    (.invalidPlan "target ancestor count is inconsistent")
  checkPinnedDirectory objects uid root observation.traversalAnchor
    "target traversal anchor identity changed"
  reject (existing = [] ∧ observation.traversalAnchor ≠ observation.parent)
    (.invalidPlan "target observations conflict for a shared ancestor")
  let ancestors ← pinDirectories objects entries uid root
    (existing.zip (observation.ancestors ++ [observation.parent]))
  let target : PinnedTarget := {
    kind := kind
    chain := chain
    root := root
    ancestors := ancestors
    parent := (ancestors.getLast?.map Prod.snd).getD root
    parentObject := observation.parent
    leaf := segments.getLast?.getD []
    pending := parentSegments.drop existing.length
    planDigest := planDigest
    index := index }
  target.revalidateBindings objects entries
  reject (objects.identity target.parent ≠ target.parentObject)
    (.staleTarget "target parent identity changed")
  Checks.when (target.pending = []) do
    compareLeafAbsent target entries
    target.requireStagingAbsent entries
  return target

end Phases

end Malm.Commit
