/-
Malm.Target.System — the managed target file systems as preparation and commit see them.

A target system maps an authority and a relative path to the entry found there, with what
`stat` reports and the contents as far as the code compares them. What the resolution of a
path finds through a symbolic link is given by two functions (`resolved`, `readThrough`),
about which nothing is assumed.
-/
import Malm.Commit.Canonical

namespace Malm.Target

open Store Commit

/-! ## 1. Entries -/

/-- `rustix::fs::FileType`, without the kinds the code never tells apart. -/
inductive FileType where
  | regularFile
  | directory
  | symlink
  | special
deriving DecidableEq, Repr

def FileType.fromRawMode (mode : BitVec 32) : FileType :=
  if mode &&& 0o170000#32 = 0o100000#32 then .regularFile
  else if mode &&& 0o170000#32 = 0o040000#32 then .directory
  else if mode &&& 0o170000#32 = 0o120000#32 then .symlink
  else .special

inductive EntryKind where
  | file (contents : Contents)
  | directory
  | symlink (target : Text)
  | special
deriving DecidableEq, Repr

def EntryKind.fileType : EntryKind → FileType
  | file _ => .regularFile
  | directory => .directory
  | symlink _ => .symlink
  | special => .special

/-- One object of the file system; `accessible`: this process can open and search it. -/
structure Entry where
  kind : EntryKind
  identity : FileIdentity
  accessible : Bool
  typed : FileType.fromRawMode identity.mode = kind.fileType
  sized : ∀ contents, kind = .file contents → identity.size = contents.byteLen

/-- An authority and a path relative to its root. -/
abbrev TargetKey := DeploymentName × Text

/-! ## 2. The file system -/

/-- What `symlink_metadata` answers: the entry, `NotFound`, or another error. -/
inductive Probe where
  | found
  | notFound
  | failed
deriving DecidableEq, Repr

def directoriesAbove (path : Text) : List Text := [] :: path.ancestorPaths

/-- The file systems below all target authorities, found in directories. -/
structure TargetSystem where
  entries : SortedMap (DeploymentName ×ₗ Text) Entry
  resolved : TargetKey → Probe
  readThrough : TargetKey → Option Contents
  closed : ∀ pair ∈ entries.entries, (ofLex pair.1).2 ≠ [] →
    ∀ above ∈ directoriesAbove (ofLex pair.1).2,
      (entries.get? (toLex ((ofLex pair.1).1, above))).any (·.kind = .directory) = true

namespace TargetSystem

/-- The entry at a path, without following links. -/
def entry (system : TargetSystem) (key : TargetKey) : Option Entry :=
  system.entries.get? (toLex key)

theorem directory_above {system : TargetSystem} {key : TargetKey} {found : Entry} {above : Text}
    (h : system.entry key = some found) (hkey : key.2 ≠ [])
    (habove : above ∈ directoriesAbove key.2) :
    ∃ dir, system.entry (key.1, above) = some dir ∧ dir.kind = .directory := by
  have hclosed := system.closed _ (SortedMap.get?_eq_some.1 h) hkey above habove
  obtain ⟨dir, hdir, hkind⟩ := (Option.any_eq_true _ _).1 hclosed
  exact ⟨dir, hdir, by simpa using hkind⟩

def isEmptyDirectory (system : TargetSystem) (key : TargetKey) : Bool :=
  !system.entries.keys.any fun candidate =>
    (ofLex candidate).1 = key.1 && key.2.isAncestor (ofLex candidate).2

/-- `std::fs::symlink_metadata`, from the directories still to pass. -/
def probeFrom (system : TargetSystem) (key : TargetKey) : List Text → Probe
  | [] => if (system.entry key).isSome then .found else .notFound
  | above :: rest =>
    match system.entry (key.1, above) with
    | none => .notFound
    | some entry =>
      match entry.kind with
      | .directory => if entry.accessible then system.probeFrom key rest else .failed
      | .symlink _ => system.resolved key
      | _ => .failed

/-- `std::fs::symlink_metadata(root.join(path))`. -/
def probe (system : TargetSystem) (key : TargetKey) : Probe :=
  system.probeFrom key (directoriesAbove key.2)

/-- `std::fs::read` of an entry, as the kernel resolves it. -/
def readEntry (system : TargetSystem) (key : TargetKey) (entry : Entry) : Option Contents :=
  match entry.kind with
  | .file contents => if entry.accessible then some contents else none
  | .directory => none
  | .symlink _ => system.readThrough key
  | .special => system.readThrough key

/-- `std::fs::read`, from the directories still to pass. -/
def readFrom (system : TargetSystem) (key : TargetKey) : List Text → Option Contents
  | [] => (system.entry key).bind (system.readEntry key)
  | above :: rest =>
    match system.entry (key.1, above) with
    | none => none
    | some entry =>
      match entry.kind with
      | .directory => if entry.accessible then system.readFrom key rest else none
      | .symlink _ => system.readThrough key
      | _ => none

/-- `std::fs::read(root.join(path))`. -/
def read (system : TargetSystem) (key : TargetKey) : Option Contents :=
  system.readFrom key (directoriesAbove key.2)

end TargetSystem

end Malm.Target
