/-
Malm.Tree.Resolution — the tree that a graph stands for, and the resolution of
paths in it.

This is the purpose of `validate_symlinks`, not a function of the source. A path is
resolved as a file system does it: one segment after the other, a symlink replaced by
its target, which is read from the directory that holds the link.
-/
import Malm.Tree.Graph

namespace Malm.Tree

/-! ## 1. The unfolded tree -/

inductive Node where
  | directory (digest : Digest)
  | file
  | link (digest : Digest)
deriving DecidableEq, Repr

def TreeEntryKind.node : TreeEntryKind → Node
  | .file _ _ => .file
  | .directory digest => .directory digest.val
  | .safeRelativeSymlink digest => .link digest.val

section Unfolded

variable {sha256 : List UInt8 → Digest} (trees : SortedMap Digest (TreeObject sha256))

def Node.child : Node → Text → Option Node
  | .directory digest, name =>
    (trees.get? digest).bind fun tree =>
      (tree.entries.find? fun entry => entry.name.val = name).map fun entry => entry.kind.node
  | _, _ => none

def Node.descend : Node → List Text → Option Node
  | node, [] => some node
  | node, name :: names => (node.child trees name).bind fun next => next.descend names

variable (root : Digest)

def nodeAt (names : List Text) : Option Node := (Node.directory root).descend trees names

/-! ## 2. Resolution -/

/-- How a resolution ends. -/
inductive Outcome where
  | found (names : List Text)
  | missing
  | notDirectory
  | escaped
deriving DecidableEq, Repr

variable (symlinks : SortedMap Digest SymlinkObject)

/-- The remaining segments from `here`, in so many steps. A `..` at the root leaves the tree. -/
def resolve : Nat → List Text → List Text → Option Outcome
  | 0, _, _ => none
  | _ + 1, here, [] => some (.found here)
  | fuel + 1, here, segment :: rest =>
    if segment = [] ∨ segment = ['.'] then resolve fuel here rest
    else if segment = ['.', '.'] then
      if here = [] then some .escaped else resolve fuel here.dropLast rest
    else
      match nodeAt trees root (here ++ [segment]) with
      | none => some .missing
      | some (.directory _) => resolve fuel (here ++ [segment]) rest
      | some .file => some (if rest = [] then .found (here ++ [segment]) else .notDirectory)
      | some (.link digest) =>
        match symlinks.get? digest with
        | none => some .missing
        | some object =>
          if object.val.head? = some '/' then some .escaped
          else resolve fuel here (object.val.segments ++ rest)

/-- The resolution ends instead of looping. -/
def Terminates (here rest : List Text) : Prop :=
  ∃ fuel outcome, resolve trees root symlinks fuel here rest = some outcome

def Escapes (here rest : List Text) : Prop :=
  ∃ fuel, resolve trees root symlinks fuel here rest = some .escaped

end Unfolded

/-- The segments never go above their start by more than `depth` levels. -/
def staysInside : Nat → List Text → Bool
  | _, [] => true
  | depth, segment :: rest =>
    if segment = [] ∨ segment = ['.'] then staysInside depth rest
    else if segment = ['.', '.'] then depth ≠ 0 && staysInside (depth - 1) rest
    else staysInside (depth + 1) rest

end Malm.Tree
