/-
Malm.Tree.Graph — tree graphs (`malm-tree/src/graph.rs`).

The walk visits every path of the unfolded tree, on the levels that are left. The queue of
`validate_symlinks` visits a link at most once. The lookups that the source expects to
succeed are required here.
-/
import Malm.Lib.Topological
import Malm.Tree.Codec

namespace Malm.Tree

open Checks

/-! ## 1. Values -/

structure TreeSummary where
  entries : Nat
  fileBytes : Nat
  depth : Nat
deriving DecidableEq, Repr

inductive TreeGraphError where
  | missingTreeObject (digest : Digest) (path : Text)
  | missingSymlinkObject (digest : Digest) (path : Text)
  | objectDigestCollision (digest : Digest)
  | directoryCycle (digest : Digest) (path : Text)
  | symlinkCycle (path : Text)
  | directoryModeMismatch (path : Text) (entryMode rootMode : BitVec 32)
  | unsafeSymlink (path : Text) (reason : String)
  | depthExceeded (path : Text) (limit actual : Nat)
  | pathTooLong (pathBytes limit : Nat)
  | tooManyEntries (limit actual : Nat)
  | aggregateFileBytesExceeded (limit actual : Nat)
  | conflictingFileLength (digest : Digest) (first second : Nat)
deriving DecidableEq, Repr

/-- `WalkState`, with the lengths by digest, the latest first. -/
structure WalkState where
  entries : Nat
  fileBytes : Nat
  depth : Nat
  fileLengths : List (Digest × Nat)
  links : SortedMap Text Digest

def WalkState.default : WalkState := ⟨0, 0, 0, [], .empty⟩

theorem TreeObject.eq_iff {sha256 : List UInt8 → Digest} {left right : TreeObject sha256} :
    left.rootMode = right.rootMode ∧ left.entries = right.entries ↔ left = right := by
  constructor
  · rintro ⟨hmode, hentries⟩
    exact TreeObject.ext hmode hentries
  · rintro rfl
    exact ⟨rfl, rfl⟩

instance {sha256 : List UInt8 → Digest} : DecidableEq (TreeObject sha256) :=
  fun _ _ => decidable_of_iff _ TreeObject.eq_iff

/-! ## 2. Paths -/

def joinPath (parent child : Text) : Text :=
  if parent.isEmpty then child else parent ++ '/' :: child

/-- `path.rsplit_once('/')`: everything before the last slash, else nothing. -/
def parentPath (path : Text) : Text := path.ancestorPaths.getLast?.getD []

def safeTargetPath (path target : Text) : Except TreeGraphError Text := do
  reject (target.head? = some '/') (.unsafeSymlink path "target must be relative")
  reject ('\\' ∈ target) (.unsafeSymlink path "target must not contain backslash")
  target.segments.forM fun segment =>
    (validatePathSegment segment).mapError fun _ =>
      .unsafeSymlink path "target must contain only canonical path segments"
  let parent := parentPath path
  let resolved := if parent.isEmpty then target else joinPath parent target
  reject (maxTreeDepth < resolved.segments.length)
    (.unsafeSymlink path "resolved target exceeds the tree depth limit")
  reject (maxTreePathBytes < resolved.byteLen)
    (.unsafeSymlink path "resolved target exceeds the tree path byte limit")
  return resolved

/-! ## 3. The walk -/

def enterEntry (path : Text) (entryDepth : Nat) (state : WalkState) :
    Except TreeGraphError WalkState := do
  reject (maxTreeDepth < entryDepth) (.depthExceeded path maxTreeDepth entryDepth)
  reject (maxTreePathBytes < path.byteLen) (.pathTooLong path.byteLen maxTreePathBytes)
  reject (maxTreeEntries < state.entries + 1)
    (.tooManyEntries maxTreeEntries (state.entries + 1))
  return { state with
    entries := state.entries + 1
    depth := max state.depth entryDepth }

def enterFile (state : WalkState) (digest : Digest) (byteLen : Nat) :
    Except TreeGraphError WalkState := do
  let total := state.fileBytes + byteLen
  reject (maxTreeAggregateFileBytes < total)
    (.aggregateFileBytesExceeded maxTreeAggregateFileBytes total)
  rejectSome ((state.fileLengths.lookup digest).filter fun first => first ≠ byteLen)
    fun first => .conflictingFileLength digest first byteLen
  return { state with
    fileBytes := total
    fileLengths := (digest, byteLen) :: state.fileLengths }

section Walk

variable {sha256 : List UInt8 → Digest} (trees : SortedMap Digest (TreeObject sha256))
  (symlinks : SortedMap Digest SymlinkObject)

def enterSymlink (state : WalkState) (path : Text) (digest : Digest) :
    Except TreeGraphError WalkState := do
  reject (symlinks.contains digest = false) (.missingSymlinkObject digest path)
  return { state with links := state.links.insert path digest }

def walkEntry (descend : Digest → Text → WalkState → Except TreeGraphError WalkState)
    (path : Text) (depth : Nat) (state : WalkState) (entry : TreeEntry) :
    Except TreeGraphError WalkState := do
  let entryPath := joinPath path entry.name.val
  let state ← enterEntry entryPath (depth + 1) state
  match entry.kind with
  | .file digest byteLen => enterFile state digest.val byteLen
  | .directory child => do
    let childTree ← require (trees.get? child.val) (.missingTreeObject child.val entryPath)
    reject (entry.mode ≠ childTree.rootMode)
      (.directoryModeMismatch entryPath entry.mode childTree.rootMode)
    descend child.val entryPath state
  | .safeRelativeSymlink digest => enterSymlink symlinks state entryPath digest.val

def walkObject (descend : Digest → Text → WalkState → Except TreeGraphError WalkState)
    (digest : Digest) (path : Text) (depth : Nat) (ancestors : List Digest) (state : WalkState) :
    Except TreeGraphError WalkState := do
  reject (digest ∈ ancestors) (.directoryCycle digest path)
  let tree ← require (trees.get? digest) (.missingTreeObject digest path)
  tree.entries.foldlM (walkEntry trees symlinks descend path depth) state

/-- `walk_tree` with the levels left; without one, every entry is too deep. -/
def walkTree : Nat → Digest → Text → Nat → List Digest → WalkState →
    Except TreeGraphError WalkState
  | 0, digest, path, depth, ancestors, state =>
    walkObject trees symlinks
      (fun _ entryPath _ => .error (.depthExceeded entryPath maxTreeDepth (depth + 1)))
      digest path depth ancestors state
  | left + 1, digest, path, depth, ancestors, state =>
    walkObject trees symlinks
      (fun child entryPath state =>
        walkTree left child entryPath (depth + 1) (digest :: ancestors) state)
      digest path depth ancestors state

end Walk

/-! ## 4. Symlinks -/

/-- The links among the prefixes of a resolved target, the shortest first. -/
def dependencies (links : SortedMap Text Digest) (target : Text) : List Text :=
  (target.segments.foldl
    (fun state segment =>
      if segment.isEmpty then state
      else
        let path := joinPath state.1 segment
        (path, if links.contains path then state.2 ++ [path] else state.2))
    (([], []) : Text × List Text)).2

/-- The two maps of `validate_symlinks`. -/
structure LinkGraph where
  edges : SortedMap Text (List Text)
  incoming : SortedMap Text Nat

/-- One edge: pushed to the edges of `path`, and counted at its end. -/
def LinkGraph.addEdge (path : Text) (graph : LinkGraph) (dependency : Text) : LinkGraph where
  edges := graph.edges.insert path ((graph.edges.get? path).getD [] ++ [dependency])
  incoming :=
    graph.incoming.insert dependency ((graph.incoming.get? dependency).getD 0 + 1)

/-- The edges of `validate_symlinks`, from each link to those its target passes. -/
def linkGraph (links : SortedMap Text Digest) (targets : List (Text × Text)) : LinkGraph :=
  targets.foldl
    (fun graph target => (dependencies links target.2).foldl (LinkGraph.addEdge target.1) graph)
    ⟨.empty, links.keys.foldl (fun incoming path => incoming.insert path 0) .empty⟩

def resolveTargets (links : SortedMap Text Digest) (symlinks : SortedMap Digest SymlinkObject) :
    Except TreeGraphError (List (Text × Text)) :=
  links.entries.mapM fun link => do
    let object ← require (symlinks.get? link.2) (.missingSymlinkObject link.2 link.1)
    let resolved ← safeTargetPath link.1 object.val
    return (link.1, resolved)

def validateSymlinks (links : SortedMap Text Digest) (symlinks : SortedMap Digest SymlinkObject) :
    Except TreeGraphError Unit := do
  let targets ← resolveTargets links symlinks
  let graph := linkGraph links targets
  let ready := (graph.incoming.entries.filter fun entry => entry.2 = 0).map Prod.fst
  let visited := Topological.visit (fun path => (graph.edges.get? path).getD [])
    links.entries.length ready graph.incoming 0
  let left := visited.2.entries.find? fun entry => entry.2 ≠ 0
  reject (visited.1 ≠ visited.2.entries.length) (.symlinkCycle ((left.map Prod.fst).getD []))

/-! ## 5. Graphs -/

section Graphs

variable {sha256 : List UInt8 → Digest}

def validateGraph (root : Digest) (trees : SortedMap Digest (TreeObject sha256))
    (symlinks : SortedMap Digest SymlinkObject) : Except TreeGraphError TreeSummary := do
  reject (trees.contains root = false) (.missingTreeObject root [])
  let state ← walkTree trees symlinks maxTreeDepth root [] 0 [] .default
  validateSymlinks state.links symlinks
  return ⟨state.entries, state.fileBytes, state.depth⟩

/-- The objects by their identities, as `TreeGraphV1::new` indexes them. -/
def indexObjects {α : Type} [DecidableEq α] (identity : α → Digest) (objects : List α) :
    Except TreeGraphError (SortedMap Digest α) :=
  objects.foldlM
    (fun index object => do
      reject ((index.get? (identity object)).any (· ≠ object))
        (.objectDigestCollision (identity object))
      return index.insert (identity object) object)
    .empty

variable (sha256)

/-- `TreeGraphV1`: indexed objects that `validate_graph` accepted. -/
structure TreeGraph where
  root : Digest
  trees : SortedMap Digest (TreeObject sha256)
  symlinks : SortedMap Digest SymlinkObject
  summary : TreeSummary
  valid : validateGraph root trees symlinks = .ok summary

variable {sha256}

def TreeGraph.new (root : Digest) (trees : List (TreeObject sha256))
    (symlinks : List SymlinkObject) : Except TreeGraphError (TreeGraph sha256) := do
  let treeIndex ← indexObjects treeObjectDigest trees
  let symlinkIndex ← indexObjects (symlinkObjectDigest sha256) symlinks
  match h : validateGraph root treeIndex symlinkIndex with
  | .ok summary => .ok ⟨root, treeIndex, symlinkIndex, summary, h⟩
  | .error error => .error error

end Graphs

end Malm.Tree
