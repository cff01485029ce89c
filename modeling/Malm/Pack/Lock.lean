/-
Malm.Pack.Lock — locked pack graphs (`malm-pack/src/lock.rs`).

What the constructors check is a field: a node has its canonical identity and its edges and
components in order, a lock passed `validateLock` with its nodes in identity order. The
identities are SHA-256 values (`LockCodec`).
-/
import Malm.Lib.Digraph
import Malm.Pack.Model

namespace Malm.Pack

open Commit Checks List

def maxDirectDependencies : Nat := 256
def maxComponents : Nat := 256
def maxLockNodes : Nat := 4096
def maxLockEdges : Nat := 16384

/-! ## 1. Nodes -/

inductive LockedSource where
  | root
  | git (source : GitSource)
  | localLocator (locator : Text)
deriving DecidableEq, Repr

def LockedSource.fromDependency : DependencySource → LockedSource
  | .git source => .git source
  | .localLocator locator => .localLocator locator

structure LockedDependency where
  aliasName : Alias
  targetNodeId : PackNodeId
deriving DecidableEq, Repr

structure LockedComponent where
  name : ContributionName
  path : PackPath
  digest : Digest
  interface : ComponentInterface
  executionProfile : Digest
deriving DecidableEq, Repr

def LockedComponent.fromDeclaration (declaration : BundledComponent) (executionProfile : Digest) :
    LockedComponent :=
  ⟨declaration.name, declaration.path, declaration.digest, declaration.interface, executionProfile⟩

def LockedComponent.agreesWith (component : LockedComponent) (declaration : BundledComponent) :
    Bool :=
  component.name = declaration.name && component.path = declaration.path &&
    component.digest = declaration.digest && component.interface = declaration.interface

structure LockedNode where
  nodeId : PackNodeId
  packageId : PackageId
  source : LockedSource
  contentDigest : Digest
  dependencies : List LockedDependency
  components : List LockedComponent
deriving DecidableEq, Repr

/-- The identities of nodes and graphs. -/
structure LockCodec where
  /-- `pack_node_id`. -/
  nodeId : LockedSource → PackageId → Digest → PackNodeId
  /-- `lock_graph_digest`, of the root and the nodes in identity order. -/
  graphDigest : PackNodeId → List LockedNode → Digest

inductive LockValidationError where
  | tooManyNodes (limit actual : Nat)
  | tooManyEdges (limit actual : Nat)
  | nodeLimitExceeded (collection : String) (limit actual : Nat)
  | duplicateNode (nodeId : PackNodeId)
  | nodeIdMismatch (found expected : PackNodeId)
  | missingRoot (nodeId : PackNodeId)
  | rootSourceCount (actual : Nat)
  | rootSourceMismatch (expected found : PackNodeId)
  | conflictingSource (first second : PackNodeId)
  | missingTarget (source : PackNodeId) (aliasName : Alias) (target : PackNodeId)
  | duplicateAlias (aliasName : Alias)
  | duplicateComponent (name : ContributionName)
  | cycle (nodes : List PackNodeId)
  | unreachableNode (nodeId : PackNodeId)
  | manifestMismatch (nodeId : PackNodeId) (detail : String)
deriving DecidableEq, Repr

def LockedDependency.sortKey (dependency : LockedDependency) : Alias ×ₗ PackNodeId :=
  toLex (dependency.aliasName, dependency.targetNodeId)

/-- The order `components.sort()` follows; there is one interface. -/
def LockedComponent.sortKey (component : LockedComponent) :
    ContributionName ×ₗ PackPath ×ₗ Digest ×ₗ Digest :=
  toLex (component.name, toLex (component.path, toLex (component.digest,
    component.executionProfile)))

def sortDependencies (dependencies : List LockedDependency) : List LockedDependency :=
  dependencies.insertionSort fun left right => left.sortKey ≤ right.sortKey

def sortComponents (components : List LockedComponent) : List LockedComponent :=
  components.insertionSort fun left right => left.sortKey ≤ right.sortKey

/-- The first value that the loop over `windows(2)` finds repeated. -/
def adjacentDuplicate {α : Type} [LinearOrder α] : List α → Option α
  | first :: second :: rest =>
    if first = second then some second else adjacentDuplicate (second :: rest)
  | _ => none

theorem pairwise_lt_of_adjacentDuplicate {α : Type} [LinearOrder α] :
    ∀ {vs : List α}, vs.Pairwise (· ≤ ·) → adjacentDuplicate vs = none →
      vs.Pairwise (· < ·)
  | [], _, _ => .nil
  | [v], _, _ => pairwise_singleton _ v
  | first :: second :: rest, h, hnone => by
    rw [adjacentDuplicate] at hnone
    split at hnone
    · cases hnone
    · rename_i hne
      rw [pairwise_cons] at h
      have hrest := pairwise_lt_of_adjacentDuplicate h.2 hnone
      have hfirst : first < second := lt_of_le_of_ne (h.1 second mem_cons_self) hne
      refine pairwise_cons.2 ⟨fun v hvalue => ?_, hrest⟩
      rcases mem_cons.1 hvalue with rfl | hvalue
      · exact hfirst
      · exact lt_trans hfirst ((pairwise_cons.1 hrest).1 v hvalue)

theorem adjacentDuplicate_of_pairwise_lt {α : Type} [LinearOrder α] :
    ∀ {vs : List α}, vs.Pairwise (· < ·) → adjacentDuplicate vs = none
  | [], _ => rfl
  | [_], _ => rfl
  | first :: snd :: rest, h => by
    rw [pairwise_cons] at h
    rw [adjacentDuplicate, if_neg (ne_of_lt (h.1 snd mem_cons_self)),
      adjacentDuplicate_of_pairwise_lt h.2]

theorem sortDependencies_aliases (deps : List LockedDependency) :
    ((sortDependencies deps).map LockedDependency.aliasName).Pairwise (· ≤ ·) := by
  have hsorted : (sortDependencies deps).Pairwise
      fun left right => left.sortKey ≤ right.sortKey :=
    pairwise_insertionSort _ deps
  refine pairwise_map.2 (hsorted.imp fun {left right} h => ?_)
  exact Prod.Lex.monotone_fst _ _ h

theorem sortComponents_names (comps : List LockedComponent) :
    ((sortComponents comps).map LockedComponent.name).Pairwise (· ≤ ·) := by
  have hsorted : (sortComponents comps).Pairwise
      fun left right => left.sortKey ≤ right.sortKey :=
    pairwise_insertionSort _ comps
  refine pairwise_map.2 (hsorted.imp fun {left right} h => ?_)
  exact Prod.Lex.monotone_fst _ _ h

/-- `LockedPackV1`: a node as its constructor leaves it. -/
structure LockedPack (codec : LockCodec) extends LockedNode where
  nodeId_eq : nodeId = codec.nodeId source packageId contentDigest
  dependencies_bounded : dependencies.length ≤ maxDirectDependencies
  components_bounded : components.length ≤ maxComponents
  aliases_sorted : (dependencies.map LockedDependency.aliasName).Pairwise (· < ·)
  names_sorted : (components.map LockedComponent.name).Pairwise (· < ·)
deriving DecidableEq

def LockedPack.new (codec : LockCodec) (packageId : PackageId) (source : LockedSource)
    (contentDigest : Digest) (dependencies : List LockedDependency)
    (components : List LockedComponent) : Except LockValidationError (LockedPack codec) :=
  if hdependencies : maxDirectDependencies < dependencies.length then
    .error (.nodeLimitExceeded "dependencies" maxDirectDependencies dependencies.length)
  else if hcomponents : maxComponents < components.length then
    .error (.nodeLimitExceeded "components" maxComponents components.length)
  else
    match haliases : adjacentDuplicate
        ((sortDependencies dependencies).map LockedDependency.aliasName) with
    | some aliasName => .error (.duplicateAlias aliasName)
    | none =>
      match hnames : adjacentDuplicate ((sortComponents components).map LockedComponent.name) with
      | some name => .error (.duplicateComponent name)
      | none =>
        .ok
          { nodeId := codec.nodeId source packageId contentDigest
            packageId := packageId
            source := source
            contentDigest := contentDigest
            dependencies := sortDependencies dependencies
            components := sortComponents components
            nodeId_eq := rfl
            dependencies_bounded := by
              rw [sortDependencies, List.length_insertionSort]
              exact not_lt.1 hdependencies
            components_bounded := by
              rw [sortComponents, List.length_insertionSort]
              exact not_lt.1 hcomponents
            aliases_sorted :=
              pairwise_lt_of_adjacentDuplicate (sortDependencies_aliases dependencies) haliases
            names_sorted :=
              pairwise_lt_of_adjacentDuplicate (sortComponents_names components) hnames }

/-! ## 2. Locks -/

section Locks

variable (codec : LockCodec)

def sortNodes (nodes : List (LockedPack codec)) : List (LockedPack codec) :=
  nodes.insertionSort fun left right => left.nodeId ≤ right.nodeId

variable {codec}

def findNode (nodes : List (LockedPack codec)) (nodeId : PackNodeId) : Option (LockedPack codec) :=
  nodes.find? fun node => node.nodeId = nodeId

def edgeTargets (nodes : List (LockedPack codec)) (nodeId : PackNodeId) : List PackNodeId :=
  match findNode nodes nodeId with
  | some node => node.dependencies.map LockedDependency.targetNodeId
  | none => []

/-- The loop that finds two nodes of one exact source. -/
def checkSources : List (LockedSource × PackNodeId) → List (LockedPack codec) →
    Except LockValidationError Unit
  | _, [] => .ok ()
  | seen, node :: rest =>
    if node.source = .root then
      checkSources seen rest
    else
      match seen.lookup node.source with
      | some first => .error (.conflictingSource first node.nodeId)
      | none => checkSources ((node.source, node.nodeId) :: seen) rest

def checkTargets (nodes : List (LockedPack codec)) : Except LockValidationError Unit :=
  nodes.forM fun node => node.dependencies.forM fun edge =>
    reject (edge.targetNodeId ∉ nodes.map fun node => node.nodeId)
      (.missingTarget node.nodeId edge.aliasName edge.targetNodeId)

/-- The checks of `LockV1::new` on its nodes in identity order. -/
def validateLock (rootNodeId : PackNodeId) (nodes : List (LockedPack codec)) :
    Except LockValidationError Unit := do
  let nodeIds := nodes.map fun node => node.nodeId
  reject (maxLockNodes < nodes.length) (.tooManyNodes maxLockNodes nodes.length)
  rejectSome (adjacentDuplicate nodeIds) .duplicateNode
  reject (rootNodeId ∉ nodeIds) (.missingRoot rootNodeId)
  let roots := nodes.filter fun node => node.source = .root
  reject (roots.length ≠ 1) (.rootSourceCount roots.length)
  rejectSome (roots.find? fun node => node.nodeId ≠ rootNodeId)
    fun node => .rootSourceMismatch rootNodeId node.nodeId
  checkSources [] nodes
  let edgeCount := (nodes.map fun node => node.dependencies.length).sum
  reject (maxLockEdges < edgeCount) (.tooManyEdges maxLockEdges edgeCount)
  checkTargets nodes
  rejectSome (Digraph.findCycle (edgeTargets nodes) nodeIds) .cycle
  let reachable := Digraph.reachable (edgeTargets nodes) nodeIds rootNodeId
  rejectSome (nodes.find? fun node => node.nodeId ∉ reachable)
    fun node => .unreachableNode node.nodeId

variable (codec)

/-- `LockV1`: a normalized, acyclic lock graph. -/
structure Lock where
  rootNodeId : PackNodeId
  nodes : List (LockedPack codec)
  sorted : nodes.Pairwise fun left right => left.nodeId ≤ right.nodeId
  valid : validateLock rootNodeId nodes = .ok ()
deriving DecidableEq

variable {codec}

theorem sortNodes_sorted (nodes : List (LockedPack codec)) :
    (sortNodes codec nodes).Pairwise fun left right => left.nodeId ≤ right.nodeId :=
  pairwise_insertionSort (fun left right : LockedPack codec => left.nodeId ≤ right.nodeId) nodes

def Lock.new (rootNodeId : PackNodeId) (nodes : List (LockedPack codec)) :
    Except LockValidationError (Lock codec) :=
  match valid : validateLock rootNodeId (sortNodes codec nodes) with
  | .error error => .error error
  | .ok () => .ok ⟨rootNodeId, sortNodes codec nodes, sortNodes_sorted nodes, valid⟩

def lockGraphDigest (lock : Lock codec) : Digest :=
  codec.graphDigest lock.rootNodeId (lock.nodes.map LockedPack.toLockedNode)

def Lock.validateManifest (lock : Lock codec) (nodeId : PackNodeId) (manifest : PackManifest) :
    Except LockValidationError Unit := do
  let node ← require (findNode lock.nodes nodeId) (.missingRoot nodeId)
  reject (node.packageId ≠ manifest.packageId)
    (.manifestMismatch nodeId "package ID differs")
  reject
    (node.components.length ≠ manifest.components.length ∨
      ¬ (node.components.zip manifest.components).all fun pair => pair.1.agreesWith pair.2)
    (.manifestMismatch nodeId "bundled component records differ")
  reject (node.dependencies.length ≠ manifest.dependencies.length)
    (.manifestMismatch nodeId "dependency counts differ")
  manifest.dependencies.forM fun declaration => do
    let edge ← require
      (node.dependencies.find? fun edge => edge.aliasName = declaration.aliasName)
      (.manifestMismatch nodeId "alias is missing from the lock")
    let target ← require (findNode lock.nodes edge.targetNodeId)
      (.missingTarget nodeId edge.aliasName edge.targetNodeId)
    reject (target.packageId ≠ declaration.packageId)
      (.manifestMismatch nodeId "alias targets another package")
    reject (target.source ≠ .fromDependency declaration.source)
      (.manifestMismatch nodeId "alias targets a different source")

end Locks

end Malm.Pack
