/-
Malm.Pack.LockValidity — which node lists are locks (`malm-pack/src/lock.rs`).

`LockV1::new` accepts exactly the lists that are a lock graph
(`validateLock_ok_iff`), whatever their order (`Lock.new_perm`). The nodes of a
lock have one order in which targets come first and the least node that can come
next does (`Lock.dependencyOrder_topological`).
-/
import Malm.Lib.Failures
import Malm.Pack.ResolveLock

namespace Malm.Pack

open Commit Checks List Lock

variable {codec : LockCodec}

/-! ## 1. Lock graphs -/

def LockEdge (nodes : List (LockedPack codec)) (source target : PackNodeId) : Prop :=
  ∃ node ∈ nodes, node.nodeId = source ∧ ∃ edge ∈ node.dependencies, edge.targetNodeId = target

structure LockGraph (rootNodeId : PackNodeId) (nodes : List (LockedPack codec)) : Prop where
  nodes_bounded : nodes.length ≤ maxLockNodes
  ids_nodup : (nodes.map fun node => node.nodeId).Nodup
  root : ∃ root, (nodes.filter fun node => node.source = .root) = [root] ∧
    root.nodeId = rootNodeId
  sources_nodup : ((nodes.filter fun node => node.source ≠ .root).map
    fun node => node.source).Nodup
  edges_bounded : (nodes.map fun node => node.dependencies.length).sum ≤ maxLockEdges
  targets_exist : ∀ source target, LockEdge nodes source target →
    target ∈ nodes.map fun node => node.nodeId
  acyclic : ∀ nodeId, ¬ Relation.TransGen (LockEdge nodes) nodeId nodeId
  reachable : ∀ node ∈ nodes, Relation.ReflTransGen (LockEdge nodes) rootNodeId node.nodeId

variable {rootNodeId : PackNodeId} {nodes others : List (LockedPack codec)}

theorem LockEdge.perm (h : nodes.Perm others) : LockEdge nodes = LockEdge others := by
  funext source target
  unfold LockEdge
  simp only [h.mem_iff]

theorem LockGraph.perm (hgraph : LockGraph rootNodeId nodes) (h : nodes.Perm others) :
    LockGraph rootNodeId others := by
  obtain ⟨root, hroot, hid⟩ := hgraph.root
  constructor
  case nodes_bounded => exact h.length_eq ▸ hgraph.nodes_bounded
  case ids_nodup => exact (h.map _).nodup_iff.1 hgraph.ids_nodup
  case root => exact ⟨root, perm_singleton.1 (hroot ▸ (h.filter _).symm), hid⟩
  case sources_nodup => exact ((h.filter _).map _).nodup_iff.1 hgraph.sources_nodup
  case edges_bounded => exact (h.map fun node => node.dependencies.length).sum_eq ▸ hgraph.edges_bounded
  case targets_exist =>
    intro src t hedge
    rw [← LockEdge.perm h] at hedge
    exact (h.map _).mem_iff.1 (hgraph.targets_exist src t hedge)
  case acyclic => exact LockEdge.perm h ▸ hgraph.acyclic
  case reachable =>
    intro node hnode
    exact LockEdge.perm h ▸ hgraph.reachable node (h.mem_iff.2 hnode)

theorem edgeIn_eq_lockEdge (hids : (nodes.map fun node => node.nodeId).Nodup) :
    EdgeIn nodes = LockEdge nodes := by
  funext source target
  exact propext (edgeIn_iff hids)

/-! ## 2. The checks on a sorted list -/

theorem LockGraph.all_sources_nodup (h : LockGraph rootNodeId nodes) :
    (nodes.map fun node => node.source).Nodup := by
  obtain ⟨root, hroot, -⟩ := h.root
  refine List.Nodup.map_on ?_ (List.Nodup.of_map _ h.ids_nodup)
  intro left hleft right hright heq
  by_cases hsource : left.source = .root
  · have hmem : ∀ node ∈ nodes, node.source = .root → node = root := by
      intro node hnode hsource
      have hin : node ∈ nodes.filter fun node => node.source = .root :=
        mem_filter.2 ⟨hnode, decide_eq_true hsource⟩
      rw [hroot] at hin
      exact mem_singleton.1 hin
    rw [hmem left hleft hsource, hmem right hright (heq ▸ hsource)]
  · exact inj_on_of_nodup_map h.sources_nodup
      (mem_filter.2 ⟨hleft, decide_eq_true hsource⟩)
      (mem_filter.2 ⟨hright, decide_eq_true (heq ▸ hsource)⟩) heq

theorem validateLock_ok_iff
    (hsorted : nodes.Pairwise fun left right => left.nodeId ≤ right.nodeId) :
    validateLock rootNodeId nodes = .ok () ↔ LockGraph rootNodeId nodes := by
  constructor
  · intro h
    let lock : Lock codec := ⟨rootNodeId, nodes, hsorted, h⟩
    obtain ⟨-, -, -, -, -, htargets, hcycle, hreachable⟩ := lock.checks
    have hids : (nodes.map fun node => node.nodeId).Nodup := lock.nodeIds_nodup
    obtain ⟨root, hroot, -, -, hid⟩ := lock.rootNode
    simp only [validateLock, bind_ok, exists_unit, reject_ok, not_lt] at h
    obtain ⟨hnodes, -, -, -, -, -, hedges, -⟩ := h
    constructor
    case nodes_bounded => exact hnodes
    case ids_nodup => exact hids
    case root => exact ⟨root, hroot, hid⟩
    case sources_nodup =>
      refine List.Nodup.map_on ?_ ((List.Nodup.of_map _ hids).filter _)
      intro left hleft right hright heq
      rw [mem_filter, decide_eq_true_eq] at hleft hright
      exact lock.eq_of_source hleft.1 hright.1 hleft.2 heq
    case edges_bounded => exact hedges
    case targets_exist =>
      intro src t hedge
      obtain ⟨node, hnode, -, edge, hin, rfl⟩ := hedge
      exact htargets node hnode edge hin
    case acyclic =>
      intro nodeId hback
      obtain ⟨mid, hedge, -⟩ := Relation.TransGen.head'_iff.1 hback
      obtain ⟨node, hnode, rfl, -⟩ := hedge
      rw [← edgeIn_eq_lockEdge hids] at hback
      exact lock.acyclic (mem_map.2 ⟨node, hnode, rfl⟩) hback
    case reachable =>
      intro node hnode
      rw [← edgeIn_eq_lockEdge hids]
      exact Digraph.reachable_sound (hreachable node hnode)
  · intro h
    obtain ⟨root, hroot, hid⟩ := h.root
    have hmem : root ∈ nodes.filter fun node => node.source = .root := by
      rw [hroot]
      exact mem_singleton_self root
    rw [mem_filter, decide_eq_true_eq] at hmem
    refine validateLock_of hsorted h.ids_nodup h.all_sources_nodup
      ⟨root, hmem.1, hmem.2, hid⟩ h.nodes_bounded h.edges_bounded ?_ ?_ ?_
    · intro node hnode edge hedge
      exact h.targets_exist node.nodeId edge.targetNodeId ⟨node, hnode, rfl, edge, hedge, rfl⟩
    · exact edgeIn_eq_lockEdge h.ids_nodup ▸ h.acyclic
    · exact edgeIn_eq_lockEdge h.ids_nodup ▸ h.reachable

theorem checkSources_error {error : LockValidationError} {seen : List (LockedSource × PackNodeId)}
    (h : checkSources seen nodes = .error error) :
    ∃ first second, error = .conflictingSource first second := by
  induction nodes generalizing seen with
  | nil => cases h
  | cons node rest ih =>
    rw [checkSources] at h
    split at h
    · exact ih h
    · split at h
      · rename_i first _
        cases h
        exact ⟨first, node.nodeId, rfl⟩
      · exact ih h

theorem validateLock_cycle {cycle : List PackNodeId}
    (hsorted : nodes.Pairwise fun left right => left.nodeId ≤ right.nodeId)
    (h : validateLock rootNodeId nodes = .error (.cycle cycle)) :
    cycle.IsChain (LockEdge nodes) ∧ ∃ node inner, cycle = node :: (inner ++ [node]) := by
  simp only [validateLock, bind_error, exists_unit, reject_error,
    rejectSome_error, reject_ok, rejectSome_ok, checkTargets, reduceCtorEq,
    and_false, exists_false, false_or, or_false, not_not] at h
  obtain ⟨-, hdup, -, -, -, h⟩ := h
  have hids : (nodes.map fun node => node.nodeId).Nodup :=
    (adjacentDuplicate_eq_none (pairwise_map.2 hsorted)).1 hdup
  rcases h with h | ⟨-, -, h⟩
  · obtain ⟨first, snd, heq⟩ := checkSources_error h
    cases heq
  rcases h with h | ⟨htargets, h⟩
  · obtain ⟨node, -, h⟩ := forM_error h
    obtain ⟨edge, -, h⟩ := forM_error h
    cases (reject_error.1 h).2
  obtain ⟨found, hfound, heq⟩ := h
  cases heq
  simp only [forM_ok, reject_ok, not_not] at htargets
  have hcycle := Digraph.findCycle_isCycle (edgeTargets_subset hids htargets) hfound
  exact ⟨edgeIn_eq_lockEdge hids ▸ hcycle.path, hcycle.closed⟩

/-! ## 3. The constructor -/

theorem Lock.new_error {error : LockValidationError} :
    new rootNodeId nodes = .error error ↔
      validateLock rootNodeId (sortNodes codec nodes) = .error error := by
  unfold new
  split
  · rename_i found hfound
    rw [hfound, Except.error.injEq, Except.error.injEq]
  · rename_i hvalid
    constructor
    · intro h
      cases h
    · intro h
      rw [hvalid] at h
      cases h

theorem Lock.new_congr (h : sortNodes codec nodes = sortNodes codec others) :
    new rootNodeId nodes = new rootNodeId others := by
  cases hnodes : new rootNodeId nodes with
  | error error =>
    rw [new_error, h] at hnodes
    exact (new_error.2 hnodes).symm
  | ok lock =>
    rw [new_ok, h] at hnodes
    exact (new_ok.2 hnodes).symm

theorem perm_sortNodes (nodes : List (LockedPack codec)) : (sortNodes codec nodes).Perm nodes :=
  perm_insertionSort _ nodes

theorem sortNodes_perm (hids : (nodes.map fun node => node.nodeId).Nodup)
    (h : nodes.Perm others) : sortNodes codec nodes = sortNodes codec others := by
  refine List.Perm.eq_of_pairwise ?_ (sortNodes_sorted nodes) (sortNodes_sorted others)
    (((perm_sortNodes nodes).trans h).trans (perm_sortNodes others).symm)
  intro left right hleft hright hle hge
  exact inj_on_of_nodup_map hids ((perm_sortNodes nodes).mem_iff.1 hleft)
    (h.mem_iff.2 ((perm_sortNodes others).mem_iff.1 hright)) (le_antisymm hle hge)

theorem sortNodes_ids_perm (h : nodes.Perm others) :
    (sortNodes codec nodes).map (fun node => node.nodeId) =
      (sortNodes codec others).map fun node => node.nodeId := by
  refine List.Perm.eq_of_pairwise ?_ (pairwise_map.2 (sortNodes_sorted nodes))
    (pairwise_map.2 (sortNodes_sorted others))
    ((((perm_sortNodes nodes).trans h).trans (perm_sortNodes others).symm).map _)
  intro left right _ _ hle hge
  exact le_antisymm hle hge

theorem validateLock_duplicate {nodeId : PackNodeId}
    (h : adjacentDuplicate (nodes.map fun node => node.nodeId) = some nodeId) :
    validateLock rootNodeId nodes = if maxLockNodes < nodes.length then
      .error (.tooManyNodes maxLockNodes nodes.length) else .error (.duplicateNode nodeId) := by
  by_cases hbound : maxLockNodes < nodes.length
  · rw [if_pos hbound, validateLock, reject, if_pos hbound]
    rfl
  · rw [if_neg hbound, validateLock, reject, if_neg hbound, h]
    rfl

theorem Lock.new_perm (h : nodes.Perm others) :
    new rootNodeId others = new rootNodeId nodes := by
  by_cases hids : (nodes.map fun node => node.nodeId).Nodup
  · exact new_congr (sortNodes_perm hids h).symm
  · have hlen := (((perm_sortNodes nodes).trans h).trans (perm_sortNodes others).symm).length_eq
    rw [← ((perm_sortNodes nodes).map _).nodup_iff,
      ← adjacentDuplicate_eq_none (pairwise_map.2 (sortNodes_sorted nodes))] at hids
    obtain ⟨nodeId, hdup⟩ := Option.ne_none_iff_exists'.1 hids
    have hother := hdup
    rw [sortNodes_ids_perm h] at hother
    -- Both lists fail at the same check, which only reads the identities.
    have hsame : validateLock rootNodeId (sortNodes codec nodes) =
        validateLock rootNodeId (sortNodes codec others) := by
      rw [validateLock_duplicate hdup, validateLock_duplicate hother, hlen]
    obtain ⟨error, herror⟩ : ∃ error, validateLock rootNodeId (sortNodes codec nodes) =
        .error error := by
      rw [validateLock_duplicate hdup]
      split
      · exact ⟨_, rfl⟩
      · exact ⟨_, rfl⟩
    rw [new_error.2 herror, new_error.2 (hsame ▸ herror)]

/-- **The constructor accepts exactly the lock graphs**, for every order of the nodes. -/
theorem Lock.new_exact (rootNodeId : PackNodeId) (nodes : List (LockedPack codec)) :
    ((∃ lock, new rootNodeId nodes = .ok lock) ↔ LockGraph rootNodeId nodes) ∧
    (∀ cycle, new rootNodeId nodes = .error (.cycle cycle) →
      cycle.IsChain (LockEdge nodes) ∧ ∃ node inner, cycle = node :: (inner ++ [node])) ∧
    ∀ others, nodes.Perm others →
      new rootNodeId others = new rootNodeId nodes ∧
      (new rootNodeId others).map lockGraphDigest =
        (new rootNodeId nodes).map lockGraphDigest := by
  have hperm := perm_sortNodes nodes
  refine ⟨?_, ?_, ?_⟩
  · have hiff : validateLock rootNodeId (sortNodes codec nodes) = .ok () ↔
        LockGraph rootNodeId (sortNodes codec nodes) := validateLock_ok_iff (sortNodes_sorted nodes)
    constructor
    · intro h
      obtain ⟨lock, hlock⟩ := h
      obtain ⟨hroot, hnodes⟩ := new_ok.1 hlock
      have hvalid := lock.valid
      rw [hroot, hnodes] at hvalid
      exact (hiff.1 hvalid).perm hperm
    · intro h
      have hvalid := hiff.2 (h.perm hperm.symm)
      exact ⟨⟨rootNodeId, _, sortNodes_sorted nodes, hvalid⟩, new_ok.2 ⟨rfl, rfl⟩⟩
  · intro cycle h
    rw [← LockEdge.perm hperm]
    exact validateLock_cycle (sortNodes_sorted nodes) (new_error.1 h)
  · intro others h
    rw [new_perm h]
    exact ⟨rfl, rfl⟩

/-! ## 4. The dependency order -/

theorem Lock.targetLists_ids (lock : Lock codec) : lock.targetLists.map Prod.fst = lock.nodeIds := by
  rw [targetLists, map_map]
  rfl

/-- **The order of a lock holds every node once, after its targets, the least ready one
first.** -/
theorem Lock.dependencyOrder_topological (lock : Lock codec) :
    lock.countedOrder = some lock.dependencyOrder ∧
    lock.dependencyOrder.Perm lock.nodeIds ∧
    ∀ before node after, lock.dependencyOrder = before ++ node :: after →
      (∀ target, LockEdge lock.nodes node target → target ∈ before) ∧
      ∀ other ∈ lock.nodeIds, other ∉ before →
        (∀ target, LockEdge lock.nodes other target → target ∈ before) → node ≤ other := by
  have hedge : ∀ source target, LockEdge lock.nodes source target ↔
      target ∈ edgeTargets lock.nodes source := by
    intro source target
    exact (edgeIn_iff lock.nodeIds_nodup).symm
  refine ⟨?_, lock.dependencyOrder_perm, ?_⟩
  · have hcounted : lock.countedOrder = some (Digraph.dependencyOrder
        (lock.targetLists.map Prod.fst) (edgeTargets lock.nodes)) := by
      refine Digraph.countedOrder_eq (lock.targetLists_ids ▸ lock.nodeIds_nodup) ?_
      intro entry hentry
      obtain ⟨node, hnode, rfl⟩ := mem_map.1 hentry
      exact lock.edgeTargets_eq hnode
    rw [hcounted, lock.targetLists_ids]
    rfl
  · intro before node after hsplit
    have hleast := Digraph.dependencyOrder_leastFirst before node after hsplit
    simp only [hedge]
    refine ⟨hleast.1.2.2, ?_⟩
    intro other hmem hfresh hready
    exact hleast.2 ⟨hmem, hfresh, hready⟩

end Malm.Pack
