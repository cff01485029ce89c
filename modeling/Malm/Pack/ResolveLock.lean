/-
Malm.Pack.ResolveLock — the lock that a resolution builds.

The nodes of the lock are the discovered sources. `LockV1::new` accepts them
unless the sources form a cycle (`lockDiscovered_ok`), so a resolution
succeeds exactly when the closure exists within the limits
(`resolveGraph_ok_iff`).
-/
import Malm.Pack.ResolveTheorems
import Malm.Pack.LockTheorems

namespace Malm.Pack

open Commit Checks List Except LockedComponent LockedDependency LockedPack

variable {source : LockedSource} {pack : VerifiedPack} {left right : LockedSource}

variable {comps : List LockedComponent} {rootNodeId target : PackNodeId}

/-! ## 1. Building a node -/

section Nodes

variable {codec : LockCodec}

variable {dependencies : List LockedDependency} {nodes : List (LockedPack codec)}

theorem sortDependencies_perm {others : List LockedDependency} (h : dependencies.Perm others) :
    sortDependencies dependencies = sortDependencies others := by
  have hsorted : ∀ list : List LockedDependency, (sortDependencies list).Pairwise
      fun left right => left.sortKey ≤ right.sortKey := fun list => pairwise_insertionSort _ list
  refine List.Perm.eq_of_pairwise ?_ (hsorted dependencies) (hsorted others)
    (((perm_insertionSort _ dependencies).trans h).trans
      (perm_insertionSort _ others).symm)
  intro left right _ _ hle hge
  have hkey := congrArg ofLex (le_antisymm hle hge)
  cases left
  cases right
  cases hkey
  rfl

theorem adjacentDuplicate_eq_none {α : Type} [LinearOrder α] {vs : List α}
    (hsorted : vs.Pairwise (· ≤ ·)) : adjacentDuplicate vs = none ↔ vs.Nodup := by
  constructor
  · intro h
    exact (pairwise_lt_of_adjacentDuplicate hsorted h).imp fun hlt => ne_of_lt hlt
  · intro h
    refine adjacentDuplicate_of_pairwise_lt (hsorted.imp₂ ?_ h)
    exact fun left right hle hne => lt_of_le_of_ne hle hne

theorem LockedPack.new_ok {packageId : PackageId} {d : Digest} {node : LockedPack codec} :
    new codec packageId source d dependencies comps = .ok node ↔
      (dependencies.length ≤ maxDirectDependencies ∧ comps.length ≤ maxComponents ∧
        (dependencies.map aliasName).Nodup ∧
        (comps.map name).Nodup) ∧
      node.toLockedNode = ⟨codec.nodeId source packageId d, packageId, source, d,
        sortDependencies dependencies, sortComponents comps⟩ := by
  have haliases : adjacentDuplicate ((sortDependencies dependencies).map aliasName) =
      none ↔ (dependencies.map aliasName).Nodup := by
    rw [adjacentDuplicate_eq_none (sortDependencies_aliases dependencies)]
    exact ((perm_insertionSort _ dependencies).map _).nodup_iff
  have hnames : adjacentDuplicate ((sortComponents comps).map name) =
      none ↔ (comps.map name).Nodup := by
    rw [adjacentDuplicate_eq_none (sortComponents_names comps)]
    exact ((perm_insertionSort _ comps).map _).nodup_iff
  unfold new
  split
  · rename_i hlen
    simp [Nat.not_le.2 hlen]
  · rename_i hlen
    split
    · rename_i hcount
      simp [Nat.not_le.2 hcount]
    · rename_i hcount
      split
      · rename_i aliasName hdup
        rw [← haliases, hdup]
        simp
      · rename_i hnone
        split
        · rename_i name hdup
          rw [← hnames, hdup]
          simp
        · rename_i hnone'
          simp only [ok.injEq, haliases.1 hnone, hnames.1 hnone', not_lt.1 hlen,
            not_lt.1 hcount, and_self, true_and]
          constructor
          · rintro rfl
            rfl
          · intro hnode
            exact (ext_node hnode).symm

theorem LockedPack.exists_new {packageId : PackageId} {d : Digest}
    (hlen : dependencies.length ≤ maxDirectDependencies) (hcount : comps.length ≤ maxComponents)
    (haliases : (dependencies.map aliasName).Nodup)
    (hnames : (comps.map name).Nodup) :
    ∃ node, new codec packageId source d dependencies comps = .ok node := by
  have haliases' : adjacentDuplicate ((sortDependencies dependencies).map
      aliasName) = none :=
    (adjacentDuplicate_eq_none (sortDependencies_aliases dependencies)).2
      (((perm_insertionSort _ dependencies).map _).nodup_iff.2 haliases)
  have hnames' : adjacentDuplicate ((sortComponents comps).map name) = none :=
    (adjacentDuplicate_eq_none (sortComponents_names comps)).2
      (((perm_insertionSort _ comps).map _).nodup_iff.2 hnames)
  unfold new
  rw [dif_neg (not_lt.2 hlen), dif_neg (not_lt.2 hcount)]
  split
  · rename_i aliasName hdup
    rw [haliases'] at hdup
    cases hdup
  · split
    · rename_i name hdup
      rw [hnames'] at hdup
      cases hdup
    · exact ⟨_, rfl⟩

/-! ## 2. Accepting a list of nodes -/

def EdgeIn (nodes : List (LockedPack codec)) (source target : PackNodeId) : Prop :=
  target ∈ edgeTargets nodes source

theorem edgeIn_iff (hids : (nodes.map fun node => node.nodeId).Nodup) {source : PackNodeId} :
    EdgeIn nodes source target ↔ ∃ node ∈ nodes, node.nodeId = source ∧
      ∃ edge ∈ node.dependencies, edge.targetNodeId = target := by
  have hfind : ∀ node, findNode nodes source = some node ↔ node ∈ nodes ∧ node.nodeId = source :=
    fun node => Keyed.find?_eq_some hids
  unfold EdgeIn edgeTargets
  constructor
  · intro h
    split at h
    · rename_i node hnode
      obtain ⟨hmem, hid⟩ := (hfind node).1 hnode
      obtain ⟨edge, hedge, htarget⟩ := mem_map.1 h
      exact ⟨node, hmem, hid, edge, hedge, htarget⟩
    · cases h
  · rintro ⟨node, hmem, hid, edge, hedge, htarget⟩
    rw [(hfind node).2 ⟨hmem, hid⟩]
    exact mem_map.2 ⟨edge, hedge, htarget⟩

theorem edgeTargets_subset (hids : (nodes.map fun node => node.nodeId).Nodup)
    (htargets : ∀ node ∈ nodes, ∀ edge ∈ node.dependencies,
      edge.targetNodeId ∈ nodes.map fun node => node.nodeId) :
    ∀ nodeId ∈ nodes.map fun node => node.nodeId,
      edgeTargets nodes nodeId ⊆ nodes.map fun node => node.nodeId := by
  intro nodeId _ t htarget
  obtain ⟨node, hnode, -, edge, hedge, rfl⟩ := (edgeIn_iff hids).1 htarget
  exact htargets node hnode edge hedge

theorem checkSources_of_nodup {seen : List (LockedSource × PackNodeId)}
    (hnodup : (nodes.map fun node => node.source).Nodup)
    (hseen : ∀ node ∈ nodes, seen.lookup node.source = none) :
    checkSources seen nodes = .ok () := by
  induction nodes generalizing seen with
  | nil => rfl
  | cons first rest ih =>
    rw [map_cons, nodup_cons] at hnodup
    have hrest : ∀ node ∈ rest, seen.lookup node.source = none :=
      fun node hmem => hseen node (mem_cons_of_mem _ hmem)
    rw [checkSources, hseen first mem_cons_self]
    split
    · exact ih hnodup.2 hrest
    · refine ih hnodup.2 fun node hmem => ?_
      have hne : node.source ≠ first.source := by
        intro heq
        exact hnodup.1 (heq ▸ mem_map.2 ⟨node, hmem, rfl⟩)
      rw [lookup_cons, beq_eq_false_iff_ne.2 hne]
      exact hrest node hmem

theorem validateLock_of (hsorted : nodes.Pairwise fun left right => left.nodeId ≤ right.nodeId)
    (hids : (nodes.map fun node => node.nodeId).Nodup)
    (hsources : (nodes.map fun node => node.source).Nodup)
    (hroot : ∃ node ∈ nodes, node.source = .root ∧ node.nodeId = rootNodeId)
    (hlen : nodes.length ≤ maxLockNodes)
    (hedges : (nodes.map fun node => node.dependencies.length).sum ≤ maxLockEdges)
    (htargets : ∀ node ∈ nodes, ∀ edge ∈ node.dependencies,
      edge.targetNodeId ∈ nodes.map fun node => node.nodeId)
    (hacyclic : ∀ nodeId, ¬ Relation.TransGen (EdgeIn nodes) nodeId nodeId)
    (hreach : ∀ node ∈ nodes, Relation.ReflTransGen (EdgeIn nodes) rootNodeId node.nodeId) :
    validateLock rootNodeId nodes = .ok () := by
  obtain ⟨root, hmem, hsource, hid⟩ := hroot
  have hclosed := edgeTargets_subset hids htargets
  have hrootId : rootNodeId ∈ nodes.map fun node => node.nodeId :=
    mem_map.2 ⟨root, hmem, hid⟩
  have honly : ∀ node ∈ nodes, node.source = .root → node = root :=
    fun node hnode heq => inj_on_of_nodup_map hsources hnode hmem (heq.trans hsource.symm)
  have hcount : (nodes.filter fun node => node.source = .root).length = 1 := by
    have hnodup : (nodes.filter fun node => node.source = .root).Nodup :=
      (List.Nodup.of_map _ hsources).filter _
    have hsingle : nodes.filter (fun node => node.source = .root) = [root] := by
      refine perm_singleton.1 ((perm_ext_iff_of_nodup hnodup
        (nodup_singleton root)).2 fun node => ?_)
      rw [mem_filter, mem_singleton, decide_eq_true_eq]
      constructor
      · rintro ⟨hnode, heq⟩
        exact honly node hnode heq
      · rintro rfl
        exact ⟨hmem, hsource⟩
    rw [hsingle]
    rfl
  simp only [validateLock, bind_ok, exists_unit, reject_ok,
    rejectSome_ok, checkTargets, forM_ok, not_not, not_lt]
  refine ⟨hlen, (adjacentDuplicate_eq_none (pairwise_map.2 hsorted)).2 hids, hrootId,
    hcount, ?_, checkSources_of_nodup hsources (by simp), hedges, htargets,
    Digraph.findCycle_eq_none hclosed hacyclic, ?_⟩
  · refine List.find?_eq_none.2 fun node hnode => ?_
    rw [mem_filter, decide_eq_true_eq] at hnode
    simp [honly node hnode.1 hnode.2, hid]
  · refine List.find?_eq_none.2 fun node hnode => ?_
    have hin := Digraph.mem_reachable hclosed hrootId (hreach node hnode)
    simp [hin]

theorem Lock.acyclic (lock : Lock codec) {nodeId : PackNodeId} (hmem : nodeId ∈ lock.nodeIds) :
    ¬ Relation.TransGen (EdgeIn lock.nodes) nodeId nodeId := by
  obtain ⟨-, -, -, -, -, -, hcycle, -⟩ := lock.checks
  obtain ⟨settled, hsettled, hnodes⟩ := Digraph.findCycle_none hcycle
  exact hsettled.acyclic (hnodes hmem)

end Nodes

/-! ## 3. The nodes of a closure -/

def maxModules : Nat := 4096

/-- What `PackManifestV1::new` leaves in a manifest, besides its aliases. -/
structure PackManifest.Constructed (manifest : PackManifest) : Prop where
  modules : manifest.modules.length ≤ maxModules
  moduleNames : (manifest.modules.map PackModule.name).Nodup
  dependencies : manifest.dependencies.length ≤ maxDirectDependencies
  components : manifest.components.length ≤ maxComponents
  componentNames : (manifest.components.map BundledComponent.name).Pairwise (· < ·)

/-- `pack_node_id` names its arguments. -/
def LockCodec.Named (codec : LockCodec) : Prop :=
  ∀ source packageId digest source' packageId' digest',
    codec.nodeId source packageId digest = codec.nodeId source' packageId' digest' →
      source = source' ∧ packageId = packageId' ∧ digest = digest'

section Fields

variable (codec : LockCodec) (packs : LockedSource → Option VerifiedPack)

def nodeIdAt (source : LockedSource) : PackNodeId :=
  match packs source with
  | some pack => codec.nodeId source pack.manifest.packageId pack.contentDigest
  | none => ⟨0⟩

def nodeFields (profile : Option Digest) (source : LockedSource) (pack : VerifiedPack) :
    LockedNode where
  nodeId := codec.nodeId source pack.manifest.packageId pack.contentDigest
  packageId := pack.manifest.packageId
  source := source
  contentDigest := pack.contentDigest
  dependencies := sortDependencies (lockedDependencies (nodeIdAt codec packs) pack.manifest)
  components := sortComponents (lockedComponents profile pack.manifest)

def HoldsPacks (sources : Finset LockedSource)
    (discovered : SortedMap LockedSource VerifiedPack) : Prop :=
  ∀ source pack, discovered.get? source = some pack ↔ source ∈ sources ∧ packs source = some pack

variable {codec packs} {sources : Finset LockedSource}
  {discovered : SortedMap LockedSource VerifiedPack} {profile : Option Digest}

theorem nodeIdAt_of (h : packs source = some pack) :
    nodeIdAt codec packs source =
      codec.nodeId source pack.manifest.packageId pack.contentDigest := by
  rw [nodeIdAt, h]

section

variable (h : HoldsPacks packs sources discovered)
include h

theorem HoldsPacks.mem_entries :
    (source, pack) ∈ discovered.entries ↔ source ∈ sources ∧ packs source = some pack := by
  rw [← SortedMap.get?_eq_some, h]

theorem HoldsPacks.keys (havailable : ∀ source ∈ sources, ∃ pack, packs source = some pack) :
    discovered.keys.toFinset = sources := by
  ext source
  rw [mem_toFinset, SortedMap.mem_keys]
  constructor
  · rintro ⟨pack, hget⟩
    exact ((h source pack).1 hget).1
  · intro hmem
    obtain ⟨pack, hpack⟩ := havailable source hmem
    exact ⟨pack, (h source pack).2 ⟨hmem, hpack⟩⟩

theorem HoldsPacks.sum (havailable : ∀ source ∈ sources, ∃ pack, packs source = some pack)
    (weight : LockedSource → Nat) :
    ∑ source ∈ sources, weight source =
      (discovered.entries.map fun e => weight e.1).sum := by
  rw [← h.keys havailable, sum_toFinset weight discovered.nodup_keys, SortedMap.keys, map_map]
  rfl

end

theorem nodeIdAt_inj (hnamed : codec.Named)
    (havailable : ∀ source ∈ sources, ∃ pack, packs source = some pack) (hleft : left ∈ sources)
    (hright : right ∈ sources) (h : nodeIdAt codec packs left = nodeIdAt codec packs right)
    : left = right := by
  obtain ⟨pack, hpack⟩ := havailable left hleft
  obtain ⟨pack', hpack'⟩ := havailable right hright
  rw [nodeIdAt_of hpack, nodeIdAt_of hpack'] at h
  exact (hnamed _ _ _ _ _ _ h).1

def NodesOf (profile : Option Digest) (discovered : SortedMap LockedSource VerifiedPack)
    (packs : LockedSource → Option VerifiedPack) (nodes : List (LockedPack codec)) : Prop :=
  (nodes.map LockedPack.toLockedNode).Perm
    (discovered.entries.map fun entry => nodeFields codec packs profile entry.1 entry.2)

section Of

variable {nodes : List (LockedPack codec)} (h : NodesOf profile discovered packs nodes)
  (hholds : HoldsPacks packs sources discovered)
include h

theorem NodesOf.map {α : Type} (field : LockedNode → α) :
    (nodes.map fun node => field node.toLockedNode).Perm
      (discovered.entries.map fun e =>
        field (nodeFields codec packs profile e.1 e.2)) := by
  have hperm := List.Perm.map field h
  rwa [map_map, map_map] at hperm

theorem NodesOf.sources_nodup : (nodes.map fun node => node.source).Nodup := by
  rw [(h.map LockedNode.source).nodup_iff]
  exact discovered.nodup_keys

include hholds

theorem NodesOf.of_mem {node : LockedPack codec} (hmem : node ∈ nodes) :
    ∃ source ∈ sources, ∃ pack, packs source = some pack ∧
      node.toLockedNode = nodeFields codec packs profile source pack := by
  have hfields := h.mem_iff.1 (mem_map.2 ⟨node, hmem, rfl⟩)
  obtain ⟨⟨source, pack⟩, hentry, heq⟩ := mem_map.1 hfields
  obtain ⟨hin, hpack⟩ := hholds.mem_entries.1 hentry
  exact ⟨source, hin, pack, hpack, heq.symm⟩

theorem NodesOf.mem_of (hmem : source ∈ sources) (hpack : packs source = some pack) :
    ∃ node ∈ nodes, node.toLockedNode = nodeFields codec packs profile source pack := by
  have hentry : nodeFields codec packs profile source pack ∈ discovered.entries.map
      fun e => nodeFields codec packs profile e.1 e.2 :=
    mem_map.2 ⟨(source, pack), hholds.mem_entries.2 ⟨hmem, hpack⟩, rfl⟩
  exact mem_map.1 (h.mem_iff.2 hentry)

theorem NodesOf.ids_nodup (hnamed : codec.Named) : (nodes.map fun node => node.nodeId).Nodup := by
  rw [(h.map LockedNode.nodeId).nodup_iff]
  have hentries : discovered.entries.Nodup := List.Nodup.of_map _ discovered.nodup_keys
  refine List.Nodup.map_on ?_ hentries
  rintro ⟨left, pack⟩ hleft ⟨right, pack'⟩ hright heq
  obtain ⟨rfl, -, -⟩ := hnamed _ _ _ _ _ _ heq
  have hpack := (hholds.mem_entries.1 hleft).2
  rw [(hholds.mem_entries.1 hright).2, Option.some.injEq] at hpack
  rw [hpack]

theorem NodesOf.edgeIn (hnamed : codec.Named) {source : PackNodeId} :
    EdgeIn nodes source target ↔ ∃ left ∈ sources, ∃ right, nodeIdAt codec packs left = source ∧
      Imports packs left right ∧ nodeIdAt codec packs right = target := by
  rw [edgeIn_iff (h.ids_nodup hholds hnamed)]
  constructor
  · rintro ⟨node, hnode, rfl, edge, hedge, rfl⟩
    obtain ⟨left, hleft, pack, hpack, hfields⟩ := h.of_mem hholds hnode
    rw [hfields] at hedge
    have hin := (perm_insertionSort _ _).mem_iff.1 hedge
    obtain ⟨dep, hdep, rfl⟩ := mem_map.1 hin
    refine ⟨left, hleft, _, ?_, ⟨pack, hpack, dep, hdep, rfl⟩, rfl⟩
    rw [nodeIdAt_of hpack, hfields]
    rfl
  · rintro ⟨left, hleft, right, rfl, ⟨pack, hpack, dep, hdep, rfl⟩, rfl⟩
    obtain ⟨node, hnode, hfields⟩ := h.mem_of hholds hleft hpack
    refine ⟨node, hnode, ?_, ⟨dep.aliasName, nodeIdAt codec packs _⟩, ?_, rfl⟩
    · rw [hfields, nodeIdAt_of hpack]
      rfl
    · rw [hfields]
      exact (perm_insertionSort _ _).mem_iff.2 (mem_map.2 ⟨dep, hdep, rfl⟩)

theorem NodesOf.edge_of (hnamed : codec.Named) (hleft : left ∈ sources)
    (himports : Imports packs left right) :
    EdgeIn nodes (nodeIdAt codec packs left) (nodeIdAt codec packs right) :=
  (h.edgeIn hholds hnamed).2 ⟨left, hleft, right, rfl, himports, rfl⟩

variable (hcloses : Closes packs sources) (hnamed : codec.Named)
include hcloses hnamed

theorem NodesOf.path_of (hleft : left ∈ sources)
    (hpath : Relation.TransGen (Imports packs) left right) :
    right ∈ sources ∧ Relation.TransGen (EdgeIn nodes) (nodeIdAt codec packs left)
      (nodeIdAt codec packs right) := by
  induction hpath with
  | single himports =>
    exact ⟨hcloses.imports hleft himports,
      .single (h.edge_of hholds hnamed hleft himports)⟩
  | tail _ himports ih =>
    exact ⟨hcloses.imports ih.1 himports,
      ih.2.tail (h.edge_of hholds hnamed ih.1 himports)⟩

theorem NodesOf.imports_of {source t : PackNodeId}
    (hpath : Relation.TransGen (EdgeIn nodes) source t) (hleft : left ∈ sources)
    (hsource : nodeIdAt codec packs left = source) :
    ∃ right ∈ sources, nodeIdAt codec packs right = t ∧
      Relation.TransGen (Imports packs) left right := by
  induction hpath with
  | single hedge =>
    obtain ⟨other, hother, right, hid, himports, htarget⟩ :=
      (h.edgeIn hholds hnamed).1 hedge
    obtain rfl := nodeIdAt_inj hnamed hcloses.available hleft hother (hsource.trans hid.symm)
    exact ⟨right, hcloses.imports hleft himports, htarget, .single himports⟩
  | tail _ hedge ih =>
    obtain ⟨mid, hmiddle, hid, hchain⟩ := ih
    obtain ⟨other, hother, right, hid', himports, htarget⟩ :=
      (h.edgeIn hholds hnamed).1 hedge
    obtain rfl := nodeIdAt_inj hnamed hcloses.available hmiddle hother (hid.trans hid'.symm)
    exact ⟨right, hcloses.imports hmiddle himports, htarget, hchain.tail himports⟩

theorem NodesOf.reach (hmem : source ∈ sources) :
    Relation.ReflTransGen (EdgeIn nodes) (nodeIdAt codec packs .root)
      (nodeIdAt codec packs source) := by
  have hreq := (hcloses.required source).1 hmem
  induction hreq with
  | refl => exact .refl
  | tail hbefore himports ih =>
    have hbefore := (hcloses.required _).2 hbefore
    exact (ih hbefore).tail (h.edge_of hholds hnamed hbefore himports)

theorem NodesOf.validateLock (hwithin : ∑ source ∈ sources, edgesAt packs source ≤ maxLockEdges)
    (hcount : sources.card ≤ maxLockNodes)
    (hsorted : nodes.Pairwise fun left right => left.nodeId ≤ right.nodeId)
    (hacyclic : ∀ source ∈ sources, ¬ Relation.TransGen (Imports packs) source source) :
    Pack.validateLock (nodeIdAt codec packs .root) nodes = .ok () := by
  have hroot : .root ∈ sources :=
    (hcloses.required .root).2 .refl
  have hids := h.ids_nodup hholds hnamed
  have hidOf : ∀ source ∈ sources, nodeIdAt codec packs source ∈ nodes.map fun node => node.nodeId := by
    intro source hmem
    obtain ⟨pack, hpack⟩ := hcloses.available source hmem
    obtain ⟨node, hnode, hfields⟩ := h.mem_of hholds hmem hpack
    refine mem_map.2 ⟨node, hnode, ?_⟩
    rw [hfields, nodeIdAt_of hpack]
    rfl
  refine validateLock_of hsorted hids h.sources_nodup ?_ ?_ ?_ ?_ ?_ ?_
  · obtain ⟨pack, hpack⟩ := hcloses.available .root hroot
    obtain ⟨node, hnode, hfields⟩ := h.mem_of hholds hroot hpack
    refine ⟨node, hnode, ?_, ?_⟩
    · rw [hfields]
      rfl
    · rw [hfields, nodeIdAt_of hpack]
      rfl
  · have hlen := List.Perm.length_eq h
    rw [length_map, length_map] at hlen
    have hkeys := congrArg Finset.card (hholds.keys hcloses.available)
    rw [toFinset_card_of_nodup discovered.nodup_keys, SortedMap.keys, length_map] at hkeys
    omega
  · have hsum := (h.map fun node => node.dependencies.length).sum_eq
    have hedges : discovered.entries.map (fun e =>
        (nodeFields codec packs profile e.1 e.2).dependencies.length) =
        discovered.entries.map fun e => edgesAt packs e.1 := by
      refine map_congr_left fun e hentry => ?_
      obtain ⟨-, hpack⟩ := hholds.mem_entries.1 hentry
      rw [edgesAt_of hpack]
      show (sortDependencies _).length = _
      rw [sortDependencies, length_insertionSort, lockedDependencies, length_map]
    rw [hedges, ← hholds.sum hcloses.available] at hsum
    rw [hsum]
    exact hwithin
  · intro node hnode edge hedge
    have hin := (h.edgeIn hholds hnamed).1
      ((edgeIn_iff hids).2 ⟨node, hnode, rfl, edge, hedge, rfl⟩)
    obtain ⟨left, hleft, right, -, himports, hid⟩ := hin
    rw [← hid]
    exact hidOf right (hcloses.imports hleft himports)
  · intro nodeId hcycle
    obtain ⟨mid, hedge, -⟩ := Relation.TransGen.head'_iff.1 hcycle
    obtain ⟨left, hleft, -, hid, -, -⟩ := (h.edgeIn hholds hnamed).1 hedge
    obtain ⟨right, hright, hid', hchain⟩ :=
      h.imports_of hholds hcloses hnamed hcycle hleft hid
    obtain rfl := nodeIdAt_inj hnamed hcloses.available hright hleft (hid'.trans hid.symm)
    exact hacyclic right hright hchain
  · intro node hnode
    obtain ⟨source, hmem, pack, hpack, hfields⟩ := h.of_mem hholds hnode
    have hreach := h.reach hholds hcloses hnamed hmem
    rw [nodeIdAt_of hpack] at hreach
    rw [hfields]
    exact hreach

end Of

/-! ## 4. The lock of a closure -/

section Locking

variable {inputs : LockResolutionInputs}

def Profiled (packs : LockedSource → Option VerifiedPack) (profile : Option Digest)
    (sources : Finset LockedSource) : Prop :=
  profile = none → ∀ source ∈ sources, ∀ pack, packs source = some pack →
    pack.manifest.components = []

/-- No source of the closure leads back to itself. -/
def Acyclic (packs : LockedSource → Option VerifiedPack) (sources : Finset LockedSource) : Prop :=
  ∀ source ∈ sources, ¬ Relation.TransGen (Imports packs) source source

structure LockOf (profile : Option Digest) (discovered : SortedMap LockedSource VerifiedPack)
    (packs : LockedSource → Option VerifiedPack) (lock : Lock codec) : Prop where
  root : lock.rootNodeId = nodeIdAt codec packs .root
  nodes : NodesOf profile discovered packs lock.nodes

theorem Lock.new_ok {nodes : List (LockedPack codec)} {lock : Lock codec} :
    Lock.new rootNodeId nodes = .ok lock ↔ lock.rootNodeId = rootNodeId ∧
      lock.nodes = sortNodes codec nodes := by
  unfold Lock.new
  split
  · rename_i error hinvalid
    constructor
    · rintro ⟨⟩
    · rintro ⟨hroot, hnodes⟩
      have hvalid := lock.valid
      rw [hroot, hnodes, hinvalid] at hvalid
      cases hvalid
  · rw [ok.injEq]
    constructor
    · rintro rfl
      exact ⟨rfl, rfl⟩
    · intro h
      cases lock
      obtain ⟨rfl, rfl⟩ := h
      rfl

theorem lockedComponents_names (profile : Digest) (man : PackManifest) :
    (lockedComponents (some profile) man).map name =
      man.components.map BundledComponent.name := by
  simp [lockedComponents, fromDeclaration]

theorem lockedDependencies_aliases (nodeIds : LockedSource → PackNodeId)
    (man : PackManifest) :
    (lockedDependencies nodeIds man).map aliasName =
      man.dependencies.map PackDependency.aliasName := by
  simp [lockedDependencies]

theorem lockedNode_fits {man : PackManifest} (h : man.Constructed)
    (nodeIds : LockedSource → PackNodeId) (profile : Option Digest) :
    (lockedDependencies nodeIds man).length ≤ maxDirectDependencies ∧
      (lockedComponents profile man).length ≤ maxComponents ∧
      ((lockedDependencies nodeIds man).map aliasName).Nodup ∧
      ((lockedComponents profile man).map name).Nodup := by
  refine ⟨?_, ?_, ?_, ?_⟩
  · rw [lockedDependencies, length_map]
    exact h.dependencies
  · cases profile with
    | none => exact Nat.zero_le _
    | some profile =>
      rw [← length_map (f := name), lockedComponents_names, length_map]
      exact h.components
  · rw [lockedDependencies_aliases]
    exact man.aliases_nodup
  · cases profile with
    | none => exact nodup_nil
    | some profile =>
      rw [lockedComponents_names]
      exact h.componentNames.imp fun hlt => ne_of_lt hlt

theorem lockedDependencies_discovered (hholds : HoldsPacks packs sources discovered)
    (hcloses : Closes packs sources) (hmem : source ∈ sources) (hpack : packs source = some pack) :
    lockedDependencies (discoveredNodeId codec discovered) pack.manifest =
      lockedDependencies (nodeIdAt codec packs) pack.manifest := by
  refine map_congr_left fun dep hdep => ?_
  have htarget := hcloses.imports hmem ⟨pack, hpack, dep, hdep, rfl⟩
  obtain ⟨t, hfound⟩ := hcloses.available _ htarget
  rw [discoveredNodeId, (hholds _ t).2 ⟨htarget, hfound⟩, nodeIdAt_of hfound]

variable (inputs) in
/-- **A closure has a lock unless it has a cycle.** -/
theorem lockDiscovered_ok (hholds : HoldsPacks packs sources discovered)
    (hcloses : Closes packs sources) {world : SourceWorld} (hwithin : Within packs world sources)
    (hnamed : codec.Named)
    (hctor : ∀ source pack, packs source = some pack → pack.manifest.Constructed) :
    ((∃ lock, lockDiscovered inputs codec discovered = .ok lock) ↔
      Profiled packs inputs.formatComponentExecutionProfile sources ∧ Acyclic packs sources) ∧
    ∀ lock, lockDiscovered inputs codec discovered = .ok lock →
      LockOf inputs.formatComponentExecutionProfile discovered packs lock := by
  have hprofiled : (¬ (inputs.formatComponentExecutionProfile = none ∧
      (discovered.entries.any fun e => e.2.manifest.components ≠ []) = true)) ↔
      Profiled packs inputs.formatComponentExecutionProfile sources := by
    rw [not_and, Bool.not_eq_true, any_eq_false]
    refine imp_congr_right fun _ => ?_
    constructor
    · intro h source hmem pack hpack
      simpa using h (source, pack) (hholds.mem_entries.2 ⟨hmem, hpack⟩)
    · rintro h ⟨source, pack⟩ hentry
      obtain ⟨hmem, hpack⟩ := hholds.mem_entries.1 hentry
      simpa using h source hmem pack hpack
  have hnode : ∀ e ∈ discovered.entries, ∀ node : LockedPack codec,
      lockedNode inputs codec (discoveredNodeId codec discovered) e = .ok node ↔
        node.toLockedNode = nodeFields codec packs inputs.formatComponentExecutionProfile
          e.1 e.2 := by
    rintro ⟨source, pack⟩ hentry node
    obtain ⟨hmem, hpack⟩ := hholds.mem_entries.1 hentry
    rw [lockedNode, mapError_ok, new_ok, and_iff_right (lockedNode_fits (hctor source pack hpack) _ _),
      lockedDependencies_discovered hholds hcloses hmem hpack]
    rfl
  have hroot : discoveredNodeId codec discovered .root = nodeIdAt codec packs .root := by
    have hmem : .root ∈ sources :=
      (hcloses.required .root).2 .refl
    obtain ⟨pack, hpack⟩ := hcloses.available .root hmem
    rw [discoveredNodeId, (hholds _ pack).2 ⟨hmem, hpack⟩, nodeIdAt_of hpack]
  have hof : ∀ lock, lockDiscovered inputs codec discovered = .ok lock →
      Profiled packs inputs.formatComponentExecutionProfile sources ∧
        LockOf inputs.formatComponentExecutionProfile discovered packs lock := by
    intro lock hlock
    simp only [lockDiscovered, bind_ok, exists_unit, reject_ok,
      mapError_ok, hprofiled, Lock.new_ok] at hlock
    obtain ⟨hprof, nodes, hnodes, hrootId, hsorted⟩ := hlock
    refine ⟨hprof, hrootId.trans hroot, ?_⟩
    have hfields := map_of_mapM_ok hnodes fun e hentry node hok =>
      (hnode e hentry node).1 hok
    show (lock.nodes.map toLockedNode).Perm _
    rw [hsorted, ← hfields]
    exact (perm_insertionSort _ nodes).map _
  refine ⟨⟨?_, ?_⟩, fun lock hlock => (hof lock hlock).2⟩
  · rintro ⟨lock, hlock⟩
    obtain ⟨hprof, hlockOf⟩ := hof lock hlock
    refine ⟨hprof, fun source hmem hcycle => ?_⟩
    obtain ⟨-, hpath⟩ := hlockOf.nodes.path_of hholds hcloses hnamed hmem hcycle
    obtain ⟨pack, hpack⟩ := hcloses.available source hmem
    obtain ⟨node, hin, hfields⟩ := hlockOf.nodes.mem_of hholds hmem hpack
    refine lock.acyclic (mem_map.2 ⟨node, hin, ?_⟩) hpath
    rw [hfields, nodeIdAt_of hpack]
    rfl
  · rintro ⟨hprof, hacyclic⟩
    have hbuilt : ∀ e ∈ discovered.entries, ∃ node : LockedPack codec,
        lockedNode inputs codec (discoveredNodeId codec discovered) e = .ok node := by
      rintro ⟨source, pack⟩ hentry
      obtain ⟨hlen, hcount, haliases, hnames⟩ := lockedNode_fits
        (hctor source pack (hholds.mem_entries.1 hentry).2)
        (discoveredNodeId codec discovered) inputs.formatComponentExecutionProfile
      obtain ⟨node, hnew⟩ : ∃ node : LockedPack codec, new codec
          pack.manifest.packageId source pack.contentDigest _ _ = .ok node :=
        exists_new hlen hcount haliases hnames
      exact ⟨node, mapError_ok.2 hnew⟩
    obtain ⟨nodes, hnodes⟩ := exists_mapM_ok hbuilt
    have hfields := map_of_mapM_ok hnodes fun e hentry node hok =>
      (hnode e hentry node).1 hok
    have hof : NodesOf inputs.formatComponentExecutionProfile discovered packs
        (sortNodes codec nodes) := by
      show ((sortNodes codec nodes).map toLockedNode).Perm _
      rw [← hfields]
      exact (perm_insertionSort _ nodes).map _
    have hvalid := NodesOf.validateLock hof hholds hcloses hnamed hwithin.edges hwithin.nodes
      (sortNodes_sorted nodes) hacyclic
    refine ⟨⟨_, _, sortNodes_sorted nodes, hvalid⟩, ?_⟩
    simp only [lockDiscovered, bind_ok, exists_unit, reject_ok, mapError_ok, hprofiled, Lock.new_ok]
    exact ⟨hprof, nodes, hnodes, hroot.symm, rfl⟩

end Locking

end Fields

end Malm.Pack
