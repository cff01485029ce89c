/-
Malm.Pack.LockTheorems — what a validated lock and an assembled graph
promise.

The nodes of a lock are known by their identities, every edge ends at a node, and the
dependency order holds every node once. Rebuilding a node or a lock gives it back. In
an assembled graph every pack was verified and declares the edges of its node.
-/
import Malm.Pack.Graph

namespace Malm.Pack

open Commit Checks List Except

variable {codec : LockCodec}

variable {graph : AssembledLockedGraph codec} {left right : LockedPack codec}

/-! ## 1. Nodes -/

theorem LockedPack.ext_node : ∀ {left right : LockedPack codec},
    left.toLockedNode = right.toLockedNode → left = right
  | ⟨_, _, _, _, _, _⟩, ⟨_, _, _, _, _, _⟩, rfl => rfl

theorem LockedPack.new_self (node : LockedPack codec) {deps : List LockedDependency}
    (h : deps.Perm node.dependencies) :
    LockedPack.new codec node.packageId node.source node.contentDigest deps
      node.components = .ok node := by
  have hkeys : node.dependencies.Pairwise fun left right => left.sortKey ≤ right.sortKey := by
    refine (pairwise_map.1 node.aliases_sorted).imp fun {left right} hlt => ?_
    exact le_of_lt (Prod.Lex.toLex_lt_toLex.2 (.inl hlt))
  have hsorted : sortDependencies deps = node.dependencies := by
    refine List.Perm.eq_of_pairwise ?_ (pairwise_insertionSort _ deps) hkeys
      ((perm_insertionSort _ deps).trans h)
    intro left right _ _ hle hge
    have hkey := congrArg ofLex (le_antisymm hle hge)
    cases left
    cases right
    cases hkey
    rfl
  have hcomps : sortComponents node.components = node.components := by
    refine List.Pairwise.insertionSort_eq ?_
    refine (pairwise_map.1 node.names_sorted).imp fun {left right} hlt => ?_
    exact le_of_lt (Prod.Lex.toLex_lt_toLex.2 (.inl hlt))
  have hlen : ¬ maxDirectDependencies < deps.length := by
    rw [h.length_eq]
    exact not_lt.2 node.dependencies_bounded
  unfold LockedPack.new
  rw [dif_neg hlen, dif_neg (not_lt.2 node.components_bounded)]
  split
  · rename_i hdup
    rw [hsorted, adjacentDuplicate_of_pairwise_lt node.aliases_sorted] at hdup
    cases hdup
  · split
    · rename_i hdup
      rw [hcomps, adjacentDuplicate_of_pairwise_lt node.names_sorted] at hdup
      cases hdup
    · refine congrArg ok (LockedPack.ext_node ?_)
      dsimp only
      rw [hsorted, hcomps, ← node.nodeId_eq]

/-! ## 2. Locks -/

theorem Lock.new_self (lock : Lock codec) : Lock.new lock.rootNodeId lock.nodes = .ok lock := by
  have hsorted : sortNodes codec lock.nodes = lock.nodes :=
    List.Pairwise.insertionSort_eq lock.sorted
  unfold Lock.new
  split
  · rename_i error hinvalid
    rw [hsorted, lock.valid] at hinvalid
    cases hinvalid
  · refine congrArg ok ?_
    cases lock
    congr 1

theorem checkSources_ok : ∀ {seen : List (LockedSource × PackNodeId)}
    {nodes : List (LockedPack codec)}, checkSources seen nodes = .ok () →
      (nodes.Pairwise fun left right => left.source ≠ .root → left.source ≠ right.source) ∧
        ∀ node ∈ nodes, node.source ≠ .root → seen.lookup node.source = none
  | _, [], _ => ⟨.nil, by simp⟩
  | seen, first :: rest, h => by
    rw [checkSources] at h
    by_cases hroot : first.source = .root
    · rw [if_pos hroot] at h
      obtain ⟨hpairwise, hseen⟩ := checkSources_ok h
      refine ⟨pairwise_cons.2 ⟨fun _ _ hne => absurd hroot hne, hpairwise⟩, ?_⟩
      intro node hnode hne
      rcases mem_cons.1 hnode with rfl | hnode
      · exact absurd hroot hne
      · exact hseen node hnode hne
    · rw [if_neg hroot] at h
      split at h
      · cases h
      · rename_i hfirst
        obtain ⟨hpairwise, hseen⟩ := checkSources_ok h
        have hrest : ∀ node ∈ rest, node.source ≠ .root →
            first.source ≠ node.source ∧ seen.lookup node.source = none := by
          intro node hnode hne
          have hlookup := hseen node hnode hne
          rw [lookup_cons] at hlookup
          by_cases heq : node.source = first.source
          · simp [heq] at hlookup
          · rw [beq_eq_false_iff_ne.2 heq] at hlookup
            exact ⟨Ne.symm heq, hlookup⟩
        constructor
        · refine pairwise_cons.2 ⟨fun node hnode _ heq => ?_, hpairwise⟩
          exact (hrest node hnode (heq ▸ hroot)).1 heq
        · intro node hnode hne
          rcases mem_cons.1 hnode with rfl | hnode
          · exact hfirst
          · exact (hrest node hnode hne).2

section Locks

variable (lock : Lock codec)

def Lock.nodeIds : List PackNodeId := lock.nodes.map fun node => node.nodeId

theorem Lock.checks :
    adjacentDuplicate lock.nodeIds = none ∧ lock.rootNodeId ∈ lock.nodeIds ∧
      (lock.nodes.filter fun node => node.source = .root).length = 1 ∧
      (∀ node ∈ lock.nodes, node.source = .root → node.nodeId = lock.rootNodeId) ∧
      checkSources [] lock.nodes = .ok () ∧
      (∀ node ∈ lock.nodes, ∀ edge ∈ node.dependencies, edge.targetNodeId ∈ lock.nodeIds) ∧
      Digraph.findCycle (edgeTargets lock.nodes) lock.nodeIds = none ∧
      ∀ node ∈ lock.nodes,
        node.nodeId ∈ Digraph.reachable (edgeTargets lock.nodes) lock.nodeIds lock.rootNodeId := by
  have h := lock.valid
  simp only [validateLock, bind_ok, exists_unit, reject_ok,
    rejectSome_ok, checkTargets, forM_ok, not_not] at h
  obtain ⟨-, hdup, hroot, hcount, hmismatch, hsources, -, htargets, hcycle, hreachable⟩ := h
  refine ⟨hdup, hroot, hcount, ?_, hsources, htargets, hcycle, ?_⟩
  · intro node hnode hsource
    have hfind := List.find?_eq_none.1 hmismatch node
      (mem_filter.2 ⟨hnode, decide_eq_true hsource⟩)
    simpa using hfind
  · intro node hnode
    have hfind := List.find?_eq_none.1 hreachable node hnode
    simpa [Lock.nodeIds] using hfind

theorem Lock.nodeIds_sorted : lock.nodeIds.Pairwise (· < ·) :=
  pairwise_lt_of_adjacentDuplicate (pairwise_map.2 lock.sorted) lock.checks.1

theorem Lock.nodeIds_nodup : lock.nodeIds.Nodup :=
  lock.nodeIds_sorted.imp fun h => ne_of_lt h

theorem Lock.eq_of_nodeId (hleft : left ∈ lock.nodes) (hright : right ∈ lock.nodes)
    (h : left.nodeId = right.nodeId) : left = right :=
  inj_on_of_nodup_map lock.nodeIds_nodup hleft hright h

variable {node : LockedPack codec}

theorem Lock.findNode_eq_some {nodeId : PackNodeId} :
    findNode lock.nodes nodeId = some node ↔ node ∈ lock.nodes ∧ node.nodeId = nodeId :=
  Keyed.find?_eq_some lock.nodeIds_nodup

theorem Lock.rootNode : ∃ node, (lock.nodes.filter fun node => node.source = .root) = [node] ∧
    node ∈ lock.nodes ∧ node.source = .root ∧ node.nodeId = lock.rootNodeId := by
  obtain ⟨-, -, hcount, hroots, -⟩ := lock.checks
  obtain ⟨node, hsingle⟩ := length_eq_one_iff.1 hcount
  have hnode : node ∈ lock.nodes.filter fun node => node.source = .root := by
    rw [hsingle]
    exact mem_singleton_self node
  rw [mem_filter] at hnode
  have hsource := of_decide_eq_true hnode.2
  exact ⟨node, hsingle, hnode.1, hsource, hroots node hnode.1 hsource⟩

theorem Lock.eq_of_source (hleft : left ∈ lock.nodes) (hright : right ∈ lock.nodes)
    (hne : left.source ≠ .root) (h : left.source = right.source) : left = right := by
  have hpairwise := (checkSources_ok lock.checks.2.2.2.2.1).1
  have hnodup : ((lock.nodes.filter fun node => node.source ≠ .root).map
      fun node => node.source).Nodup := by
    rw [List.Nodup, pairwise_map, pairwise_filter]
    refine hpairwise.imp fun {first snd} hdist hfirst _ => ?_
    exact hdist (of_decide_eq_true hfirst)
  refine inj_on_of_nodup_map hnodup ?_ ?_ h
  · exact mem_filter.2 ⟨hleft, decide_eq_true hne⟩
  · exact mem_filter.2 ⟨hright, decide_eq_true (h ▸ hne)⟩

theorem Lock.edgeTargets_eq (hnode : node ∈ lock.nodes) :
    edgeTargets lock.nodes node.nodeId = node.dependencies.map LockedDependency.targetNodeId := by
  rw [edgeTargets, lock.findNode_eq_some.2 ⟨hnode, rfl⟩]

theorem Lock.dependencyOrder_perm : lock.dependencyOrder.Perm lock.nodeIds := by
  obtain ⟨-, -, -, -, -, htargets, hcycle, -⟩ := lock.checks
  obtain ⟨settled, hsettled, hnodes⟩ := Digraph.findCycle_none hcycle
  refine Digraph.dependencyOrder_perm hsettled hnodes ?_ lock.nodeIds_nodup
  intro nodeId hnodeId t htarget
  obtain ⟨node, hnode, rfl⟩ := mem_map.1 hnodeId
  rw [lock.edgeTargets_eq hnode] at htarget
  obtain ⟨edge, hedge, rfl⟩ := mem_map.1 htarget
  exact htargets node hnode edge hedge

theorem Lock.node_induction {p : PackNodeId → Prop} (hroot : p lock.rootNodeId)
    (hstep : ∀ node ∈ lock.nodes, p node.nodeId →
      ∀ edge ∈ node.dependencies, p edge.targetNodeId) : ∀ node ∈ lock.nodes, p node.nodeId := by
  intro node hnode
  have hreach := Digraph.reachable_sound (lock.checks.2.2.2.2.2.2.2 node hnode)
  generalize node.nodeId = reached at hreach
  induction hreach with
  | refl => exact hroot
  | tail _ hedge ih =>
    unfold edgeTargets at hedge
    split at hedge
    · rename_i found hfound
      obtain ⟨hmem, rfl⟩ := lock.findNode_eq_some.1 hfound
      obtain ⟨edge, hin, rfl⟩ := mem_map.1 hedge
      exact hstep found hmem ih edge hin
    · cases hedge

/-! ## 3. Manifests -/

def Binds (node : LockedPack codec) (declaration : PackDependency) (target : LockedPack codec) :
    Prop :=
  target ∈ lock.nodes ∧ ⟨declaration.aliasName, target.nodeId⟩ ∈ node.dependencies ∧
    target.packageId = declaration.packageId ∧
    target.source = .fromDependency declaration.source

/-- A manifest declares exactly what the lock has for a node. -/
structure Agrees (node : LockedPack codec) (manifest : PackManifest) : Prop where
  packageId : node.packageId = manifest.packageId
  componentCount : node.components.length = manifest.components.length
  components : ∀ pair ∈ node.components.zip manifest.components, pair.1.agreesWith pair.2 = true
  dependencyCount : node.dependencies.length = manifest.dependencies.length
  dependencies : ∀ declaration ∈ manifest.dependencies, ∃ target, Binds lock node declaration target

theorem Lock.validateManifest_ok (hnode : node ∈ lock.nodes) {manifest : PackManifest}
    (h : lock.validateManifest node.nodeId manifest = .ok ()) : Agrees lock node manifest := by
  simp only [Lock.validateManifest, bind_ok, exists_unit, reject_ok,
    require_ok, forM_ok, not_or, not_not, lock.findNode_eq_some] at h
  obtain ⟨found, ⟨hfound, hid⟩, hpackage, ⟨hcount, hcomps⟩, hlen, hdeps⟩ := h
  obtain rfl := lock.eq_of_nodeId hfound hnode hid
  refine ⟨hpackage, hcount, all_eq_true.1 hcomps, hlen, ?_⟩
  intro decl hdeclaration
  obtain ⟨edge, hedge, t, ⟨htarget, htargetId⟩, htargetPackage, hsource⟩ :=
    hdeps decl hdeclaration
  have halias : edge.aliasName = decl.aliasName := by simpa using List.find?_some hedge
  refine ⟨t, htarget, ?_, htargetPackage, hsource⟩
  rw [← halias, htargetId]
  exact List.mem_of_find?_eq_some hedge

end Locks

/-! ## 4. Assembled graphs -/

section Assembly

variable {ε : Type} {packCodec : PackCodec} {lock : Lock codec}
  {objects : Digest → Except ε (List PackFile)} {verified : SortedMap Digest VerifiedPack}

/-- The packs kept by digest are those a first load gives. -/
def Resolved (packCodec : PackCodec) (objects : Digest → Except ε (List PackFile))
    (verified : SortedMap Digest VerifiedPack) (assembly : Assembly) : Prop :=
  ∀ digest pack, assembly.byDigest.get? digest = some pack →
    resolvePack packCodec objects verified digest = .ok pack

theorem assemblePack_ok {d : Digest} {assembly assembly' : Assembly} {pack : VerifiedPack}
    (h : assemblePack packCodec objects verified d assembly = .ok (pack, assembly'))
    (hresolved : Resolved packCodec objects verified assembly) :
    resolvePack packCodec objects verified d = .ok pack ∧
      Resolved packCodec objects verified assembly' := by
  unfold assemblePack at h
  split at h
  · rename_i found hfound
    cases h
    exact ⟨hresolved d pack hfound, hresolved⟩
  · simp only [bind_ok, pure_ok] at h
    obtain ⟨loaded, hload, total, -, heq⟩ := h
    cases heq
    refine ⟨hload, fun other otherPack hother => ?_⟩
    dsimp only at hother
    rcases SortedMap.of_get?_insert hother with ⟨rfl, rfl⟩ | hother
    · exact hload
    · exact hresolved other otherPack hother

theorem foldlM_assembleNode_ok : ∀ {nodes : List (LockedPack codec)} {assembly r : Assembly},
    nodes.foldlM (assembleNode packCodec lock objects verified) assembly = .ok r →
    Resolved packCodec objects verified assembly →
    ∀ node ∈ nodes, ∃ pack, resolvePack packCodec objects verified node.contentDigest = .ok pack ∧
      lock.validateManifest node.nodeId pack.manifest = .ok ()
  | [], _, _, _, _ => by simp
  | first :: rest, assembly, r, h, hresolved => by
    simp only [foldlM_cons, bind_ok, assembleNode, Prod.exists, pure_ok,
      mapError_ok, exists_unit] at h
    obtain ⟨middle, ⟨pack, loaded, hpack, hmanif, rfl⟩, hrest⟩ := h
    obtain ⟨hload, hloaded⟩ := assemblePack_ok hpack hresolved
    intro node hnode
    rcases mem_cons.1 hnode with rfl | hnode
    · exact ⟨pack, hload, hmanif⟩
    · exact foldlM_assembleNode_ok hrest hloaded node hnode

theorem assembled_packs
    (h : assembleLockedGraphWithVerified packCodec lock objects verified = .ok graph) :
    ∀ node ∈ lock.nodes, ∃ pack,
      resolvePack packCodec objects verified node.contentDigest = .ok pack ∧
        Agrees lock node pack.manifest := by
  simp only [assembleLockedGraphWithVerified, bind_ok] at h
  obtain ⟨assembly, hfold, -⟩ := h
  intro node hnode
  have hstart : Resolved packCodec objects verified ⟨.empty, .empty, 0⟩ := by
    intro d pack hget
    cases hget
  obtain ⟨pack, hload, hmanif⟩ := foldlM_assembleNode_ok hfold hstart node hnode
  exact ⟨pack, hload, lock.validateManifest_ok hnode hmanif⟩

theorem assembled_lock
    (h : assembleLockedGraphWithVerified packCodec lock objects verified = .ok graph) :
    graph.lock = lock ∧ graph.graphDigest = lockGraphDigest lock ∧
      graph.dependencyOrder = lock.dependencyOrder := by
  simp only [assembleLockedGraphWithVerified, bind_ok, pure_ok] at h
  obtain ⟨assembly, -, -, -, rfl⟩ := h
  exact ⟨rfl, rfl, rfl⟩

/-- Assembly depends on the supplied packs only through what a first load
gives. -/
theorem assemble_congr {verified' : SortedMap Digest VerifiedPack}
    (h : ∀ node ∈ lock.nodes, resolvePack packCodec objects verified node.contentDigest =
      resolvePack packCodec objects verified' node.contentDigest) :
    assembleLockedGraphWithVerified packCodec lock objects verified =
      assembleLockedGraphWithVerified packCodec lock objects verified' := by
  have hstep : ∀ node ∈ lock.nodes, ∀ assembly,
      assembleNode packCodec lock objects verified assembly node =
        assembleNode packCodec lock objects verified' assembly node := by
    intro node hnode assembly
    rw [assembleNode, assembleNode, assemblePack, assemblePack, h node hnode]
  rw [assembleLockedGraphWithVerified, assembleLockedGraphWithVerified, foldlM_congr hstep]

end Assembly

/-! ## 5. Identities as numbers -/

def sourceCode : LockedSource → List (List Nat)
  | .root => []
  | .localLocator locator => [locator.map Char.toNat]
  | .git source => [source.url.map Char.toNat, source.commit.map Char.toNat,
      source.subdir.map Char.toNat]

theorem text_of_codes {left right : Text} (h : left.map Char.toNat = right.map Char.toNat) :
    left = right :=
  map_injective_iff.2 (fun _ _ heq => Char.toNat_inj.1 heq) h

theorem sourceCode_injective : Function.Injective sourceCode := by
  intro left right h
  cases left with
  | root => cases right <;> simp_all [sourceCode]
  | localLocator locator =>
    cases right with
    | localLocator locator' =>
      rw [sourceCode, sourceCode, cons.injEq] at h
      rw [text_of_codes h.1]
    | _ => simp_all [sourceCode]
  | git src =>
    cases right with
    | git source' =>
      simp only [sourceCode, cons.injEq, and_true] at h
      obtain ⟨hurl, hcommit, hsubdir⟩ := h
      cases src
      cases source'
      cases text_of_codes hurl
      cases text_of_codes hcommit
      cases text_of_codes hsubdir
      rfl
    | _ => simp_all [sourceCode]

/-- Identities that number their parts. -/
def sampleLockCodec : LockCodec where
  nodeId source packageId digest :=
    ⟨Encodable.encode (sourceCode source, packageId.map Char.toNat, digest.value)⟩
  graphDigest rootNodeId nodes := ⟨rootNodeId.value + nodes.length⟩

theorem sampleLockCodec_nodeId_inj (src : LockedSource) (packageId : PackageId) (d : Digest)
    (source' : LockedSource) (packageId' : PackageId) (digest' : Digest)
    (h : sampleLockCodec.nodeId src packageId d =
      sampleLockCodec.nodeId source' packageId' digest') :
    src = source' ∧ packageId = packageId' ∧ d = digest' := by
  have hencode := Encodable.encode_injective (congrArg Digest.value h)
  rw [Prod.mk.injEq, Prod.mk.injEq] at hencode
  refine ⟨sourceCode_injective hencode.1, text_of_codes hencode.2.1, ?_⟩
  cases d
  cases digest'
  exact congrArg Digest.mk hencode.2.2

end Malm.Pack
