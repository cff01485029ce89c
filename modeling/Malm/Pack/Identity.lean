/-
Malm.Pack.Identity — the identities of nodes and locks
(`malm-pack/src/canonical.rs`, `lock.rs`).

The preimages are delimited (`lockFields_delimited`,
`nodeIdentityFields_delimited`), so equal ones have equal fields. A node identity is
about its source, package and content; the edges are in the preimage of the lock.
-/
import Malm.Lib.Encoding
import Malm.Pack.LockWireTheorems

namespace Malm.Pack

open Bytes List

/-! ## 1. The encoder -/

namespace Canonical

def start (domain : List Char) : List UInt8 := utf8 domain ++ bigEndian 2 1

def tag (value : UInt8) : List UInt8 := [value]

def u64 (value : Nat) : List UInt8 := bigEndian 8 value

def text (value : Text) : List UInt8 := withLength (utf8 value)

def digest (value : Digest) : List UInt8 := text (digestText value)

end Canonical

/-! ## 2. Preimages -/

def nodeDomain : List Char := "malm-pack-node\x00".toList
def graphDomain : List Char := "malm-lock-graph\x00".toList

def encodeLockedSource : LockedSource → List UInt8
  | .root => Canonical.tag 0
  | .git source =>
    Canonical.tag 1 ++ (Canonical.text source.url ++
      (Canonical.text source.commit ++ Canonical.text source.subdir))
  | .localLocator locator => Canonical.tag 2 ++ Canonical.text locator

/-- What `pack_node_id` encodes behind its domain. -/
def nodeIdentityFields (source : LockedSource) (packageId : PackageId) (contentDigest : Digest) :
    List UInt8 :=
  encodeLockedSource source ++ (Canonical.text packageId ++ Canonical.digest contentDigest)

def packNodePreimage (source : LockedSource) (packageId : PackageId) (contentDigest : Digest) :
    List UInt8 :=
  Canonical.start nodeDomain ++ nodeIdentityFields source packageId contentDigest

def encodeEdge (edge : LockedDependency) : List UInt8 :=
  Canonical.text edge.aliasName ++ Canonical.digest edge.targetNodeId

def encodeComponent (component : LockedComponent) : List UInt8 :=
  Canonical.text component.name.val ++ (Canonical.text component.path ++
    (Canonical.digest component.digest ++ (Canonical.text component.interface.asStr ++
      Canonical.digest component.executionProfile)))

def encodeNode (node : LockedNode) : List UInt8 :=
  Canonical.digest node.nodeId ++ (Canonical.text node.packageId ++
    (encodeLockedSource node.source ++ (Canonical.digest node.contentDigest ++
      (Canonical.u64 node.dependencies.length ++ (node.dependencies.flatMap encodeEdge ++
        (Canonical.u64 node.components.length ++ node.components.flatMap encodeComponent))))))

/-- What `lock_graph_digest` encodes behind its domain. -/
def lockFields (rootNodeId : PackNodeId) (nodes : List LockedNode) : List UInt8 :=
  Canonical.u64 lockSchemaVersion ++ (Canonical.digest rootNodeId ++
    (Canonical.u64 nodes.length ++ nodes.flatMap encodeNode))

def graphPreimage (rootNodeId : PackNodeId) (nodes : List LockedNode) : List UInt8 :=
  Canonical.start graphDomain ++ lockFields rootNodeId nodes

def hashCodec (sha256 : List UInt8 → Digest) : LockCodec where
  nodeId source packageId contentDigest :=
    sha256 (packNodePreimage source packageId contentDigest)
  graphDigest rootNodeId nodes := sha256 (graphPreimage rootNodeId nodes)

def lockGraphPreimage {codec : LockCodec} (lock : Lock codec) : List UInt8 :=
  graphPreimage lock.rootNodeId (lock.nodes.map LockedPack.toLockedNode)

/-! ## 3. What Rust can hold -/

def RustString (value : Text) : Prop := (utf8 value).length < 256 ^ 8

def RustDigest (value : Digest) : Prop := value.value < 16 ^ 64

instance : DecidablePred RustString :=
  fun value => inferInstanceAs (Decidable ((utf8 value).length < 256 ^ 8))

instance : DecidablePred RustDigest :=
  fun value => inferInstanceAs (Decidable (value.value < 16 ^ 64))

def LockedSource.Representable : LockedSource → Prop
  | .root => True
  | .git source => RustString source.url ∧ RustString source.commit ∧
      RustString source.subdir
  | .localLocator locator => RustString locator

instance : DecidablePred LockedSource.Representable
  | .root => .isTrue trivial
  | .git source => inferInstanceAs (Decidable (RustString source.url ∧ RustString source.commit ∧
      RustString source.subdir))
  | .localLocator locator => inferInstanceAs (Decidable (RustString locator))

/-- The texts, digests and lists of a node. -/
@[mk_iff] structure LockedNode.Representable (node : LockedNode) : Prop where
  nodeId : RustDigest node.nodeId
  packageId : RustString node.packageId
  source : node.source.Representable
  contentDigest : RustDigest node.contentDigest
  edgeCount : node.dependencies.length < 256 ^ 8
  edges : ∀ edge ∈ node.dependencies,
    RustString edge.aliasName ∧ RustDigest edge.targetNodeId
  componentCount : node.components.length < 256 ^ 8
  components : ∀ component ∈ node.components, RustString component.path ∧
    RustDigest component.digest ∧ RustDigest component.executionProfile

/-- The root and the nodes of a lock, whose lists are bounded already. -/
structure Lock.Representable {codec : LockCodec} (lock : Lock codec) : Prop where
  rootNodeId : RustDigest lock.rootNodeId
  nodes : ∀ node ∈ lock.nodes, node.toLockedNode.Representable

/-! ## 4. The preimages end where they end -/

theorem text_delimited : Delimited RustString Canonical.text := Delimited.text

theorem digest_delimited : Delimited RustDigest Canonical.digest := by
  refine (text_delimited.comap digestText_injective).mono fun d hdigest => ?_
  rw [RustString, Tree.utf8_digestText_length ⟨d, hdigest⟩]
  decide

theorem source_delimited : Delimited LockedSource.Representable encodeLockedSource where
  ends := by
    intro left right rest rest' hleft hright happend
    have htexts := text_delimited.seq (text_delimited.seq text_delimited)
    cases left with
    | root =>
      cases right with
      | root => exact ⟨rfl, append_cancel_left happend⟩
      | git src => simp [encodeLockedSource, Canonical.tag] at happend
      | localLocator locator => simp [encodeLockedSource, Canonical.tag] at happend
    | git src =>
      cases right with
      | root => simp [encodeLockedSource, Canonical.tag] at happend
      | git other =>
        simp only [encodeLockedSource, Canonical.tag, append_assoc, cons_append,
          nil_append, cons.injEq, true_and] at happend
        obtain ⟨url, commit, subdir⟩ := src
        obtain ⟨url', commit', subdir'⟩ := other
        have hends := @Bytes.Delimited.ends _ _ _ htexts (url, commit, subdir)
          (url', commit', subdir') rest rest' hleft hright (by simpa using happend)
        obtain ⟨heq, hrest⟩ := hends
        cases heq
        exact ⟨rfl, hrest⟩
      | localLocator locator => simp [encodeLockedSource, Canonical.tag] at happend
    | localLocator locator =>
      cases right with
      | root => simp [encodeLockedSource, Canonical.tag] at happend
      | git src => simp [encodeLockedSource, Canonical.tag] at happend
      | localLocator other =>
        simp only [encodeLockedSource, Canonical.tag, cons_append, nil_append,
          cons.injEq, true_and] at happend
        obtain ⟨rfl, hrest⟩ := text_delimited.ends hleft hright happend
        exact ⟨rfl, hrest⟩

theorem edge_delimited :
    Delimited (fun edge : LockedDependency => RustString edge.aliasName ∧
      RustDigest edge.targetNodeId) encodeEdge := by
  refine (text_delimited.seq digest_delimited).comap
    (f := fun edge : LockedDependency => (edge.aliasName, edge.targetNodeId)) ?_
  intro left right h
  cases left
  cases right
  simp_all

theorem name_delimited :
    Delimited (fun name : ContributionName => RustString name.val)
      fun name => Canonical.text name.val :=
  text_delimited.comap Subtype.val_injective

theorem contributionName_rustString (name : ContributionName) : RustString name.val := by
  have hshape := name.property
  simp only [contributionNameShape, Bool.and_eq_true, decide_eq_true_eq] at hshape
  have hbound : name.val.byteLen < 256 ^ 8 := lt_of_le_of_lt hshape.1 (by decide)
  rw [RustString, utf8_length]
  exact hbound

theorem interface_rustString (interface : ComponentInterface) : RustString interface.asStr := by
  cases interface
  rw [RustString]
  decide

theorem component_delimited :
    Delimited (fun comp : LockedComponent => RustString comp.path ∧
      RustDigest comp.digest ∧ RustDigest comp.executionProfile) encodeComponent := by
  have hfields := name_delimited.seq (text_delimited.seq (digest_delimited.seq
    (text_delimited.seq digest_delimited)))
  have hcomp := hfields.comap
    (f := fun comp : LockedComponent => ((comp.name : ContributionName), comp.path,
      comp.digest, comp.interface.asStr, comp.executionProfile)) (by
    intro left right h
    obtain ⟨name, path, d, interface, prof⟩ := left
    obtain ⟨name', path', digest', interface', profile'⟩ := right
    cases interface
    cases interface'
    simp_all)
  exact hcomp.mono fun comp hfits => ⟨contributionName_rustString comp.name,
    hfits.1, hfits.2.1, interface_rustString comp.interface, hfits.2.2⟩

theorem node_delimited : Delimited LockedNode.Representable encodeNode := by
  have hfields := digest_delimited.seq (text_delimited.seq (source_delimited.seq
    (digest_delimited.seq (edge_delimited.counted.seq component_delimited.counted))))
  have hnode := hfields.comap
    (f := fun node : LockedNode => (node.nodeId, node.packageId, node.source, node.contentDigest,
      node.dependencies, node.components)) (by
    intro left right h
    cases left
    cases right
    simp_all)
  have hbytes : encodeNode = fun node => Canonical.digest node.nodeId ++
      (Canonical.text node.packageId ++ (encodeLockedSource node.source ++
        (Canonical.digest node.contentDigest ++
          (counted encodeEdge node.dependencies ++ counted encodeComponent node.components)))) := by
    funext node
    simp only [encodeNode, counted, items, Canonical.u64, append_assoc]
  rw [hbytes]
  exact hnode.mono fun node hfits => ⟨hfits.nodeId, hfits.packageId, hfits.source,
    hfits.contentDigest, ⟨hfits.edgeCount, hfits.edges⟩, hfits.componentCount, hfits.components⟩

theorem lockFields_delimited :
    Delimited (fun fields : PackNodeId × List LockedNode => RustDigest fields.1 ∧
      fields.2.length < 256 ^ 8 ∧ ∀ node ∈ fields.2, node.Representable)
      fun fields => lockFields fields.1 fields.2 where
  ends := by
    intro left right rest rest' hleft hright happend
    have hnodes := digest_delimited.seq node_delimited.counted
    simp only [lockFields, append_assoc] at happend
    have hbehind := append_cancel_left happend
    refine hnodes.ends hleft hright ?_
    simp only [counted, items, append_assoc]
    exact hbehind

theorem nodeIdentityFields_delimited :
    Delimited (fun fields : LockedSource × PackageId × Digest => fields.1.Representable ∧
      RustString fields.2.1 ∧ RustDigest fields.2.2)
      fun fields => nodeIdentityFields fields.1 fields.2.1 fields.2.2 :=
  source_delimited.seq (text_delimited.seq digest_delimited)

/-! ## 5. Injectivity -/

section Injective

variable (codec : LockCodec)

theorem lock_nodes_bounded (lock : Lock codec) : lock.nodes.length ≤ maxLockNodes := by
  have hvalid := lock.valid
  simp only [validateLock, Checks.bind_ok, Checks.exists_unit, Checks.reject_ok] at hvalid
  exact not_lt.1 hvalid.1

theorem toLockedNode_injective :
    Function.Injective (LockedPack.toLockedNode : LockedPack codec → LockedNode) := by
  intro left right h
  cases left
  cases right
  simp_all

/-- **Lock identities are injective**: no preimage is the front of another one, and a node's gives
its fields. -/
theorem lockIdentities_injective :
    (∀ left right : Lock codec, left.Representable → right.Representable →
      lockGraphPreimage left <+: lockGraphPreimage right → left = right) ∧
    ∀ (source source' : LockedSource) (packageId packageId' : PackageId)
      (contentDigest contentDigest' : Digest),
      source.Representable → source'.Representable →
      RustString packageId → RustString packageId' →
      RustDigest contentDigest → RustDigest contentDigest' →
      packNodePreimage source packageId contentDigest <+:
        packNodePreimage source' packageId' contentDigest' →
      source = source' ∧ packageId = packageId' ∧ contentDigest = contentDigest' := by
  constructor
  · intro left right hleft hright hprefix
    rw [lockGraphPreimage, lockGraphPreimage, graphPreimage, graphPreimage,
      prefix_append_right_inj] at hprefix
    have hfits : ∀ lock : Lock codec, lock.Representable → RustDigest lock.rootNodeId ∧
        (lock.nodes.map LockedPack.toLockedNode).length < 256 ^ 8 ∧
          ∀ node ∈ lock.nodes.map LockedPack.toLockedNode, node.Representable := by
      intro lock hlock
      refine ⟨hlock.rootNodeId, ?_, ?_⟩
      · rw [length_map]
        exact lt_of_le_of_lt (lock_nodes_bounded codec lock) (by decide)
      · intro node hnode
        obtain ⟨pack, hpack, rfl⟩ := mem_map.1 hnode
        exact hlock.nodes pack hpack
    have heq := lockFields_delimited.of_isPrefix
      (a := (left.rootNodeId, left.nodes.map LockedPack.toLockedNode))
      (b := (right.rootNodeId, right.nodes.map LockedPack.toLockedNode))
      (hfits left hleft) (hfits right hright) hprefix
    obtain ⟨hroot, hnodes⟩ := Prod.mk.inj heq
    have hpacks := map_injective_iff.2 (toLockedNode_injective codec) hnodes
    cases left
    cases right
    simp_all
  · intro source source' packageId packageId' contentDigest contentDigest' hsource hsource'
      hpackage hpackage' hdigest hdigest' hprefix
    rw [packNodePreimage, packNodePreimage, prefix_append_right_inj] at hprefix
    have heq := nodeIdentityFields_delimited.of_isPrefix (a := (source, packageId, contentDigest))
      (b := (source', packageId', contentDigest')) ⟨hsource, hpackage, hdigest⟩
      ⟨hsource', hpackage', hdigest'⟩ hprefix
    obtain ⟨hsame, hrest⟩ := Prod.mk.inj heq
    exact ⟨hsame, Prod.mk.inj hrest⟩

end Injective

/-- A lock that differs in its URL only. -/
def otherUrlLock : Lock (twoNodeCodec shortUrlId) where
  rootNodeId := sampleRootId
  nodes := twoNodes 2 shortUrlId
  sorted := by decide +kernel
  valid := by decide +kernel

theorem twoNodes_representable : ∀ count ∈ [1, 2], ∀ node ∈ twoNodes count shortUrlId,
    node.toLockedNode.Representable := by
  simp only [LockedNode.representable_iff]
  decide +kernel

/-- Another URL gives another preimage. -/
theorem lockIdentities_injective_sample :
    ¬ lockGraphPreimage shortUrlLock <+: lockGraphPreimage otherUrlLock := by
  intro hprefix
  have hsame := (lockIdentities_injective _).1 shortUrlLock otherUrlLock
    ⟨sampleRootId_lt, twoNodes_representable 1 (by simp)⟩
    ⟨sampleRootId_lt, twoNodes_representable 2 (by simp)⟩ hprefix
  have hnodes := congrArg (fun lock : Lock _ => lock.nodes.map fun node => node.source) hsame
  exact absurd hnodes (by decide +kernel)

def edgelessRoot : LockedPack (hashCodec fun _ => sampleRootId) where
  nodeId := sampleRootId
  packageId := "org.example.root".toList
  source := .root
  contentDigest := ⟨1⟩
  dependencies := []
  components := []
  nodeId_eq := rfl
  dependencies_bounded := noDependencies_bounded
  components_bounded := noComponents_bounded
  aliases_sorted := noAliases_sorted
  names_sorted := noNames_sorted

def linkedRoot : LockedPack (hashCodec fun _ => sampleRootId) where
  nodeId := sampleRootId
  packageId := "org.example.root".toList
  source := .root
  contentDigest := ⟨1⟩
  dependencies := [⟨"dep".toList, shortUrlId⟩]
  components := []
  nodeId_eq := rfl
  dependencies_bounded := oneDependency_bounded _
  components_bounded := noComponents_bounded
  aliases_sorted := oneAlias_sorted _
  names_sorted := noNames_sorted

/-- Edges are not in the preimage of a node identity. -/
theorem linkedRoot_preimage :
    packNodePreimage edgelessRoot.source edgelessRoot.packageId edgelessRoot.contentDigest =
      packNodePreimage linkedRoot.source linkedRoot.packageId linkedRoot.contentDigest ∧
    edgelessRoot.dependencies ≠ linkedRoot.dependencies :=
  ⟨rfl, by decide⟩

end Malm.Pack
