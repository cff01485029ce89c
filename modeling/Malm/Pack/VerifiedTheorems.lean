/-
Malm.Pack.VerifiedTheorems — assembly with packs that the caller verified.

A supplied pack takes the place of the load for the digest that it is stored under,
and its own digest is not looked at. So the fast path gives the graph of the plain
assembly exactly when the entries that the lock asks for are stored under their own
digests (`verified_assembly_iff`).
-/
import Malm.Pack.ClosureTheorems

namespace Malm.Pack

open Commit Checks Except List Option

variable {digest : Digest}

/-! ## 1. The packs of a graph -/

section Assembly

variable {ε : Type} {packCodec : PackCodec} {codec : LockCodec} {lock : Lock codec}
  {objects : Digest → Except ε (List PackFile)} {verified : SortedMap Digest VerifiedPack}

theorem foldlM_assembleNode_get? {nodes : List (LockedPack codec)} {assembly r : Assembly}
    (h : nodes.foldlM (assembleNode packCodec lock objects verified) assembly = .ok r)
    (hresolved : Resolved packCodec objects verified assembly)
    (hnodup : (nodes.map fun node => node.nodeId).Nodup) :
    (∀ node ∈ nodes, ∃ pack, resolvePack packCodec objects verified node.contentDigest = .ok pack ∧
      r.packs.get? node.nodeId = some pack) ∧
    ∀ nodeId, nodeId ∉ nodes.map (fun node => node.nodeId) →
      r.packs.get? nodeId = assembly.packs.get? nodeId := by
  induction nodes generalizing assembly with
  | nil =>
    obtain rfl := pure_ok.1 h
    exact ⟨by simp, fun _ _ => rfl⟩
  | cons first rest ih =>
    obtain ⟨hfirst, hrest⟩ := nodup_cons.1 hnodup
    simp only [foldlM_cons, bind_ok, assembleNode, Prod.exists, pure_ok,
      mapError_ok, exists_unit] at h
    obtain ⟨middle, ⟨pack, loaded, hpack, -, rfl⟩, hfold⟩ := h
    obtain ⟨hload, hloaded⟩ := assemblePack_ok hpack hresolved
    obtain ⟨hpacks, hframe⟩ := ih hfold hloaded hrest
    have hset : ∀ nodeId, nodeId ∉ rest.map (fun node => node.nodeId) →
        r.packs.get? nodeId = (loaded.packs.insert first.nodeId pack).get? nodeId := hframe
    have hkeep : loaded.packs = assembly.packs := by
      unfold assemblePack at hpack
      split at hpack
      · cases hpack
        rfl
      · simp only [bind_ok, pure_ok] at hpack
        obtain ⟨found, -, total, -, heq⟩ := hpack
        cases heq
        rfl
    constructor
    · intro node hnode
      rcases mem_cons.1 hnode with rfl | hnode
      · exact ⟨pack, hload, by rw [hset _ hfirst, SortedMap.get?_insert, if_pos rfl]⟩
      · exact hpacks node hnode
    · intro nodeId hother
      obtain ⟨hne, hother⟩ := ne_and_not_mem_of_not_mem_cons hother
      rw [hset _ hother, SortedMap.get?_insert, if_neg hne, hkeep]

theorem assembled_get? {graph : AssembledLockedGraph codec}
    (h : assembleLockedGraphWithVerified packCodec lock objects verified = .ok graph)
    {node : LockedPack codec} (hnode : node ∈ lock.nodes) :
    ∃ pack, resolvePack packCodec objects verified node.contentDigest = .ok pack ∧
      graph.packs.get? node.nodeId = some pack := by
  simp only [assembleLockedGraphWithVerified, bind_ok, exists_unit, pure_ok] at h
  obtain ⟨assembly, hfold, -, rfl⟩ := h
  have hstart : Resolved packCodec objects verified ⟨.empty, .empty, 0⟩ := by
    intro digest pack hget
    cases hget
  exact (foldlM_assembleNode_get? hfold hstart lock.nodeIds_nodup).1 node hnode

/-! ## 2. The fast path -/

/-- The packs of a graph have the contents that the nodes of its lock name. -/
def AssembledLockedGraph.NamesContents (graph : AssembledLockedGraph codec) : Prop :=
  ∀ node ∈ graph.lock.nodes, ∀ pack, graph.packs.get? node.nodeId = some pack →
    pack.contentDigest = node.contentDigest

/-- The packs that the lock asks for are supplied under their own digests. -/
def SuppliedUnderOwnDigest (lock : Lock codec) (verified : SortedMap Digest VerifiedPack) : Prop :=
  ∀ node ∈ lock.nodes, ∀ pack, verified.get? node.contentDigest = some pack →
    pack.contentDigest = node.contentDigest

/-- Packs that were built from files, as `VerifiedPackV1` always is. -/
def BuiltFromFiles (packCodec : PackCodec) (verified : SortedMap Digest VerifiedPack) : Prop :=
  ∀ digest pack, verified.get? digest = some pack →
    ∃ files, VerifiedPack.fromFiles packCodec pack.contentDigest files = .ok pack

theorem resolvePack_supplied {pack : VerifiedPack} (h : verified.get? digest = some pack) :
    resolvePack packCodec objects verified digest = .ok pack := by
  rw [resolvePack, h]

theorem resolvePack_absent (h : verified.get? digest = none) :
    resolvePack packCodec objects verified digest =
      resolvePack packCodec objects .empty digest := by
  rw [resolvePack, h]
  rfl

theorem resolvePack_loaded {pack : VerifiedPack}
    (h : resolvePack packCodec objects .empty digest = .ok pack) :
    ∃ files, VerifiedPack.fromFiles packCodec digest files = .ok pack := by
  have hload : (do
      let files ← (objects digest).mapError (GraphAssemblyError.objectLoad digest)
      (VerifiedPack.fromFiles packCodec digest files).mapError
        (.objectVerification digest)) = ok pack := h
  simp only [bind_ok, mapError_ok] at hload
  obtain ⟨files, -, hfiles⟩ := hload
  exact ⟨files, hfiles⟩

/-- **When the fast path is transparent.** -/
theorem verified_assembly_iff (hfree : Function.Injective packCodec.contentDigest)
    (hbuilt : BuiltFromFiles packCodec verified) {graph : AssembledLockedGraph codec}
    (h : assembleLockedGraphWithVerified packCodec lock objects verified = .ok graph) :
    (graph.NamesContents ∧
      ∀ plain, assembleLockedGraph packCodec lock objects = .ok plain → graph = plain) ↔
      SuppliedUnderOwnDigest lock verified := by
  have hlock := (assembled_lock h).1
  constructor
  · rintro ⟨hnames, -⟩ node hnode pack hpack
    obtain ⟨found, hresolve, hfound⟩ := assembled_get? h hnode
    rw [resolvePack_supplied hpack] at hresolve
    obtain rfl := ok.inj hresolve
    exact hnames node (hlock ▸ hnode) pack hfound
  · intro hown
    constructor
    · intro node hnode pack hpack
      rw [hlock] at hnode
      obtain ⟨found, hresolve, hfound⟩ := assembled_get? h hnode
      obtain rfl := some.inj (hpack.symm.trans hfound)
      cases hsupplied : verified.get? node.contentDigest with
      | some supplied =>
        rw [resolvePack_supplied hsupplied] at hresolve
        obtain rfl := ok.inj hresolve
        exact hown node hnode supplied hsupplied
      | none =>
        rw [resolvePack_absent hsupplied] at hresolve
        obtain ⟨files, hfiles⟩ := resolvePack_loaded hresolve
        exact (fromFiles_ok hfiles).1
    · intro plain hplain
      have hsame : ∀ node ∈ lock.nodes, resolvePack packCodec objects verified node.contentDigest =
          resolvePack packCodec objects .empty node.contentDigest := by
        intro node hnode
        cases hsupplied : verified.get? node.contentDigest with
        | none => exact resolvePack_absent hsupplied
        | some supplied =>
          obtain ⟨loaded, hload, -⟩ := assembled_get? hplain hnode
          obtain ⟨files, hfiles⟩ := resolvePack_loaded hload
          obtain ⟨files', hfiles'⟩ := hbuilt node.contentDigest supplied hsupplied
          rw [hown node hnode supplied hsupplied] at hfiles'
          rw [resolvePack_supplied hsupplied, hload, fromFiles_unique hfree hfiles' hfiles]
      rw [assemble_congr hsame] at h
      exact ok.inj (h.symm.trans hplain)

end Assembly

/-! ## 3. A supplied pack of another digest -/

/-- The root pack without dependencies, and a copy with one more file. -/
def rootFiles : List PackFile := libraryFiles 1

def changedFiles : List PackFile := rootFiles ++ [⟨['x'], ⟨⟨4⟩, 1⟩⟩]

def rootDigest : Digest := countingPackCodec.contentDigest rootFiles

def changedDigest : Digest := countingPackCodec.contentDigest changedFiles

def rootObjects (digest : Digest) : Except Unit (List PackFile) :=
  if digest = rootDigest then .ok rootFiles else .error ()

def rootLock : Except LockValidationError (Lock sampleLockCodec) := do
  let root ← LockedPack.new sampleLockCodec ['w', '.', 'r'] .root rootDigest [] []
  Lock.new root.nodeId [root]

/-- The pack under the digest of the root, verified from given files. -/
def suppliedPack (digest : Digest) (files : List PackFile) :
    Except PackVerificationError (SortedMap Digest VerifiedPack) := do
  let pack ← VerifiedPack.fromFiles (librariesCodec 0 0) digest files
  return SortedMap.empty.insert rootDigest pack

theorem suppliedPack_built {files : List PackFile} {verified : SortedMap Digest VerifiedPack}
    (h : suppliedPack digest files = .ok verified) :
    BuiltFromFiles (librariesCodec 0 0) verified := by
  simp only [suppliedPack, bind_ok, pure_ok] at h
  obtain ⟨pack, hpack, rfl⟩ := h
  intro other found hfound
  rcases SortedMap.of_get?_insert hfound with ⟨-, rfl⟩ | hfound
  · exact ⟨files, (fromFiles_ok hpack).1 ▸ hpack⟩
  · cases hfound

/-- The root pack is supplied under its own digest. -/
theorem verified_assembly_iff_sample : ∃ lock verified graph, rootLock = .ok lock ∧
    suppliedPack rootDigest rootFiles = .ok verified ∧
    assembleLockedGraphWithVerified (librariesCodec 0 0) lock rootObjects verified = .ok graph ∧
    graph.NamesContents := by
  have hsample : okAnd rootLock (fun lock =>
      okAnd (suppliedPack rootDigest rootFiles) fun verified =>
        decide (∀ node ∈ lock.nodes, ∀ pack ∈ verified.get? node.contentDigest,
          pack.contentDigest = node.contentDigest) &&
        okAnd (assembleLockedGraphWithVerified (librariesCodec 0 0) lock rootObjects
          verified) fun _ => true) = true := by
    decide +kernel
  obtain ⟨lock, hlock, hrest⟩ := okAnd_iff.1 hsample
  obtain ⟨verified, hverified, hrest⟩ := okAnd_iff.1 hrest
  rw [Bool.and_eq_true, decide_eq_true_iff] at hrest
  obtain ⟨graph, hgraph, -⟩ := okAnd_iff.1 hrest.2
  exact ⟨lock, verified, graph, hlock, hverified, hgraph,
    ((verified_assembly_iff librariesCodec_injective (suppliedPack_built hverified) hgraph).2
      hrest.1).1⟩

/-- The changed copy under the digest of the root is used. -/
theorem mismatched_entry_used :
    ¬ ∀ (packCodec : PackCodec) (codec : LockCodec) (lock : Lock codec)
      (objects : Digest → Except Unit (List PackFile)) (verified : SortedMap Digest VerifiedPack)
      (graph : AssembledLockedGraph codec), Function.Injective packCodec.contentDigest →
      BuiltFromFiles packCodec verified →
      assembleLockedGraphWithVerified packCodec lock objects verified = .ok graph →
        graph.NamesContents ∧
          ∀ plain, assembleLockedGraph packCodec lock objects = .ok plain → graph = plain := by
  intro hclaim
  have hsample : okAnd rootLock (fun lock =>
      okAnd (suppliedPack changedDigest changedFiles) fun verified =>
        okAnd (assembleLockedGraphWithVerified (librariesCodec 0 0) lock rootObjects
          verified) fun graph => decide (¬ ∀ node ∈ graph.lock.nodes,
            ∀ pack ∈ graph.packs.get? node.nodeId, pack.contentDigest = node.contentDigest)) =
      true := by
    decide +kernel
  obtain ⟨lock, hlock, hrest⟩ := okAnd_iff.1 hsample
  obtain ⟨verified, hverified, hrest⟩ := okAnd_iff.1 hrest
  obtain ⟨graph, hgraph, hdiffers⟩ := okAnd_iff.1 hrest
  rw [decide_eq_true_iff] at hdiffers
  exact hdiffers (hclaim _ _ lock rootObjects verified graph librariesCodec_injective
    (suppliedPack_built hverified) hgraph).1

end Malm.Pack
