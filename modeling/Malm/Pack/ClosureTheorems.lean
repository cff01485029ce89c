/-
Malm.Pack.ClosureTheorems — a lock is the dependency closure of its root.

A resolution succeeds exactly when the closure exists within the limits, has no cycle and
no component without a profile, in any order of the dependencies, and resolving again over
the published packs gives the same lock. A resolution does not count modules, so assembly
also asks for few enough of them.
-/
import Malm.Pack.ResolveLock

namespace Malm.Pack

open Commit Checks List Option Finset Pack VerifiedPack NodesOf LockedPack

variable {expected : Option Digest} {hash left right : Nat}

variable {packs' : LockedSource → Option VerifiedPack} {profile : Option Digest}
  {source target : LockedSource}

/-! ## 1. When a resolution succeeds -/

/-- The reader returns manifests as their constructor leaves them. -/
def PackCodec.Constructs (packCodec : PackCodec) : Prop :=
  ∀ bytes manifest, packCodec.decodePack bytes = some manifest → manifest.Constructed

variable {packCodec : PackCodec} {world : SourceWorld} {inputs : LockResolutionInputs}
  {codec : LockCodec} {oldLock : Option (Lock codec)} {packs : LockedSource → Option VerifiedPack}
  {sources : Finset LockedSource} {pack : VerifiedPack}

section Resolutions

variable {discovered : SortedMap LockedSource VerifiedPack}

variable {lock : Lock codec}

theorem fromFiles_manifest {d : Digest} {files : List PackFile}
    (h : fromFiles packCodec d files = .ok pack) :
    ∃ bytes, packCodec.decodePack bytes = some pack.manifest := by
  unfold fromFiles at h
  simp only [bind_ok, exists_unit, pure_ok] at h
  obtain ⟨actual, -, manifest, hmanif, -, rfl⟩ := h
  simp only [checkManifestReferences, bind_ok, require_ok] at hmanif
  obtain ⟨bytes, -, decoded, hdecoded, hrest⟩ := hmanif
  refine ⟨bytes, ?_⟩
  simp only [exists_unit, pure_ok] at hrest
  obtain ⟨-, -, -, -, -, -, rfl⟩ := hrest
  exact hdecoded

theorem sourcePacks_constructed (hreader : packCodec.Constructs) : ∀ source pack,
    sourcePacks packCodec world inputs oldLock source = some pack → pack.manifest.Constructed := by
  intro source pack h
  obtain ⟨files, hfiles⟩ := provide_verified (sourcePacks_eq_some.1 h)
  obtain ⟨bytes, hbytes⟩ := fromFiles_manifest hfiles
  exact hreader bytes pack.manifest hbytes

theorem HoldsPacks.unique {discovered' : SortedMap LockedSource VerifiedPack}
    (h : HoldsPacks packs sources discovered) (h' : HoldsPacks packs sources discovered') :
    discovered = discovered' :=
  SortedMap.ext_get? fun source => ext fun pack => (h source pack).trans (h' source pack).symm

section

variable (hpacks : packs = sourcePacks packCodec world inputs oldLock) (hone : OnePack packs)
include hpacks hone

theorem resolveGraph_closes {res : Resolution codec}
    (h : resolveGraph packCodec world inputs oldLock = .ok res) :
    ∃ sources, Closes packs sources ∧ Within packs world sources ∧
      HoldsPacks packs sources res.discovered ∧
      lockDiscovered inputs codec res.discovered = .ok res.lock := by
  simp only [resolveGraph, bind_ok, pure_ok] at h
  obtain ⟨root, hroot, start, hstart, walk, hwalk, lock, hlock, rfl⟩ := h
  obtain ⟨hcloses, hwithin, hholds⟩ :=
    walk_closes hpacks hone ((capturePack_root hpacks).1 hroot) hstart hwalk
  exact ⟨walk.sources, hcloses, hwithin, hholds, hlock⟩

theorem walk_holdsPacks (hcloses : Closes packs sources) (hwithin : Within packs world sources) :
    ∃ root start walk, packs .root = some root ∧ startWalk world root = .ok start ∧
      walkPending packCodec world inputs oldLock maxLockNodes start = .ok walk ∧
      HoldsPacks packs sources walk.discovered := by
  obtain ⟨root, start, walk, hroot, hstart, hwalk, hsources⟩ :=
    walk_succeeds hpacks hone hcloses hwithin
  obtain ⟨-, -, hwalked⟩ := walk_closes hpacks hone hroot hstart hwalk
  rw [hsources] at hwalked
  exact ⟨root, start, walk, hroot, hstart, hwalk, hwalked⟩

end

section

variable (hpacks : packs = sourcePacks packCodec world inputs oldLock) (hone : OnePack packs)
  (hcloses : Closes packs sources) (hwithin : Within packs world sources)

include hpacks hone hcloses hwithin

theorem resolveGraph_of (hholds : HoldsPacks packs sources discovered)
    (hlock : lockDiscovered inputs codec discovered = .ok lock) :
    ∃ bytes, resolveGraph packCodec world inputs oldLock = .ok ⟨lock, discovered, bytes⟩ := by
  obtain ⟨root, start, walk, hroot, hstart, hwalk, hwalked⟩ :=
    walk_holdsPacks hpacks hone hcloses hwithin
  obtain rfl := HoldsPacks.unique hholds hwalked
  refine ⟨walk.processedBytes, ?_⟩
  simp only [resolveGraph, bind_ok, pure_ok]
  exact ⟨root, (capturePack_root hpacks).2 hroot, start, hstart, walk, hwalk, lock, hlock, rfl⟩

theorem exists_holdsPacks :
    ∃ discovered, HoldsPacks packs sources discovered := by
  obtain ⟨root, start, walk, -, -, -, hwalked⟩ := walk_holdsPacks hpacks hone hcloses hwithin
  exact ⟨walk.discovered, hwalked⟩

end

/-- **When a resolution succeeds.** -/
theorem resolveGraph_ok_iff (hfree : Function.Injective packCodec.contentDigest)
    (hnamed : codec.Named) (hreader : packCodec.Constructs)
    (hpacks : packs = sourcePacks packCodec world inputs oldLock) :
    (∃ res, resolveGraph packCodec world inputs oldLock = .ok res) ↔
      ∃ sources, Closes packs sources ∧ Within packs world sources ∧
        Profiled packs inputs.formatComponentExecutionProfile sources ∧ Acyclic packs sources := by
  have hone : OnePack packs := hpacks ▸ sourcePacks_onePack hfree
  have hconstructed : ∀ source pack, packs source = some pack → pack.manifest.Constructed :=
    hpacks ▸ sourcePacks_constructed hreader
  constructor
  · rintro ⟨res, h⟩
    obtain ⟨sources, hcloses, hwithin, hholds, hlock⟩ := resolveGraph_closes hpacks hone h
    obtain ⟨hprofiled, hacyclic⟩ := (lockDiscovered_ok inputs hholds hcloses hwithin hnamed
      hconstructed).1.1 ⟨_, hlock⟩
    exact ⟨sources, hcloses, hwithin, hprofiled, hacyclic⟩
  · rintro ⟨sources, hcloses, hwithin, hprofiled, hacyclic⟩
    obtain ⟨discovered, hholds⟩ := exists_holdsPacks hpacks hone hcloses hwithin
    obtain ⟨lock, hlock⟩ : ∃ lock, lockDiscovered inputs codec discovered = .ok lock :=
      (lockDiscovered_ok inputs hholds hcloses hwithin hnamed hconstructed).1.2 ⟨hprofiled, hacyclic⟩
    obtain ⟨bytes, hresolved⟩ := resolveGraph_of hpacks hone hcloses hwithin hholds hlock
    exact ⟨_, hresolved⟩

/-! ## 2. The contents of the lock -/

/-- The lock of a closure: a node for each source that the root requires. -/
structure LocksClosure (packs : LockedSource → Option VerifiedPack) (profile : Option Digest)
    (lock : Lock codec) : Prop where
  root : lock.rootNodeId = nodeIdAt codec packs .root
  sources : ∀ source, (∃ node ∈ lock.nodes, node.source = source) ↔ Required packs source
  contents : ∀ node ∈ lock.nodes, ∃ pack, packs node.source = some pack ∧
    node.nodeId = nodeIdAt codec packs node.source ∧
    node.packageId = pack.manifest.packageId ∧ node.contentDigest = pack.contentDigest ∧
    (∀ edge, edge ∈ node.dependencies ↔ ∃ dependency ∈ pack.manifest.dependencies,
      ⟨dependency.aliasName, nodeIdAt codec packs (.fromDependency dependency.source)⟩ = edge) ∧
    ∀ component, component ∈ node.components ↔ ∃ declaration ∈ pack.manifest.components,
      ∃ digest, profile = some digest ∧ .fromDeclaration declaration digest = component

theorem LockOf.locksClosure (h : LockOf profile discovered packs lock)
    (hholds : HoldsPacks packs sources discovered) (hcloses : Closes packs sources) :
    LocksClosure packs profile lock := by
  refine ⟨h.root, ?_, ?_⟩
  · intro source
    rw [← hcloses.required]
    constructor
    · rintro ⟨node, hnode, rfl⟩
      obtain ⟨source, hmem, pack, -, hfields⟩ := h.nodes.of_mem hholds hnode
      rw [hfields]
      exact hmem
    · intro hmem
      obtain ⟨pack, hpack⟩ := hcloses.available source hmem
      obtain ⟨node, hnode, hfields⟩ := h.nodes.mem_of hholds hmem hpack
      exact ⟨node, hnode, by rw [hfields]; rfl⟩
  · intro node hnode
    obtain ⟨source, hmem, pack, hpack, hfields⟩ := h.nodes.of_mem hholds hnode
    rw [hfields]
    refine ⟨pack, hpack, (nodeIdAt_of hpack).symm, rfl, rfl, ?_, ?_⟩
    · intro edge
      show edge ∈ sortDependencies _ ↔ _
      rw [sortDependencies, (perm_insertionSort _ _).mem_iff, lockedDependencies, List.mem_map]
    · intro comp
      show comp ∈ sortComponents _ ↔ _
      rw [sortComponents, (perm_insertionSort _ _).mem_iff, lockedComponents, mem_flatMap]
      simp only [Option.mem_toList, List.mem_map]
      constructor
      · rintro ⟨d, hdigest, decl, hdeclaration, rfl⟩
        exact ⟨decl, hdeclaration, d, hdigest, rfl⟩
      · rintro ⟨decl, hdeclaration, d, hdigest, rfl⟩
        exact ⟨d, hdigest, decl, hdeclaration, rfl⟩

/-! ## 3. The published packs -/

theorem published_reads (hpacks : packs = sourcePacks packCodec world inputs oldLock)
    (hone : OnePack packs) (hholds : HoldsPacks packs sources discovered)
    (hmem : source ∈ sources) (hpack : packs source = some pack) :
    ∃ files, world.published discovered pack.contentDigest = .ok files ∧
      fromFiles packCodec pack.contentDigest files = .ok pack := by
  have hverified : fromFiles packCodec pack.contentDigest pack.packFiles = .ok pack := by
    rw [hpacks, sourcePacks_eq_some] at hpack
    obtain ⟨files, hfiles⟩ := provide_verified hpack
    exact fromFiles_packFiles hfiles
  unfold SourceWorld.published
  cases hfind : discovered.entries.find? fun e => e.2.contentDigest = pack.contentDigest with
  | none =>
    have hnone := find?_eq_none.1 hfind (source, pack) (hholds.mem_entries.2 ⟨hmem, hpack⟩)
    simp at hnone
  | some e =>
    obtain ⟨other, found⟩ := e
    have hdigest : found.contentDigest = pack.contentDigest := by
      simpa using find?_some hfind
    obtain ⟨-, hfound⟩ := hholds.mem_entries.1 (mem_of_find?_eq_some hfind)
    obtain rfl := hone other source found pack hfound hpack hdigest
    exact ⟨found.packFiles, rfl, hverified⟩

theorem Closes.congr (h : Closes packs sources)
    (hsame : ∀ source ∈ sources, packs' source = packs source) : Closes packs' sources := by
  have himports : ∀ source ∈ sources, ∀ target,
      Imports packs' source target ↔ Imports packs source target := by
    intro source hmem target
    rw [Imports, Imports, hsame source hmem]
  refine ⟨?_, ?_, ?_⟩
  · intro source
    rw [h.required]
    constructor
    · intro hreq
      induction hreq with
      | refl => exact .refl
      | tail hbefore hlast ih =>
        exact ih.tail ((himports _ ((h.required _).2 hbefore) _).2 hlast)
    · intro hreq
      induction hreq with
      | refl => exact .refl
      | tail hbefore hlast ih =>
        exact ih.tail ((himports _ ((h.required _).2 ih) _).1 hlast)
  · intro source hmem
    rw [hsame source hmem]
    exact h.available source hmem
  · intro source hmem pack hpack dep hdep target htarget
    rw [hsame source hmem] at hpack
    have hin := h.imports hmem ⟨pack, hpack, dep, hdep, rfl⟩
    rw [hsame _ hin] at htarget
    exact h.packages source hmem pack hpack dep hdep target htarget

theorem Within.congr (h : Within packs world sources)
    (hsame : ∀ source ∈ sources, packs' source = packs source) : Within packs' world sources := by
  have hedges : ∀ source ∈ sources, edgesAt packs' source = edgesAt packs source := by
    intro source hmem
    rw [edgesAt, edgesAt, hsame source hmem]
  have hbytes : ∀ source ∈ sources, bytesAt packs' source = bytesAt packs source := by
    intro source hmem
    rw [bytesAt, bytesAt, hsame source hmem]
  have hobjs : sources.image (objectAt packs') = sources.image (objectAt packs) := by
    refine image_congr fun source hmem => ?_
    rw [objectAt, objectAt, hsame source hmem]
  refine ⟨⟨h.nodes, ?_, ?_, h.descriptors⟩, ?_⟩
  · rw [sum_congr rfl hbytes]
    exact h.processed
  · rw [objectBytes, hobjs]
    exact h.unique
  · rw [sum_congr rfl hedges]
    exact h.edges

/-- The sources of the closure give the same packs once the packs and the lock are published. -/
theorem republished_packs (hpacks : packs = sourcePacks packCodec world inputs oldLock)
    (hone : OnePack packs) (hholds : HoldsPacks packs sources discovered)
    (hlock : LocksClosure packs inputs.formatComponentExecutionProfile lock)
    (hcloses : Closes packs sources) (hmem : source ∈ sources) :
    sourcePacks packCodec (world.publish discovered) inputs (some lock) source = packs source := by
  obtain ⟨pack, hpack⟩ := hcloses.available source hmem
  have hprovide := hpack
  rw [hpacks, sourcePacks_eq_some] at hprovide
  rw [hpack, sourcePacks_eq_some]
  cases source with
  | root => exact hprovide
  | localLocator locator => exact hprovide
  | git git =>
    simp only [provide, discoverGit, bind_ok, exists_unit] at hprovide ⊢
    refine ⟨hprovide.1, ?_⟩
    have hpinned : oldGit (some lock) git = some pack.contentDigest := by
      obtain ⟨node, hnode, hsource⟩ := (hlock.sources (.git git)).2 ((hcloses.required _).1 hmem)
      unfold oldGit
      cases hfind : lock.nodes.find? fun node => node.source = .git git with
      | none =>
        have hnone := find?_eq_none.1 hfind node hnode
        simp [hsource] at hnone
      | some found =>
        have hfound : found.source = .git git := by simpa using find?_some hfind
        obtain ⟨content, hcontent, -, -, hdigest, -⟩ :=
          hlock.contents found (mem_of_find?_eq_some hfind)
        rw [hfound, hpack, some.injEq] at hcontent
        simp [hfind, hdigest, hcontent]
    obtain ⟨files, hfiles, hverified⟩ := published_reads hpacks hone hholds hmem hpack
    have hobjs : (world.publish discovered).objects pack.contentDigest = .ok files := hfiles
    rw [hpinned]
    cases decide (git ∈ inputs.gitScratchRoots) with
    | false =>
      simp only [loadPinned, hobjs]
      rw [hverified]
      rfl
    | true =>
      simp only [acquireForLock, reuseCached, hobjs, hverified]
      rfl

/-- **Resolving again gives the same lock.** -/
theorem resolveGraph_again (hfree : Function.Injective packCodec.contentDigest)
    (hnamed : codec.Named) (hreader : packCodec.Constructs) {res : Resolution codec}
    (h : resolveGraph packCodec world inputs oldLock = .ok res) :
    ∃ again, resolveGraph packCodec (world.publish res.discovered) inputs
      (some res.lock) = .ok again ∧ again.lock = res.lock := by
  have hone : OnePack (sourcePacks packCodec world inputs oldLock) := sourcePacks_onePack hfree
  obtain ⟨sources, hcloses, hwithin, hholds, hlock⟩ := resolveGraph_closes rfl hone h
  have hlockOf := (lockDiscovered_ok inputs hholds hcloses hwithin hnamed
    (sourcePacks_constructed hreader)).2 _ hlock
  have hlocks := hlockOf.locksClosure hholds hcloses
  have hsame : ∀ source ∈ sources, _ = sourcePacks packCodec world inputs oldLock source :=
    fun source hmem => republished_packs rfl hone hholds hlocks hcloses hmem
  have hholds' : HoldsPacks (sourcePacks packCodec (world.publish res.discovered) inputs
      (some res.lock)) sources res.discovered := by
    intro source pack
    rw [hholds]
    exact and_congr_right fun hmem => by rw [hsame source hmem]
  have hwithin' : Within _ (world.publish res.discovered) sources :=
    ⟨⟨(hwithin.congr hsame).nodes, (hwithin.congr hsame).processed, (hwithin.congr hsame).unique,
      hwithin.descriptors⟩, (hwithin.congr hsame).edges⟩
  obtain ⟨bytes, hagain⟩ := resolveGraph_of rfl (sourcePacks_onePack hfree) (hcloses.congr hsame)
    hwithin' hholds' hlock
  exact ⟨_, hagain, rfl⟩

/-! ## 4. Assembly -/

theorem LockOf.validateManifest (h : LockOf profile discovered packs lock)
    (hholds : HoldsPacks packs sources discovered) (hcloses : Closes packs sources)
    (hprofiled : Profiled packs profile sources) (hmem : source ∈ sources)
    (hpack : packs source = some pack) (hconstructed : pack.manifest.Constructed) :
    lock.validateManifest (nodeIdAt codec packs source) pack.manifest = .ok () := by
  obtain ⟨node, hnode, hfields⟩ := mem_of h.nodes hholds hmem hpack
  have hid : node.nodeId = nodeIdAt codec packs source := by
    rw [hfields, nodeIdAt_of hpack]
    rfl
  have hcomps : node.components = lockedComponents profile pack.manifest := by
    rw [hfields]
    show sortComponents _ = _
    refine List.Pairwise.insertionSort_eq ?_
    cases profile with
    | none => exact .nil
    | some profile =>
      have hnames := hconstructed.componentNames
      rw [← lockedComponents_names profile, pairwise_map] at hnames
      exact hnames.imp fun hlt => le_of_lt (Prod.Lex.toLex_lt_toLex.2 (.inl hlt))
  have hagree : node.components.length = pack.manifest.components.length ∧
      ((node.components.zip pack.manifest.components).all
        fun pair => pair.1.agreesWith pair.2) = true := by
    rw [hcomps]
    cases hprof : profile with
    | none =>
      rw [hprofiled hprof source hmem pack hpack]
      exact ⟨rfl, rfl⟩
    | some digest =>
      have hlocked : lockedComponents (some digest) pack.manifest =
          pack.manifest.components.map fun comp => .fromDeclaration comp digest := by
        simp [lockedComponents]
      rw [hlocked, length_map]
      refine ⟨rfl, ?_⟩
      induction pack.manifest.components with
      | nil => rfl
      | cons first rest ih =>
        simpa [LockedComponent.agreesWith, LockedComponent.fromDeclaration] using ih
  have hedges : node.dependencies.Perm (lockedDependencies (nodeIdAt codec packs) pack.manifest) := by
    rw [hfields]
    exact perm_insertionSort _ _
  have hlen : node.dependencies.length = pack.manifest.dependencies.length := by
    rw [hedges.length_eq, lockedDependencies, length_map]
  have hpackage : node.packageId = pack.manifest.packageId := by
    rw [hfields]
    rfl
  simp only [Lock.validateManifest, bind_ok, exists_unit, reject_ok,
    require_ok, forM_ok, not_or, not_not, lock.findNode_eq_some]
  refine ⟨node, ⟨hnode, hid⟩, hpackage, hagree, hlen, ?_⟩
  intro decl hdeclaration
  have hin := hcloses.imports hmem ⟨pack, hpack, decl, hdeclaration, rfl⟩
  obtain ⟨content, hcontent⟩ := hcloses.available _ hin
  obtain ⟨t, htarget, htargetFields⟩ := mem_of h.nodes hholds hin hcontent
  have hmemEdge : (⟨decl.aliasName, nodeIdAt codec packs
      (.fromDependency decl.source)⟩ : LockedDependency) ∈ node.dependencies :=
    hedges.mem_iff.2 (mem_map.2 ⟨decl, hdeclaration, rfl⟩)
  have hnodup : (node.dependencies.map LockedDependency.aliasName).Nodup :=
    node.aliases_sorted.imp fun hlt => ne_of_lt hlt
  refine ⟨_, (Keyed.find?_eq_some hnodup).2 ⟨hmemEdge, rfl⟩, t, ⟨htarget, ?_⟩, ?_, ?_⟩
  · rw [htargetFields, nodeIdAt_of hcontent]
    rfl
  · rw [htargetFields]
    exact hcloses.packages source hmem pack hpack decl hdeclaration content hcontent
  · rw [htargetFields]
    rfl

/-- What the loop over the nodes has loaded is what the resolution saw. -/
structure Assembly.Loads (codec : LockCodec) (packs : LockedSource → Option VerifiedPack)
    (seen : Finset LockedSource) (assembly : Assembly) : Prop where
  byDigest : ∀ digest pack, assembly.byDigest.get? digest = some pack →
    ∃ source ∈ seen, packs source = some pack ∧ pack.contentDigest = digest
  objects : ∀ source ∈ seen, ∀ pack, packs source = some pack →
    ∃ found, assembly.byDigest.get? pack.contentDigest = some found
  loaded : ∀ source ∈ seen, ∀ pack, packs source = some pack →
    assembly.packs.get? (nodeIdAt codec packs source) = some pack
  total : assembly.totalObjectBytes = objectBytes packs seen

section Assembling

variable {ε : Type} {objects : Digest → Except ε (List PackFile)} {seen : Finset LockedSource}
  {assembly : Assembly}

/-- One turn of assembly loads one more locked pack. -/
theorem Assembly.Loads.step (h : assembly.Loads codec packs seen) (hone : OnePack packs)
    (hnamed : codec.Named) (havailable : ∀ source ∈ sources, ∃ pack, packs source = some pack)
    (hseen : seen ⊆ sources) (hunique : objectBytes packs sources ≤ maxGraphObjectBytes)
    {source : LockedSource} (hmem : source ∈ sources) {pack : VerifiedPack}
    (hpack : packs source = some pack) (hread : ∃ files, objects pack.contentDigest = .ok files ∧
      fromFiles packCodec pack.contentDigest files = .ok pack)
    (hmanif : lock.validateManifest (nodeIdAt codec packs source) pack.manifest = .ok ())
    {node : LockedPack codec} (hid : node.nodeId = nodeIdAt codec packs source)
    (hdigest : node.contentDigest = pack.contentDigest) :
    ∃ next, assembleNode packCodec lock objects .empty assembly node = .ok next ∧
      next.Loads codec packs (insert source seen) := by
  have hsub : insert source seen ⊆ sources := insert_subset hmem hseen
  have hloaded : ∀ other ∈ insert source seen, ∀ found, packs other = some found →
      (assembly.packs.insert node.nodeId pack).get? (nodeIdAt codec packs other) = some found := by
    intro other hother found hfound
    rw [SortedMap.get?_insert, hid]
    split
    · rename_i hsame
      obtain rfl := nodeIdAt_inj hnamed havailable (hsub hother) hmem hsame
      rw [← hpack, hfound]
    · rename_i hdist
      rcases mem_insert.1 hother with rfl | hother
      · exact absurd rfl hdist
      · exact h.loaded other hother found hfound
  have hinsert := objectBytes_insert hone (fun other hother => havailable other (hseen hother)) hpack
  obtain ⟨files, hfiles, hverified⟩ := hread
  cases hget : assembly.byDigest.get? pack.contentDigest with
  | some found =>
    obtain ⟨other, hother, hfound, hsame⟩ := h.byDigest _ _ hget
    obtain rfl := hone other source found pack hfound hpack hsame
    have hknown : ∃ other ∈ seen, (objectAt packs other).1 = found.contentDigest :=
      ⟨other, hother, by rw [objectAt_of hfound]⟩
    rw [if_pos hknown] at hinsert
    refine ⟨{ assembly with packs := assembly.packs.insert node.nodeId found }, ?_, ?_, ?_, hloaded,
      h.total.trans hinsert.symm⟩
    · simp only [assembleNode, assemblePack, hdigest, hget, hid, bind_ok, pure_ok,
        mapError_ok, exists_unit, Prod.exists]
      exact ⟨found, assembly, rfl, hmanif, rfl⟩
    · intro d content hcontent
      obtain ⟨origin, horigin, hrest⟩ := h.byDigest d content hcontent
      exact ⟨origin, mem_insert_of_mem horigin, hrest⟩
    · intro origin horigin content hcontent
      rcases mem_insert.1 horigin with rfl | horigin
      · obtain rfl : found = content := some.inj (hpack.symm.trans hcontent)
        exact ⟨found, hget⟩
      · exact h.objects origin horigin content hcontent
  | none =>
    have hnew : ¬ ∃ other ∈ seen, (objectAt packs other).1 = pack.contentDigest := by
      rintro ⟨other, hother, hsame⟩
      obtain ⟨found, hfound⟩ := havailable other (hseen hother)
      simp only [objectAt_of hfound] at hsame
      obtain ⟨content, hcontent⟩ := h.objects other hother found hfound
      rw [hsame, hget] at hcontent
      cases hcontent
    rw [if_neg hnew] at hinsert
    have hfits : assembly.totalObjectBytes + pack.totalBytes ≤ maxGraphObjectBytes := by
      rw [h.total, ← hinsert]
      exact (objectBytes_mono hsub).trans hunique
    refine ⟨⟨assembly.byDigest.insert pack.contentDigest pack,
      assembly.packs.insert node.nodeId pack, assembly.totalObjectBytes + pack.totalBytes⟩,
      ?_, ?_, ?_, hloaded, ?_⟩
    · simp only [assembleNode, assemblePack, hdigest, hget, hid, resolvePack, chargeObjectBytes,
        SortedMap.get?_empty, bind_ok, pure_ok, mapError_ok,
        exists_unit, reject_ok, Prod.exists, not_lt]
      exact ⟨pack, _, ⟨pack, ⟨files, hfiles, hverified⟩, _, ⟨hfits, rfl⟩, rfl⟩, hmanif, rfl⟩
    · intro d content hcontent
      change (assembly.byDigest.insert pack.contentDigest pack).get? d = some content at hcontent
      rcases SortedMap.of_get?_insert hcontent with ⟨hsame, rfl⟩ | hcontent
      · exact ⟨source, mem_insert_self source seen, hpack, hsame.symm⟩
      · obtain ⟨origin, horigin, hrest⟩ := h.byDigest d content hcontent
        exact ⟨origin, mem_insert_of_mem horigin, hrest⟩
    · intro origin horigin content hcontent
      show ∃ found, (assembly.byDigest.insert pack.contentDigest pack).get? _ = some found
      rw [SortedMap.get?_insert]
      split
      · exact ⟨pack, rfl⟩
      · rename_i hdist
        rcases mem_insert.1 horigin with rfl | horigin
        · obtain rfl : pack = content := some.inj (hpack.symm.trans hcontent)
          exact absurd rfl hdist
        · exact h.objects origin horigin content hcontent
    · rw [hinsert, ← h.total]

end Assembling

def discoveredModules (discovered : SortedMap LockedSource VerifiedPack) : Nat :=
  (discovered.entries.map fun entry => entry.2.manifest.modules.length).sum

section Assemblies

variable (hpacks : packs = sourcePacks packCodec world inputs oldLock) (hone : OnePack packs)
  (hnamed : codec.Named)
  (hconstructed : ∀ source pack, packs source = some pack → pack.manifest.Constructed)
  (hcloses : Closes packs sources) (hwithin : Within packs world sources)
  (hprofiled : Profiled packs profile sources) (hholds : HoldsPacks packs sources discovered)
  (hof : LockOf profile discovered packs lock)

include hpacks hone hnamed hconstructed hcloses hwithin hprofiled hholds hof

theorem assembleNodes_load {nodes : List (LockedPack codec)} (hnodes : nodes ⊆ lock.nodes)
    {seen : Finset LockedSource} (hseen : seen ⊆ sources) {assembly : Assembly}
    (h : assembly.Loads codec packs seen) :
    ∃ next final, nodes.foldlM (assembleNode packCodec lock (world.published discovered) .empty)
        assembly = .ok next ∧ next.Loads codec packs final ∧
      ∀ source, source ∈ final ↔ source ∈ seen ∨ ∃ node ∈ nodes, node.source = source := by
  induction nodes generalizing seen assembly with
  | nil => exact ⟨assembly, seen, rfl, h, by simp⟩
  | cons first rest ih =>
    obtain ⟨hfirst, hrest⟩ := cons_subset.1 hnodes
    obtain ⟨source, hmem, pack, hpack, hfields⟩ := of_mem hof.nodes hholds hfirst
    have hsource : first.source = source := by
      rw [hfields]
      rfl
    have hid : first.nodeId = nodeIdAt codec packs source := by
      rw [hfields, nodeIdAt_of hpack]
      rfl
    have hdigest : first.contentDigest = pack.contentDigest := by
      rw [hfields]
      rfl
    have hmanif := hof.validateManifest hholds hcloses hprofiled hmem hpack
      (hconstructed source pack hpack)
    obtain ⟨mid, hstep, hmiddle⟩ := h.step hone hnamed hcloses.available hseen hwithin.unique
      hmem hpack (published_reads hpacks hone hholds hmem hpack) hmanif hid hdigest
    obtain ⟨next, final, hfold, hnext, hfinal⟩ :=
      ih hrest (insert_subset hmem hseen) hmiddle
    refine ⟨next, final, ?_, hnext, ?_⟩
    · rw [foldlM_cons, hstep]
      exact hfold
    · intro other
      rw [hfinal, mem_insert, exists_mem_cons_iff, hsource]
      constructor
      · rintro ((rfl | hother) | hother)
        · exact .inr (.inl rfl)
        · exact .inl hother
        · exact .inr (.inr hother)
      · rintro (hother | rfl | hother)
        · exact .inl (.inr hother)
        · exact .inl (.inl rfl)
        · exact .inr hother

/-- **Assembly accepts the lock when its packs have few enough modules.** -/
theorem assembleLockedGraph_ok :
    (∃ graph, assembleLockedGraph packCodec lock (world.published discovered) = .ok graph) ↔
      discoveredModules discovered ≤ maxGraphModules := by
  have hstart : Assembly.Loads codec packs ∅ ⟨.empty, .empty, 0⟩ := by
    refine ⟨?_, ?_, ?_, rfl⟩
    · intro d pack hget
      cases hget
    · intro source hsource
      cases hsource
    · intro source hsource
      cases hsource
  obtain ⟨next, final, hfold, hnext, hfinal⟩ := assembleNodes_load hpacks hone hnamed hconstructed
    hcloses hwithin hprofiled hholds hof (List.Subset.refl lock.nodes) (empty_subset sources)
    hstart
  have hcount : moduleCount lock next.packs = discoveredModules discovered := by
    have hentries : ∀ e ∈ discovered.entries,
        ((packs e.1).map fun pack => pack.manifest.modules.length).getD 0 =
          e.2.manifest.modules.length := by
      rintro ⟨source, pack⟩ hentry
      rw [(hholds.mem_entries.1 hentry).2]
      rfl
    unfold moduleCount discoveredModules
    refine (congrArg sum (?_ : _ = lock.nodes.map fun node =>
      ((packs node.source).map fun pack => pack.manifest.modules.length).getD 0)).trans ?_
    · refine map_congr_left fun node hnode => ?_
      obtain ⟨source, hmem, pack, hpack, hfields⟩ := of_mem hof.nodes hholds hnode
      have hloaded := hnext.loaded source ((hfinal source).2 (.inr ⟨node, hnode, by
        rw [hfields]
        rfl⟩)) pack hpack
      rw [nodeIdAt_of hpack] at hloaded
      rw [hfields]
      simp only [nodeFields, hloaded, hpack, map_some, getD_some]
    rw [← map_congr_left hentries]
    exact (map hof.nodes fun node =>
      ((packs node.source).map fun pack => pack.manifest.modules.length).getD 0).sum_eq
  simp only [assembleLockedGraph, assembleLockedGraphWithVerified, bind_ok,
    exists_unit, reject_ok, pure_ok, not_lt]
  constructor
  · rintro ⟨graph, assembly, hassembly, hlimit, -⟩
    rw [hfold] at hassembly
    obtain rfl := Except.ok.inj hassembly
    rw [hcount] at hlimit
    exact hlimit
  · intro hlimit
    rw [← hcount] at hlimit
    exact ⟨_, next, hfold, hlimit, rfl⟩

end Assemblies

end Resolutions

/-! ## 5. The order of declarations -/

/-- Manifests that list the same dependencies. -/
structure SameManifest (left right : PackManifest) : Prop where
  packageId : left.packageId = right.packageId
  modules : left.modules = right.modules
  configDocuments : left.configDocuments = right.configDocuments
  templates : left.templates = right.templates
  schemas : left.schemas = right.schemas
  assets : left.assets = right.assets
  components : left.components = right.components
  dependencies : left.dependencies.Perm right.dependencies

/-- Readers that differ in the order in which they list dependencies. -/
structure PackCodec.Reorders (packCodec other : PackCodec) : Prop where
  contentDigest : packCodec.contentDigest = other.contentDigest
  decodePack : ∀ bytes, Option.Rel SameManifest (packCodec.decodePack bytes) (other.decodePack bytes)

/-- Packs whose manifests list the same dependencies. -/
structure SamePack (left right : VerifiedPack) : Prop where
  contentDigest : left.contentDigest = right.contentDigest
  totalBytes : left.totalBytes = right.totalBytes
  manifest : SameManifest left.manifest right.manifest

section Order

variable {other : PackCodec}

theorem SameManifest.symm {left right : PackManifest} (h : SameManifest left right) :
    SameManifest right left :=
  ⟨h.packageId.symm, h.modules.symm, h.configDocuments.symm, h.templates.symm, h.schemas.symm,
    h.assets.symm, h.components.symm, h.dependencies.symm⟩

theorem PackCodec.Reorders.symm (h : packCodec.Reorders other) : other.Reorders packCodec := by
  refine ⟨h.contentDigest.symm, fun bytes => ?_⟩
  have hbytes := h.decodePack bytes
  generalize packCodec.decodePack bytes = left at hbytes
  generalize other.decodePack bytes = right at hbytes
  cases hbytes with
  | none => exact .none
  | some hsame => exact .some hsame.symm

theorem PackCodec.Reorders.digest (h : packCodec.Reorders other) (files : List PackFile) :
    packContentDigest other files = packContentDigest packCodec files := by
  unfold packContentDigest
  rw [h.contentDigest]

variable {git : GitSource}

section

variable (h : packCodec.Reorders other)
include h

theorem PackCodec.Reorders.fromFiles {d : Digest} {files : List PackFile}
    (hpack : fromFiles packCodec d files = .ok pack) :
    ∃ pack', VerifiedPack.fromFiles other d files = .ok pack' ∧ SamePack pack pack' := by
  unfold VerifiedPack.fromFiles at hpack ⊢
  rw [h.digest]
  simp only [checkManifestReferences, bind_ok, exists_unit, reject_ok,
    mapError_ok, require_ok, pure_ok, not_not] at hpack ⊢
  obtain ⟨actual, hactual, manifest, ⟨bytes, hbytes, decoded, hdecoded, hmodules, hconfig,
    htemplates, hschemas, hassets, hcomps, rfl⟩, rfl, rfl⟩ := hpack
  have hrel := h.decodePack bytes
  rw [hdecoded] at hrel
  generalize hother : other.decodePack bytes = read at hrel
  cases hrel with
  | some hsame =>
    rename_i manifest'
    refine ⟨_, ⟨actual, hactual, manifest', ⟨bytes, hbytes, manifest', hother, ?_, ?_, ?_, ?_, ?_,
      ?_, rfl⟩, rfl, rfl⟩, rfl, rfl, hsame⟩
    · rw [← hsame.modules]
      exact hmodules
    · rw [← hsame.configDocuments]
      exact hconfig
    · rw [← hsame.templates]
      exact htemplates
    · rw [← hsame.schemas]
      exact hschemas
    · rw [← hsame.assets]
      exact hassets
    · rw [← hsame.components]
      exact hcomps

theorem PackCodec.Reorders.capturePack
    (hpack : capturePack packCodec world source = .ok pack) :
    ∃ pack', Pack.capturePack other world source = .ok pack' ∧ SamePack pack pack' := by
  simp only [Pack.capturePack, bind_ok, require_ok, mapError_ok, h.digest] at hpack ⊢
  obtain ⟨files, hfiles, d, hdigest, hverified⟩ := hpack
  obtain ⟨pack', hpack', hsame⟩ := h.fromFiles hverified
  exact ⟨pack', ⟨files, hfiles, d, hdigest, hpack'⟩, hsame⟩

theorem PackCodec.Reorders.loadPinned {expected : Digest}
    (hpack : loadPinned packCodec world git expected = .ok pack) :
    ∃ pack', Pack.loadPinned other world git expected = .ok pack' ∧ SamePack pack pack' := by
  unfold Pack.loadPinned at hpack ⊢
  cases hfiles : world.objects expected with
  | error issue =>
    rw [hfiles] at hpack
    cases issue <;> cases hpack
  | ok files =>
    rw [hfiles] at hpack
    dsimp only at hpack ⊢
    rw [mapError_ok] at hpack
    obtain ⟨pack', hpack', hsame⟩ := h.fromFiles hpack
    exact ⟨pack', mapError_ok.2 hpack', hsame⟩

theorem PackCodec.Reorders.reuseCached {cached : Option VerifiedPack}
    (hcached : reuseCached packCodec world git expected = .ok cached) :
    ∃ cached', reuseCached other world git expected = .ok cached' ∧
      Option.Rel SamePack cached cached' := by
  cases expected with
  | none =>
    cases hcached
    exact ⟨none, rfl, .none⟩
  | some d =>
    unfold reuseCached at hcached ⊢
    dsimp only at hcached ⊢
    cases hfiles : world.objects d with
    | error issue =>
      rw [hfiles] at hcached
      cases issue with
      | missing =>
        cases hcached
        exact ⟨none, rfl, .none⟩
      | _ => cases hcached
    | ok files =>
      rw [hfiles] at hcached
      simp only [bind_ok, mapError_ok, pure_ok] at hcached ⊢
      obtain ⟨pack, hpack, rfl⟩ := hcached
      obtain ⟨pack', hpack', hsame⟩ := h.fromFiles hpack
      exact ⟨some pack', ⟨pack', hpack', rfl⟩, .some hsame⟩

theorem PackCodec.Reorders.acquireForLock
    (hpack : acquireForLock packCodec world git expected = .ok pack) :
    ∃ pack', Pack.acquireForLock other world git expected = .ok pack' ∧ SamePack pack pack' := by
  simp only [Pack.acquireForLock, bind_ok] at hpack ⊢
  obtain ⟨cached, hcached, hpack⟩ := hpack
  obtain ⟨cached', hcached', hrel⟩ := h.reuseCached hcached
  cases hrel with
  | some hsame =>
    obtain rfl := pure_ok.1 hpack
    exact ⟨_, ⟨_, hcached', rfl⟩, hsame⟩
  | none =>
    simp only [bind_ok, exists_unit, reject_ok, pure_ok] at hpack
    obtain ⟨found, hfound, hexp, rfl⟩ := hpack
    obtain ⟨pack', hpack', hsame⟩ := h.capturePack hfound
    refine ⟨pack', ⟨none, hcached', ?_⟩, hsame⟩
    simp only [bind_ok, exists_unit, reject_ok, pure_ok]
    exact ⟨pack', hpack', by rw [← hsame.contentDigest]; exact hexp, rfl⟩

theorem PackCodec.Reorders.provide
    (hpack : provide packCodec world inputs oldLock source = .ok pack) :
    ∃ pack', provide other world inputs oldLock source = .ok pack' ∧ SamePack pack pack' := by
  cases source with
  | root => exact h.capturePack hpack
  | localLocator locator =>
    simp only [provide, bind_ok, exists_unit] at hpack ⊢
    obtain ⟨hgranted, hcaptured⟩ := hpack
    obtain ⟨pack', hpack', hsame⟩ := h.capturePack hcaptured
    exact ⟨pack', ⟨hgranted, hpack'⟩, hsame⟩
  | git git =>
    simp only [provide, discoverGit, bind_ok, exists_unit] at hpack ⊢
    obtain ⟨hgranted, hpack⟩ := hpack
    cases hscratch : decide (git ∈ inputs.gitScratchRoots) with
    | true =>
      rw [hscratch] at hpack
      cases hpinned : oldGit oldLock git <;> rw [hpinned] at hpack <;>
        (obtain ⟨pack', hpack', hsame⟩ := h.acquireForLock hpack
         exact ⟨pack', ⟨hgranted, hpack'⟩, hsame⟩)
    | false =>
      rw [hscratch] at hpack
      cases hpinned : oldGit oldLock git with
      | none =>
        rw [hpinned] at hpack
        cases hpack
      | some expected =>
        rw [hpinned] at hpack
        obtain ⟨pack', hpack', hsame⟩ := h.loadPinned hpack
        exact ⟨pack', ⟨hgranted, hpack'⟩, hsame⟩

end

/-- Packs that differ in the order of their dependencies, source by source. -/
def SamePacks (packs packs' : LockedSource → Option VerifiedPack) : Prop :=
  ∀ source, Option.Rel SamePack (packs source) (packs' source)

theorem PackCodec.Reorders.sourcePacks (h : packCodec.Reorders other) :
    SamePacks (sourcePacks packCodec world inputs oldLock)
      (sourcePacks other world inputs oldLock) := by
  intro source
  cases hpack : Pack.sourcePacks packCodec world inputs oldLock source with
  | some pack =>
    obtain ⟨pack', hpack', hsame⟩ := h.provide (sourcePacks_eq_some.1 hpack)
    rw [sourcePacks_eq_some.2 hpack']
    exact .some hsame
  | none =>
    cases hpack' : Pack.sourcePacks other world inputs oldLock source with
    | none => exact .none
    | some pack' =>
      obtain ⟨pack, hfound, -⟩ := h.symm.provide (sourcePacks_eq_some.1 hpack')
      rw [sourcePacks_eq_some.2 hfound] at hpack
      cases hpack

section Same

variable (hsame : SamePacks packs packs')
include hsame

variable {pack' : VerifiedPack}

theorem SamePacks.of_left (h : packs source = some pack) :
    ∃ pack', packs' source = some pack' ∧ SamePack pack pack' := by
  have hrel := hsame source
  rw [h] at hrel
  generalize packs' source = found at hrel
  cases hrel with
  | some hsame => exact ⟨_, rfl, hsame⟩

theorem SamePacks.of_right (h : packs' source = some pack') :
    ∃ pack, packs source = some pack ∧ SamePack pack pack' := by
  have hrel := hsame source
  rw [h] at hrel
  generalize packs source = found at hrel
  cases hrel with
  | some hsame => exact ⟨_, rfl, hsame⟩

theorem SamePacks.imports :
    Imports packs source target ↔ Imports packs' source target := by
  constructor
  · rintro ⟨pack, hpack, dep, hmem, heq⟩
    obtain ⟨pack', hpack', hrel⟩ := hsame.of_left hpack
    exact ⟨pack', hpack', dep, hrel.manifest.dependencies.mem_iff.1 hmem, heq⟩
  · rintro ⟨pack', hpack', dep, hmem, heq⟩
    obtain ⟨pack, hpack, hrel⟩ := hsame.of_right hpack'
    exact ⟨pack, hpack, dep, hrel.manifest.dependencies.mem_iff.2 hmem, heq⟩

theorem SamePacks.imports_eq : Imports packs' = Imports packs := by
  funext source target
  exact propext hsame.imports.symm

theorem SamePacks.closes (h : Closes packs sources) : Closes packs' sources := by
  refine ⟨?_, ?_, ?_⟩
  · intro source
    rw [Required, hsame.imports_eq]
    exact h.required source
  · intro source hmem
    obtain ⟨pack, hpack⟩ := h.available source hmem
    obtain ⟨pack', hpack', -⟩ := hsame.of_left hpack
    exact ⟨pack', hpack'⟩
  · intro source hmem pack' hpack' dep hdep target' htarget'
    obtain ⟨pack, hpack, hrel⟩ := hsame.of_right hpack'
    obtain ⟨t, htarget, hrelTarget⟩ := hsame.of_right htarget'
    rw [← hrelTarget.manifest.packageId]
    exact h.packages source hmem pack hpack dep
      (hrel.manifest.dependencies.mem_iff.2 hdep) t htarget

theorem SamePacks.weights (source : LockedSource) :
    edgesAt packs' source = edgesAt packs source ∧ bytesAt packs' source = bytesAt packs source ∧
      objectAt packs' source = objectAt packs source ∧
      ∀ codec : LockCodec, nodeIdAt codec packs' source = nodeIdAt codec packs source := by
  unfold edgesAt bytesAt objectAt nodeIdAt
  have hrel := hsame source
  generalize packs source = left at hrel
  generalize packs' source = right at hrel
  cases hrel with
  | none => exact ⟨rfl, rfl, rfl, fun _ => rfl⟩
  | some hpack =>
    simp [hpack.contentDigest, hpack.totalBytes, hpack.manifest.packageId,
      hpack.manifest.dependencies.length_eq]

theorem SamePacks.within (h : Within packs world sources) : Within packs' world sources := by
  have hobjs : sources.image (objectAt packs') = sources.image (objectAt packs) :=
    image_congr fun source _ => (hsame.weights source).2.2.1
  refine ⟨⟨h.nodes, ?_, ?_, h.descriptors⟩, ?_⟩
  · rw [sum_congr rfl fun source _ => (hsame.weights source).2.1]
    exact h.processed
  · rw [objectBytes, hobjs]
    exact h.unique
  · rw [sum_congr rfl fun source _ => (hsame.weights source).1]
    exact h.edges

theorem SamePacks.nodeFields (hpack : SamePack pack pack') :
    nodeFields codec packs' profile source pack' =
      nodeFields codec packs profile source pack := by
  have hids : nodeIdAt codec packs' = nodeIdAt codec packs :=
    funext fun source => (hsame.weights source).2.2.2 codec
  have hedges : sortDependencies (lockedDependencies (nodeIdAt codec packs) pack'.manifest) =
      sortDependencies (lockedDependencies (nodeIdAt codec packs) pack.manifest) :=
    sortDependencies_perm (hpack.manifest.dependencies.map _).symm
  unfold Pack.nodeFields
  rw [hids, hedges, ← hpack.contentDigest, ← hpack.manifest.packageId]
  simp only [lockedComponents, hpack.manifest.components]

theorem SamePacks.constructed
    (h : ∀ source pack, packs source = some pack → pack.manifest.Constructed)
    (hpack' : packs' source = some pack') : pack'.manifest.Constructed := by
  obtain ⟨pack, hpack, hrel⟩ := hsame.of_right hpack'
  obtain ⟨hmodules, hnames, hdeps, hcomps, hcomponentNames⟩ := h source pack hpack
  refine ⟨?_, ?_, ?_, ?_, ?_⟩
  · rw [← hrel.manifest.modules]
    exact hmodules
  · rw [← hrel.manifest.modules]
    exact hnames
  · rw [← hrel.manifest.dependencies.length_eq]
    exact hdeps
  · rw [← hrel.manifest.components]
    exact hcomps
  · rw [← hrel.manifest.components]
    exact hcomponentNames

end Same

theorem Lock.eq_of_fields {lock lock' : Lock codec} (hroot : lock.rootNodeId = lock'.rootNodeId)
    (hfields : ∀ fields, fields ∈ lock.nodes.map toLockedNode ↔
      fields ∈ lock'.nodes.map toLockedNode) : lock = lock' := by
  have hids : ∀ lock : Lock codec,
      ((lock.nodes.map toLockedNode).map LockedNode.nodeId).Nodup := by
    intro lock
    rw [List.map_map]
    exact lock.nodeIds_nodup
  have hsorted : ∀ lock : Lock codec, (lock.nodes.map toLockedNode).Pairwise
      fun left right => left.nodeId ≤ right.nodeId :=
    fun lock => pairwise_map.2 lock.sorted
  have hperm : (lock.nodes.map toLockedNode).Perm
      (lock'.nodes.map toLockedNode) :=
    (perm_ext_iff_of_nodup (List.Nodup.of_map _ (hids lock))
      (List.Nodup.of_map _ (hids lock'))).2 hfields
  have hequal : lock.nodes.map toLockedNode = lock'.nodes.map toLockedNode := by
    refine List.Perm.eq_of_pairwise ?_ (hsorted lock) (hsorted lock') hperm
    intro left right hleft hright hle hge
    exact inj_on_of_nodup_map (hids lock) hleft ((hfields right).2 hright) (le_antisymm hle hge)
  have hnodes : lock.nodes = lock'.nodes :=
    map_injective_iff.2 (fun _ _ => ext_node) hequal
  cases lock
  cases lock'
  obtain rfl := hroot
  obtain rfl := hnodes
  rfl

/-- **The order of declarations does not matter.** -/
theorem resolveGraph_reorder (h : packCodec.Reorders other)
    (hfree : Function.Injective packCodec.contentDigest) (hnamed : codec.Named)
    (hreader : packCodec.Constructs) {res : Resolution codec}
    (hresolved : resolveGraph packCodec world inputs oldLock = .ok res) :
    ∃ reordered, resolveGraph other world inputs oldLock = .ok reordered ∧
      reordered.lock = res.lock := by
  have hone : OnePack (sourcePacks packCodec world inputs oldLock) := sourcePacks_onePack hfree
  have hone' : OnePack (sourcePacks other world inputs oldLock) :=
    sourcePacks_onePack (h.contentDigest ▸ hfree)
  have hsame : SamePacks (sourcePacks packCodec world inputs oldLock)
    (sourcePacks other world inputs oldLock) := h.sourcePacks
  obtain ⟨sources, hcloses, hwithin, hholds, hlock⟩ := resolveGraph_closes rfl hone hresolved
  obtain ⟨hiff, hlockOf⟩ := lockDiscovered_ok inputs hholds hcloses hwithin hnamed
    (sourcePacks_constructed hreader)
  obtain ⟨hprofiled, hacyclic⟩ := hiff.1 ⟨_, hlock⟩
  have hcloses' := hsame.closes hcloses
  have hwithin' := hsame.within hwithin
  obtain ⟨discovered', hholds'⟩ := exists_holdsPacks rfl hone' hcloses' hwithin'
  have hprofiled' : Profiled (sourcePacks other world inputs oldLock)
      inputs.formatComponentExecutionProfile sources := by
    intro hprof source hmem pack' hpack'
    obtain ⟨pack, hpack, hrel⟩ := hsame.of_right hpack'
    rw [← hrel.manifest.components]
    exact hprofiled hprof source hmem pack hpack
  have hacyclic' : Acyclic (sourcePacks other world inputs oldLock) sources := by
    unfold Acyclic
    rw [hsame.imports_eq]
    exact hacyclic
  obtain ⟨hiff', hlockOf'⟩ := lockDiscovered_ok inputs hholds' hcloses' hwithin'
    hnamed fun _ _ hpack' => hsame.constructed (sourcePacks_constructed hreader) hpack'
  obtain ⟨lock', hlock'⟩ := hiff'.2 ⟨hprofiled', hacyclic'⟩
  obtain ⟨bytes, hresolved'⟩ := resolveGraph_of rfl hone' hcloses' hwithin' hholds' hlock'
  refine ⟨_, hresolved', ?_⟩
  have hleft := hlockOf' lock' hlock'
  have hright := hlockOf _ hlock
  refine Lock.eq_of_fields (hleft.root.trans ?_) fun fields => ?_
  · rw [hright.root]
    exact (hsame.weights .root).2.2.2 codec
  · simp only [List.mem_map]
    constructor
    · rintro ⟨node, hnode, rfl⟩
      obtain ⟨source, hmem, pack', hpack', hfields⟩ := hleft.nodes.of_mem hholds' hnode
      obtain ⟨pack, hpack, hrel⟩ := hsame.of_right hpack'
      obtain ⟨partner, hpartner, hpartnerFields⟩ := hright.nodes.mem_of hholds hmem hpack
      exact ⟨partner, hpartner, by rw [hpartnerFields, hfields, hsame.nodeFields hrel]⟩
    · rintro ⟨node, hnode, rfl⟩
      obtain ⟨source, hmem, pack, hpack, hfields⟩ := hright.nodes.of_mem hholds hnode
      obtain ⟨pack', hpack', hrel⟩ := hsame.of_left hpack
      obtain ⟨partner, hpartner, hpartnerFields⟩ := hleft.nodes.mem_of hholds' hmem hpack'
      exact ⟨partner, hpartner, by rw [hpartnerFields, hfields, hsame.nodeFields hrel]⟩

end Order

/-! ## 6. The claim of a resolution -/

/-- The closure a resolution must find, within the limits and without a cycle. -/
def Resolvable (packCodec : PackCodec) (world : SourceWorld) (inputs : LockResolutionInputs)
    {codec : LockCodec} (oldLock : Option (Lock codec)) : Prop :=
  ∃ sources, Closes (sourcePacks packCodec world inputs oldLock) sources ∧
    Within (sourcePacks packCodec world inputs oldLock) world sources ∧
    Profiled (sourcePacks packCodec world inputs oldLock) inputs.formatComponentExecutionProfile
      sources ∧
    Acyclic (sourcePacks packCodec world inputs oldLock) sources

/-- **Lock resolution is the dependency closure.** -/
theorem resolution_is_closure {packCodec : PackCodec} {codec : LockCodec}
    (hfree : Function.Injective packCodec.contentDigest) (hnamed : codec.Named)
    (hreader : packCodec.Constructs) (world : SourceWorld) (inputs : LockResolutionInputs)
    (oldLock : Option (Lock codec)) :
    ((∃ resolution, resolveGraph packCodec world inputs oldLock = .ok resolution) ↔
      Resolvable packCodec world inputs oldLock) ∧
    ∀ resolution, resolveGraph packCodec world inputs oldLock = .ok resolution →
      LocksClosure (sourcePacks packCodec world inputs oldLock)
        inputs.formatComponentExecutionProfile resolution.lock ∧
      (∀ other : PackCodec, packCodec.Reorders other →
        ∃ reordered, resolveGraph other world inputs oldLock = .ok reordered ∧
          reordered.lock = resolution.lock) ∧
      ((∃ graph, assembleLockedGraph packCodec resolution.lock
          (world.published resolution.discovered) = .ok graph) ↔
        discoveredModules resolution.discovered ≤ maxGraphModules) ∧
      ∃ again, resolveGraph packCodec (world.publish resolution.discovered) inputs
        (some resolution.lock) = .ok again ∧ again.lock = resolution.lock := by
  refine ⟨resolveGraph_ok_iff hfree hnamed hreader rfl, fun resolution h => ?_⟩
  have hone : OnePack (sourcePacks packCodec world inputs oldLock) := sourcePacks_onePack hfree
  obtain ⟨sources, hcloses, hwithin, hholds, hlock⟩ := resolveGraph_closes rfl hone h
  obtain ⟨hiff, hlockOf⟩ := lockDiscovered_ok inputs hholds hcloses hwithin hnamed
    (sourcePacks_constructed hreader)
  obtain ⟨hprofiled, -⟩ := hiff.1 ⟨_, hlock⟩
  have hof := hlockOf _ hlock
  exact ⟨hof.locksClosure hholds hcloses,
    fun other hother => resolveGraph_reorder hother hfree hnamed hreader h,
    assembleLockedGraph_ok rfl hone hnamed (sourcePacks_constructed hreader) hcloses hwithin
      hprofiled hholds hof,
    resolveGraph_again hfree hnamed hreader h⟩

/-! ## 7. A root with libraries -/

theorem hexDigit_inj (hleft : left < 16) (hright : right < 16)
    (h : hexDigit left = hexDigit right) : left = right := by
  have hvalue := hexValue_hexDigit hleft
  rw [h, hexValue_hexDigit hright] at hvalue
  exact (some.inj hvalue).symm

theorem moduleName_shape (n : Nat) : contributionNameShape
    ['m', hexDigit (n / 256 % 16), hexDigit (n / 16 % 16), hexDigit (n % 16)] = true := by
  have hshape : ∀ high < 16, ∀ mid < 16, ∀ low < 16,
      contributionNameShape ['m', hexDigit high, hexDigit mid, hexDigit low] = true := by
    decide +kernel
  exact hshape _ (Nat.mod_lt _ (by decide)) _ (Nat.mod_lt _ (by decide)) _
    (Nat.mod_lt _ (by decide))

def moduleName (n : Nat) : ContributionName :=
  ⟨['m', hexDigit (n / 256 % 16), hexDigit (n / 16 % 16), hexDigit (n % 16)], moduleName_shape n⟩

theorem moduleName_inj (hleft : left < 4096) (hright : right < 4096)
    (h : moduleName left = moduleName right) : left = right := by
  have htext := congrArg Subtype.val h
  simp only [moduleName, cons.injEq, and_true, true_and] at htext
  obtain ⟨hhigh, hmiddle, hlow⟩ := htext
  have hhigh := hexDigit_inj (Nat.mod_lt _ (by decide)) (Nat.mod_lt _ (by decide)) hhigh
  have hmiddle := hexDigit_inj (Nat.mod_lt _ (by decide)) (Nat.mod_lt _ (by decide)) hmiddle
  have hlow := hexDigit_inj (Nat.mod_lt _ (by decide)) (Nat.mod_lt _ (by decide)) hlow
  omega

def libraryLocator (n : Nat) : Text := List.replicate (n + 1) 'd'

theorem libraryLocator_injective : Function.Injective libraryLocator := by
  intro left right h
  have hlen := congrArg length h
  simpa [libraryLocator] using hlen

section Libraries

-- Every manifest lists `modules` modules, and the root has `libraries` dependencies.
variable (modules libraries : Nat)

def libraryManifest : PackManifest where
  packageId := ['w', '.', 'l']
  modules := (List.range modules).map fun n => ⟨moduleName n, ['n']⟩
  configDocuments := []
  dependencies := []
  templates := []
  schemas := []
  assets := []
  components := []
  aliases_nodup := List.nodup_nil

def librariesRoot : PackManifest :=
  { libraryManifest modules with
    packageId := ['w', '.', 'r']
    dependencies := (List.range libraries).map fun n =>
      ⟨libraryLocator n, ['w', '.', 'l'], .localLocator (libraryLocator n)⟩
    aliases_nodup := by
      rw [List.map_map]
      exact List.nodup_range.map libraryLocator_injective }

def librariesCodec : PackCodec where
  contentDigest := countingPackCodec.contentDigest
  decodePack bytes :=
    if bytes.hash = ⟨1⟩ then some (librariesRoot modules libraries)
    else if bytes.hash = ⟨2⟩ then some (libraryManifest modules)
    else none

def libraryFiles (hash : Nat) : List PackFile :=
  [⟨packManifestFile, ⟨⟨hash⟩, 200000⟩⟩, ⟨['n'], ⟨⟨3⟩, 1⟩⟩]

/-- A root pack, and the libraries at every local path. -/
def librariesWorld : SourceWorld where
  filesAt
    | .root => some (libraryFiles 1)
    | .localLocator _ => some (libraryFiles 2)
    | .git _ => none
  objects _ := .error .missing
  rootDescriptors := 1
  locatorDescriptors _ := 1
  openFileSoftLimit := some 1024

def librariesInputs : LockResolutionInputs where
  localLocators := (List.range libraries).map libraryLocator
  gitUrls := []
  gitScratchRoots := []
  formatComponentExecutionProfile := none

def libraryPack (hash : Nat) (manifest : PackManifest) : VerifiedPack where
  contentDigest := countingPackCodec.contentDigest (libraryFiles hash)
  manifest := manifest
  files := filesByPath (libraryFiles hash)
  totalBytes := 200001

variable {modules libraries}

theorem libraryManifest_constructed (hmodules : modules ≤ 4096) :
    (libraryManifest modules).Constructed where
  modules := by
    rw [libraryManifest, length_map, length_range]
    exact hmodules
  moduleNames := by
    rw [libraryManifest, List.map_map]
    refine List.Nodup.map_on ?_ nodup_range
    intro left hleft right hright h
    have hleft := List.mem_range.1 hleft
    have hright := List.mem_range.1 hright
    exact moduleName_inj (by omega) (by omega) h
  dependencies := Nat.zero_le _
  components := Nat.zero_le _
  componentNames := .nil

theorem librariesRoot_constructed (hmodules : modules ≤ 4096) (hlibraries : libraries ≤ 16) :
    (librariesRoot modules libraries).Constructed where
  modules := (libraryManifest_constructed hmodules).modules
  moduleNames := (libraryManifest_constructed hmodules).moduleNames
  dependencies := by
    have hlimit : 16 ≤ maxDirectDependencies := by decide
    rw [librariesRoot, length_map, length_range]
    exact hlibraries.trans hlimit
  components := Nat.zero_le _
  componentNames := .nil

theorem librariesCodec_injective :
    Function.Injective (librariesCodec modules libraries).contentDigest :=
  countingPackCodec_injective

theorem librariesCodec_constructs (hmodules : modules ≤ 4096) (hlibraries : libraries ≤ 16) :
    (librariesCodec modules libraries).Constructs := by
  intro bytes manifest h
  simp only [librariesCodec] at h
  split at h
  · obtain rfl := some.inj h
    exact librariesRoot_constructed hmodules hlibraries
  · split at h
    · obtain rfl := some.inj h
      exact libraryManifest_constructed hmodules
    · cases h

theorem libraryFiles_digest :
    packContentDigest (librariesCodec modules libraries) (libraryFiles hash) =
      .ok (countingPackCodec.contentDigest (libraryFiles hash)) := by
  have hentries : validatedPackEntries (libraryFiles hash) = .ok (libraryFiles hash) := rfl
  rw [packContentDigest, hentries]
  rfl

theorem libraryFiles_capture {manifest : PackManifest}
    (hfiles : librariesWorld.filesAt source = some (libraryFiles hash))
    (hdecode : (librariesCodec modules libraries).decodePack ⟨⟨hash⟩, 200000⟩ = some manifest)
    (hmanif : { libraryManifest modules with
      packageId := manifest.packageId
      dependencies := manifest.dependencies
      aliases_nodup := manifest.aliases_nodup } = manifest) :
    capturePack (librariesCodec modules libraries) librariesWorld source =
      .ok (libraryPack hash manifest) := by
  have hbytes : (filesByPath (libraryFiles hash)).get? packManifestFile =
      some ⟨⟨hash⟩, 200000⟩ := rfl
  have hmodule : (filesByPath (libraryFiles hash)).get? ['n'] = some ⟨⟨3⟩, 1⟩ := rfl
  have hsection : requireSection (filesByPath (libraryFiles hash)) "module"
      ((libraryManifest modules).modules.map PackModule.path) = .ok () := by
    rw [requireSection, forM_ok]
    intro path hpath
    simp only [libraryManifest, List.map_map, List.mem_map] at hpath
    obtain ⟨-, -, rfl⟩ := hpath
    rw [requirePath]
    simp [hmodule, require]
  have hrefs : checkManifestReferences (librariesCodec modules libraries)
      (libraryFiles hash) = .ok manifest := by
    simp only [checkManifestReferences, bind_ok, exists_unit, require_ok, pure_ok]
    refine ⟨_, hbytes, manifest, hdecode, ?_⟩
    rw [← hmanif]
    exact ⟨hsection, rfl, rfl, rfl, rfl, rfl, rfl⟩
  simp only [capturePack, fromFiles, bind_ok, require_ok,
    mapError_ok, exists_unit, reject_ok, pure_ok]
  exact ⟨_, hfiles, _, libraryFiles_digest, _, libraryFiles_digest, manifest, hrefs, by simp,
    rfl⟩

section Packs

variable {oldLock : Option (Lock sampleLockCodec)}

theorem libraries_root : sourcePacks (librariesCodec modules libraries) librariesWorld
    (librariesInputs libraries) oldLock .root =
      some (libraryPack 1 (librariesRoot modules libraries)) :=
  sourcePacks_eq_some.2 (libraryFiles_capture rfl rfl rfl)

theorem libraries_local {n : Nat} (h : n < libraries) :
    sourcePacks (librariesCodec modules libraries) librariesWorld (librariesInputs libraries)
      oldLock (.localLocator (libraryLocator n)) =
        some (libraryPack 2 (libraryManifest modules)) := by
  have hgranted : libraryLocator n ∈ (librariesInputs libraries).localLocators :=
    List.mem_map.2 ⟨n, List.mem_range.2 h, rfl⟩
  rw [sourcePacks_eq_some, provide]
  simp only [bind_ok, exists_unit, reject_ok, not_not]
  exact ⟨hgranted, libraryFiles_capture rfl rfl rfl⟩

variable (libraries) in
def librarySources : Finset LockedSource :=
  insert .root ((Finset.range libraries).image fun n => .localLocator (libraryLocator n))

theorem mem_librarySources : source ∈ librarySources libraries ↔
    source = .root ∨ ∃ n < libraries, .localLocator (libraryLocator n) = source := by
  simp [librarySources]

theorem librarySources_card : (librarySources libraries).card = libraries + 1 := by
  rw [librarySources, card_insert_of_notMem, card_image_of_injective, card_range]
  · intro left right h
    exact libraryLocator_injective (LockedSource.localLocator.inj h)
  · simp

theorem libraries_imports (hmem : source ∈ librarySources libraries) :
    Imports (sourcePacks (librariesCodec modules libraries) librariesWorld
      (librariesInputs libraries) oldLock) source target ↔
    source = .root ∧ ∃ n < libraries, .localLocator (libraryLocator n) = target := by
  constructor
  · rintro ⟨pack, hpack, dep, hdep, rfl⟩
    rcases mem_librarySources.1 hmem with rfl | ⟨n, hn, rfl⟩
    · obtain rfl := some.inj (libraries_root.symm.trans hpack)
      obtain ⟨n, hn, rfl⟩ := List.mem_map.1 hdep
      exact ⟨rfl, n, List.mem_range.1 hn, rfl⟩
    · obtain rfl := some.inj ((libraries_local hn).symm.trans hpack)
      cases hdep
  · rintro ⟨rfl, n, hn, rfl⟩
    refine ⟨_, libraries_root, _, List.mem_map.2 ⟨n, List.mem_range.2 hn, rfl⟩, rfl⟩

theorem libraries_closes : Closes (sourcePacks (librariesCodec modules libraries) librariesWorld
    (librariesInputs libraries) oldLock) (librarySources libraries) := by
  have hroot : .root ∈ librarySources libraries := mem_librarySources.2 (.inl rfl)
  refine ⟨?_, ?_, ?_⟩
  · intro source
    constructor
    · intro hmem
      rcases mem_librarySources.1 hmem with rfl | hlocal
      · exact .refl
      · exact Relation.ReflTransGen.single ((libraries_imports hroot).2 ⟨rfl, hlocal⟩)
    · intro hreq
      induction hreq with
      | refl => exact hroot
      | tail _ himports ih =>
        exact mem_librarySources.2 (.inr ((libraries_imports ih).1 himports).2)
  · intro source hmem
    rcases mem_librarySources.1 hmem with rfl | ⟨n, hn, rfl⟩
    · exact ⟨_, libraries_root⟩
    · exact ⟨_, libraries_local hn⟩
  · intro source hmem pack hpack dep hdep t htarget
    rcases mem_librarySources.1 hmem with rfl | ⟨n, hn, rfl⟩
    · obtain rfl := some.inj (libraries_root.symm.trans hpack)
      obtain ⟨n, hn, rfl⟩ := List.mem_map.1 hdep
      obtain rfl := some.inj ((libraries_local (List.mem_range.1 hn)).symm.trans htarget)
      rfl
    · obtain rfl := some.inj ((libraries_local hn).symm.trans hpack)
      cases hdep

theorem libraries_pack (hmem : source ∈ librarySources libraries) :
    ∃ pack, sourcePacks (librariesCodec modules libraries) librariesWorld
      (librariesInputs libraries) oldLock source = some pack ∧ pack.totalBytes = 200001 ∧
        pack.manifest.modules.length = modules ∧ pack.manifest.components = [] ∧
        pack.manifest.dependencies.length ≤ libraries := by
  rcases mem_librarySources.1 hmem with rfl | ⟨n, hn, rfl⟩
  · refine ⟨_, libraries_root, rfl, ?_, rfl, ?_⟩
    · simp [libraryPack, librariesRoot, libraryManifest]
    · simp [libraryPack, librariesRoot]
  · refine ⟨_, libraries_local hn, rfl, ?_, rfl, Nat.zero_le _⟩
    simp [libraryPack, libraryManifest]

theorem libraries_within (hlibraries : libraries ≤ 16) :
    Within (sourcePacks (librariesCodec modules libraries) librariesWorld
      (librariesInputs libraries) oldLock) librariesWorld (librarySources libraries) := by
  have hcard : (librarySources libraries).card ≤ 17 := by
    rw [librarySources_card]
    omega
  have hsum : ∀ (weight : LockedSource → Nat) (bound : Nat),
      (∀ source ∈ librarySources libraries, weight source ≤ bound) →
        ∑ source ∈ librarySources libraries, weight source ≤ 17 * bound := by
    intro weight bound hweight
    refine (sum_le_card_nsmul _ _ _ hweight).trans ?_
    show (librarySources libraries).card * bound ≤ 17 * bound
    exact Nat.mul_le_mul_right bound hcard
  refine ⟨⟨hcard.trans (by decide), ?_, ?_, ?_⟩, ?_⟩
  · refine (hsum _ 200001 fun source hmem => ?_).trans (by decide)
    obtain ⟨pack, hpack, hbytes, -⟩ := libraries_pack hmem
    rw [bytesAt_of hpack, hbytes]
  · refine (sum_le_card_nsmul _ _ 200001 fun obj hobj => ?_).trans ?_
    · obtain ⟨source, hmem, rfl⟩ := mem_image.1 hobj
      obtain ⟨pack, hpack, hbytes, -⟩ := libraries_pack hmem
      rw [objectAt_of hpack]
      exact hbytes.le
    · show card _ * 200001 ≤ maxGraphObjectBytes
      exact (Nat.mul_le_mul_right 200001 (card_image_le.trans hcard)).trans (by decide)
  · have hdescriptors := hsum librariesWorld.descriptorsAt 1 fun source _ => by
      cases source with
      | localLocator locator => exact Nat.le_refl 1
      | _ => exact Nat.zero_le 1
    refine (Nat.add_le_add_left hdescriptors _).trans (by decide)
  · refine (hsum _ 16 fun source hmem => ?_).trans (by decide)
    obtain ⟨pack, hpack, -, -, -, hdeps⟩ := libraries_pack hmem
    rw [edgesAt_of hpack]
    exact hdeps.trans hlibraries

theorem libraries_acyclic : Acyclic (sourcePacks (librariesCodec modules libraries) librariesWorld
    (librariesInputs libraries) oldLock) (librarySources libraries) := by
  intro source hmem hcycle
  obtain ⟨next, hnext, hrest⟩ := Relation.TransGen.head'_iff.1 hcycle
  obtain ⟨rfl, n, hn, rfl⟩ := (libraries_imports hmem).1 hnext
  rcases Relation.ReflTransGen.cases_head hrest with heq | ⟨other, hother, -⟩
  · cases heq
  · obtain ⟨heq, -⟩ := (libraries_imports (mem_librarySources.2 (.inr ⟨n, hn, rfl⟩))).1 hother
    cases heq

theorem libraries_resolvable (hlibraries : libraries ≤ 16) :
    Resolvable (librariesCodec modules libraries) librariesWorld (librariesInputs libraries)
      oldLock := by
  refine ⟨librarySources libraries, libraries_closes, libraries_within hlibraries, ?_,
    libraries_acyclic⟩
  intro _ source hmem pack hpack
  obtain ⟨found, hfound, -, -, hcomps, -⟩ := libraries_pack hmem
  rw [some.inj (hpack.symm.trans hfound)]
  exact hcomps

end Packs

theorem libraries_resolved (hmodules : modules ≤ 4096) (hlibraries : libraries ≤ 16)
    (oldLock : Option (Lock sampleLockCodec)) :
    ∃ res, resolveGraph (librariesCodec modules libraries) librariesWorld
        (librariesInputs libraries) oldLock = .ok res ∧
      ((∃ graph, assembleLockedGraph (librariesCodec modules libraries) res.lock
          (librariesWorld.published res.discovered) = .ok graph) ↔
        (libraries + 1) * modules ≤ maxGraphModules) := by
  have hreader := librariesCodec_constructs hmodules hlibraries
  obtain ⟨res, hresolved⟩ := (resolveGraph_ok_iff librariesCodec_injective
    sampleLockCodec_nodeId_inj hreader rfl).2 (libraries_resolvable hlibraries)
  refine ⟨res, hresolved, ?_⟩
  have hone : OnePack (sourcePacks (librariesCodec modules libraries) librariesWorld
      (librariesInputs libraries) oldLock) := sourcePacks_onePack librariesCodec_injective
  obtain ⟨sources, hcloses, hwithin, hholds, hlock⟩ := resolveGraph_closes rfl hone hresolved
  obtain ⟨hiff, hlockOf⟩ := lockDiscovered_ok (librariesInputs libraries) hholds hcloses hwithin
    sampleLockCodec_nodeId_inj (sourcePacks_constructed hreader)
  obtain ⟨hprofiled, -⟩ := hiff.1 ⟨_, hlock⟩
  rw [assembleLockedGraph_ok rfl hone sampleLockCodec_nodeId_inj
    (sourcePacks_constructed hreader) hcloses hwithin hprofiled hholds (hlockOf _ hlock)]
  have hsources : sources = librarySources libraries := by
    ext source
    rw [hcloses.required, libraries_closes.required]
  have hcount : ∀ e ∈ res.discovered.entries,
      e.2.manifest.modules.length = modules := by
    rintro ⟨source, pack⟩ hentry
    obtain ⟨hmem, hpack⟩ := hholds.mem_entries.1 hentry
    obtain ⟨found, hfound, -, hlen, -⟩ := libraries_pack (hsources ▸ hmem)
    rw [some.inj (hpack.symm.trans hfound)]
    exact hlen
  have hlen : res.discovered.entries.length = libraries + 1 := by
    rw [← librarySources_card, ← hsources, ← hholds.keys hcloses.available,
      toFinset_card_of_nodup res.discovered.nodup_keys, SortedMap.keys, length_map]
  rw [discoveredModules, map_congr_left hcount, map_const', sum_replicate, hlen]
  rfl

end Libraries

theorem resolution_is_closure_sample : ∃ resolution,
    resolveGraph (librariesCodec 1 1) librariesWorld (librariesInputs 1)
      (none : Option (Lock sampleLockCodec)) = .ok resolution ∧
    LocksClosure (sourcePacks (librariesCodec 1 1) librariesWorld (librariesInputs 1)
      (none : Option (Lock sampleLockCodec))) none resolution.lock := by
  have hreader : (librariesCodec 1 1).Constructs :=
    librariesCodec_constructs (by decide) (by decide)
  obtain ⟨hiff, hresolved⟩ := resolution_is_closure librariesCodec_injective
    sampleLockCodec_nodeId_inj hreader librariesWorld (librariesInputs 1) none
  obtain ⟨resolution, h⟩ := hiff.2 (libraries_resolvable (by decide))
  exact ⟨resolution, h, (hresolved resolution h).1⟩

/-- Sixteen large libraries: their lock is resolved, and assembly refuses it. -/
theorem resolved_lock_not_assembled :
    ¬ ∀ (packCodec : PackCodec) (codec : LockCodec), Function.Injective packCodec.contentDigest →
      codec.Named → packCodec.Constructs → ∀ (world : SourceWorld) (inputs : LockResolutionInputs)
        (oldLock : Option (Lock codec)) (resolution : Resolution codec),
        resolveGraph packCodec world inputs oldLock = .ok resolution →
          ∃ graph, assembleLockedGraph packCodec resolution.lock
            (world.published resolution.discovered) = .ok graph := by
  intro hclaim
  have hreader : (librariesCodec 4096 16).Constructs :=
    librariesCodec_constructs (Nat.le_refl _) (Nat.le_refl _)
  obtain ⟨resolution, hresolved, hassembled⟩ :=
    libraries_resolved (Nat.le_refl 4096) (Nat.le_refl 16) none
  have hmany : ¬ (16 + 1) * 4096 ≤ maxGraphModules := by decide
  exact hmany (hassembled.1 (hclaim _ _ librariesCodec_injective sampleLockCodec_nodeId_inj hreader
    librariesWorld (librariesInputs 16) none resolution hresolved))

end Malm.Pack
