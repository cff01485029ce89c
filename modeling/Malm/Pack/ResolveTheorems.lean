/-
Malm.Pack.ResolveTheorems — the walk of a lock resolution finds the dependency
closure.

The walk ends with the sources that the root requires exactly when all of them have a
pack, the declared packages agree and the limits hold (`walk_iff`). Forward,
`Walk.Follows` is what every turn keeps; backward, the closure bounds the charges.
-/
import Malm.Pack.Resolve
import Malm.Pack.StoreTheorems

namespace Malm.Pack

open Commit Checks Finset List SortedMap Walk VerifiedPack

/-! ## 1. Verified packs -/

variable {packCodec : PackCodec} {pack : VerifiedPack}

section Verified

variable {digest : Digest} {files : List PackFile}

variable {files' : List PackFile}

theorem filesByPath_perm (hnodup : (files.map PackFile.path).Nodup) (h : files.Perm files') :
    filesByPath files = filesByPath files' := by
  have hfold : ∀ list : List PackFile, filesByPath list =
      (list.map fun file => (file.path, file.bytes)).foldl
        (fun map e => map.insert e.1 e.2) .empty := by
    intro list
    rw [filesByPath, foldl_map]
  have hkeys : ∀ list : List PackFile, (list.map PackFile.path).Nodup →
      ((list.map fun file => (file.path, file.bytes)).map Prod.fst).Nodup := by
    intro list hlist
    rwa [List.map_map]
  have hnodup' : (files'.map PackFile.path).Nodup := ((h.map PackFile.path).nodup_iff).1 hnodup
  refine ext_get? fun path => Option.ext fun bytes => ?_
  rw [hfold, hfold, get?_foldl_insert (hkeys files hnodup),
    SortedMap.get?_foldl_insert (hkeys files' hnodup')]
  simp only [List.mem_map, h.mem_iff]

theorem fromFiles_perm (h : packContentDigest packCodec files = .ok digest)
    (hperm : files.Perm files') (expected : Digest) :
    fromFiles packCodec expected files =
      fromFiles packCodec expected files' := by
  have hsort : sortFiles files = sortFiles files' := by
    have hsorted := sortFiles_sortFiles files
    refine List.Perm.eq_of_pairwise ?_ (sortFiles_sorted files) (sortFiles_sorted files')
      (((sortFiles_perm files).trans hperm).trans (sortFiles_perm files').symm)
    intro left right hleft hright hle hge
    have hnodup := files_nodup h
    exact inj_on_of_nodup_map hnodup (mem_sortFiles.1 hleft)
      (hperm.mem_iff.2 (mem_sortFiles.1 hright)) (le_antisymm hle hge)
  have hdigest : packContentDigest packCodec files = packContentDigest packCodec files' := by
    unfold packContentDigest validatedPackEntries
    rw [hsort, hperm.length_eq]
  have hsum : (files.map fun file => file.bytes.byteLen).sum =
      (files'.map fun file => file.bytes.byteLen).sum := (hperm.map _).sum_eq
  unfold fromFiles checkManifestReferences
  rw [hdigest, filesByPath_perm (files_nodup h) hperm, hsum]

/-- **A digest names one pack.** -/
theorem fromFiles_unique (hfree : Function.Injective packCodec.contentDigest)
    {pack' : VerifiedPack} (h : fromFiles packCodec digest files = .ok pack)
    (h' : fromFiles packCodec digest files' = .ok pack') : pack = pack' := by
  have hcontent := (fromFiles_ok h).2.1
  have hperm : files.Perm files' := by
    have hsort : sortFiles files = sortFiles files' := hfree
      ((packContentDigest_ok hcontent).2.2.trans (packContentDigest_ok (fromFiles_ok h').2.1).2.2.symm)
    exact (sortFiles_perm files).symm.trans (hsort ▸ sortFiles_perm files')
  rw [fromFiles_perm hcontent hperm, h'] at h
  cases h
  rfl

theorem fromFiles_packFiles (h : fromFiles packCodec digest files = .ok pack) :
    fromFiles packCodec digest pack.packFiles = .ok pack := by
  obtain ⟨-, hcontent, hfiles⟩ := fromFiles_ok h
  have hperm : files.Perm pack.packFiles := by
    rw [packFiles, hfiles, filesByPath_entries hcontent]
    exact (sortFiles_perm files).symm
  rw [← fromFiles_perm hcontent hperm, h]

end Verified

/-! ## 2. The dependency closure -/

variable {source : LockedSource}

section Closure

variable (packs : LockedSource → Option VerifiedPack)

/-- The manifest at one source declares a dependency on another. -/
def Imports (source target : LockedSource) : Prop :=
  ∃ pack, packs source = some pack ∧ ∃ dependency ∈ pack.manifest.dependencies,
    LockedSource.fromDependency dependency.source = target

/-- The root requires the source, at once or through others. -/
def Required (source : LockedSource) : Prop :=
  Relation.ReflTransGen (Imports packs) .root source

def edgesAt (source : LockedSource) : Nat :=
  ((packs source).map fun pack => pack.manifest.dependencies.length).getD 0

def bytesAt (source : LockedSource) : Nat :=
  ((packs source).map fun pack => pack.totalBytes).getD 0

/-- The pack object of a source, as far as its bytes are counted. -/
def objectAt (source : LockedSource) : Digest × Nat :=
  ((packs source).map fun pack => (pack.contentDigest, pack.totalBytes)).getD (⟨0⟩, 0)

/-- The bytes of the pack objects of some sources, each object once. -/
def objectBytes (sources : Finset LockedSource) : Nat :=
  ∑ object ∈ sources.image (objectAt packs), object.2

/-- The sources that the root requires, each with the declared package. -/
structure Closes (sources : Finset LockedSource) : Prop where
  required : ∀ source, source ∈ sources ↔ Required packs source
  available : ∀ source ∈ sources, ∃ pack, packs source = some pack
  packages : ∀ source ∈ sources, ∀ pack, packs source = some pack →
    ∀ dependency ∈ pack.manifest.dependencies, ∀ target,
      packs (.fromDependency dependency.source) = some target →
        target.manifest.packageId = dependency.packageId

/-- `discover_dependency` charges local sources only. -/
def SourceWorld.descriptorsAt (world : SourceWorld) : LockedSource → Nat
  | .localLocator locator => world.locatorDescriptors locator
  | _ => 0

/-- The limits that every discovery checks. -/
structure Room (world : SourceWorld) (sources : Finset LockedSource) : Prop where
  nodes : sources.card ≤ maxLockNodes
  processed : ∑ source ∈ sources, bytesAt packs source ≤ maxProcessedPackBytes
  unique : objectBytes packs sources ≤ maxGraphObjectBytes
  descriptors : world.rootDescriptors + ∑ source ∈ sources, world.descriptorsAt source ≤
    world.pinnedDescriptorLimit

/-- The limits of a resolution. -/
structure Within (world : SourceWorld) (sources : Finset LockedSource) : Prop
    extends Room packs world sources where
  edges : ∑ source ∈ sources, edgesAt packs source ≤ maxLockEdges

def OnePack : Prop :=
  ∀ left right pack pack', packs left = some pack → packs right = some pack' →
    pack.contentDigest = pack'.contentDigest → pack = pack'

variable {packs}

theorem edgesAt_of (h : packs source = some pack) :
    edgesAt packs source = pack.manifest.dependencies.length := by
  simp [edgesAt, h]

theorem bytesAt_of (h : packs source = some pack) : bytesAt packs source = pack.totalBytes := by
  simp [bytesAt, h]

theorem objectAt_of (h : packs source = some pack) :
    objectAt packs source = (pack.contentDigest, pack.totalBytes) := by
  simp [objectAt, h]

theorem objectBytes_insert (hone : OnePack packs) {sources : Finset LockedSource}
    (havailable : ∀ other ∈ sources, ∃ found, packs other = some found)
    (hpack : packs source = some pack) :
    objectBytes packs (insert source sources) =
      if ∃ other ∈ sources, (objectAt packs other).1 = pack.contentDigest then
        objectBytes packs sources
      else
        objectBytes packs sources + pack.totalBytes := by
  unfold objectBytes
  rw [image_insert, objectAt_of hpack]
  split
  · rename_i hknown
    obtain ⟨other, hother, hdigest⟩ := hknown
    obtain ⟨found, hfound⟩ := havailable other hother
    rw [objectAt_of hfound] at hdigest
    obtain rfl := hone other source found pack hfound hpack hdigest
    rw [insert_eq_of_mem]
    exact mem_image.2 ⟨other, hother, objectAt_of hfound⟩
  · rename_i hnew
    rw [sum_insert, Nat.add_comm]
    intro hmem
    obtain ⟨other, hother, heq⟩ := mem_image.1 hmem
    exact hnew ⟨other, hother, by rw [heq]⟩

theorem objectBytes_mono {fewer sources : Finset LockedSource} (hsub : fewer ⊆ sources) :
    objectBytes packs fewer ≤ objectBytes packs sources :=
  sum_le_sum_of_subset (image_subset_image hsub)

theorem Room.mono {world : SourceWorld} {fewer sources : Finset LockedSource}
    (h : Room packs world sources) (hsub : fewer ⊆ sources) : Room packs world fewer where
  nodes := (card_le_card hsub).trans h.nodes
  processed := (sum_le_sum_of_subset hsub).trans h.processed
  unique := (objectBytes_mono hsub).trans h.unique
  descriptors := (Nat.add_le_add_left (sum_le_sum_of_subset hsub) _).trans h.descriptors

theorem Closes.imports {sources : Finset LockedSource} (h : Closes packs sources)
    {target : LockedSource} (hmem : source ∈ sources) (himports : Imports packs source target) :
    target ∈ sources :=
  (h.required target).2 (((h.required source).1 hmem).tail himports)

end Closure

/-! ## 3. What a source gives -/

variable {codec : LockCodec}

section Discovery

variable (packCodec : PackCodec) (world : SourceWorld) (inputs : LockResolutionInputs)
  (oldLock : Option (Lock codec))

/-- The pack at a source: what is granted and can be read, or was pinned. -/
def provide : LockedSource → Except LockOperationError VerifiedPack
  | .root => capturePack packCodec world .root
  | .localLocator locator => do
    reject (locator ∉ inputs.localLocators) (.localSourceNotGranted locator)
    capturePack packCodec world (.localLocator locator)
  | .git git => discoverGit packCodec world inputs oldLock git

/-- The fixed function from sources to packs. -/
def sourcePacks (source : LockedSource) : Option VerifiedPack :=
  (provide packCodec world inputs oldLock source).toOption

variable {packCodec world inputs oldLock}

theorem sourcePacks_eq_some :
    sourcePacks packCodec world inputs oldLock source = some pack ↔
      provide packCodec world inputs oldLock source = .ok pack := by
  unfold sourcePacks
  cases provide packCodec world inputs oldLock source <;> simp [Except.toOption]

theorem capturePack_verified (h : capturePack packCodec world source = .ok pack) :
    ∃ files, fromFiles packCodec pack.contentDigest files = .ok pack := by
  simp only [capturePack, bind_ok, mapError_ok] at h
  obtain ⟨files, -, digest, -, hpack⟩ := h
  have hdigest := (fromFiles_ok hpack).1
  exact ⟨files, hdigest ▸ hpack⟩

theorem reuseCached_verified {git : GitSource} {expected : Option Digest}
    (h : reuseCached packCodec world git expected = .ok (some pack)) :
    ∃ files, fromFiles packCodec pack.contentDigest files = .ok pack := by
  cases expected with
  | none => cases h
  | some digest =>
    simp only [reuseCached] at h
    split at h
    · cases h
    · cases h
    · rename_i files hfiles
      simp only [bind_ok, mapError_ok, pure_ok, Option.some.injEq] at h
      obtain ⟨found, hpack, rfl⟩ := h
      have hdigest := (fromFiles_ok hpack).1
      exact ⟨files, hdigest ▸ hpack⟩

theorem provide_verified (h : provide packCodec world inputs oldLock source = .ok pack) :
    ∃ files, fromFiles packCodec pack.contentDigest files = .ok pack := by
  cases source with
  | root => exact capturePack_verified h
  | localLocator locator =>
    simp only [provide, bind_ok] at h
    obtain ⟨-, -, hpack⟩ := h
    exact capturePack_verified hpack
  | git git =>
    simp only [provide, discoverGit, bind_ok, exists_unit] at h
    obtain ⟨-, h⟩ := h
    split at h
    · cases h
    · rename_i expected _ _
      simp only [loadPinned] at h
      split at h
      · cases h
      · cases h
      · rename_i files _
        rw [mapError_ok] at h
        have hdigest := (fromFiles_ok h).1
        exact ⟨files, hdigest ▸ h⟩
    · simp only [acquireForLock, bind_ok] at h
      obtain ⟨cached, hcached, h⟩ := h
      split at h
      · rw [pure_ok] at h
        obtain rfl := h
        exact reuseCached_verified hcached
      · simp only [bind_ok, exists_unit, pure_ok] at h
        obtain ⟨found, hfound, -, rfl⟩ := h
        exact capturePack_verified hfound

theorem sourcePacks_onePack (hfree : Function.Injective packCodec.contentDigest) :
    OnePack (sourcePacks packCodec world inputs oldLock) := by
  intro left right pack pack' hleft hright hdigest
  obtain ⟨files, hfiles⟩ := provide_verified (sourcePacks_eq_some.1 hleft)
  obtain ⟨files', hfiles'⟩ := provide_verified (sourcePacks_eq_some.1 hright)
  exact fromFiles_unique hfree hfiles (hdigest ▸ hfiles')

theorem discoverDependency_ok {pinned actual : Nat}
    (hpinned : pinned ≤ world.pinnedDescriptorLimit) (hroot : source ≠ .root) :
    discoverDependency packCodec world inputs oldLock pinned source = .ok (pack, actual) ↔
      sourcePacks packCodec world inputs oldLock source = some pack ∧
        actual = pinned + world.descriptorsAt source ∧
        pinned + world.descriptorsAt source ≤ world.pinnedDescriptorLimit := by
  rw [sourcePacks_eq_some]
  cases source with
  | root => exact absurd rfl hroot
  | localLocator locator =>
    simp only [discoverDependency, provide, SourceWorld.descriptorsAt, bind_ok,
      exists_unit, reject_ok, pure_ok, Prod.mk.injEq, not_lt]
    constructor
    · rintro ⟨hgranted, hlimit, found, hfound, rfl, rfl⟩
      exact ⟨⟨hgranted, hfound⟩, rfl, hlimit⟩
    · rintro ⟨⟨hgranted, hfound⟩, rfl, hlimit⟩
      exact ⟨hgranted, hlimit, pack, hfound, rfl, rfl⟩
  | git git =>
    simp only [discoverDependency, provide, SourceWorld.descriptorsAt, bind_ok,
      pure_ok, Prod.mk.injEq, Nat.add_zero]
    constructor
    · rintro ⟨found, hfound, rfl, rfl⟩
      exact ⟨hfound, rfl, hpinned⟩
    · rintro ⟨hfound, rfl, -⟩
      exact ⟨pack, hfound, rfl, rfl⟩

end Discovery

/-! ## 4. One turn of the walk -/

theorem fromDependency_ne_root (source : DependencySource) :
    LockedSource.fromDependency source ≠ .root := by
  cases source <;> exact LockedSource.noConfusion

def Walk.sources (walk : Walk) : Finset LockedSource := walk.discovered.keys.toFinset

/-- The target of a dependency is discovered and is the declared package. -/
def Walk.Has (walk : Walk) (dependency : PackDependency) : Prop :=
  ∃ pack, walk.discovered.get? (.fromDependency dependency.source) = some pack ∧
    pack.manifest.packageId = dependency.packageId

/-- Nothing that was discovered is forgotten. -/
def Walk.Extends (walk next : Walk) : Prop :=
  ∀ source pack, walk.discovered.get? source = some pack →
    next.discovered.get? source = some pack

/-- What every turn keeps: the counters are those of the discovered sources. -/
structure Walk.Follows (packs : LockedSource → Option VerifiedPack) (world : SourceWorld)
    (done : Finset LockedSource) (walk : Walk) : Prop where
  packOf : ∀ source pack, walk.discovered.get? source = some pack → packs source = some pack
  required : ∀ source ∈ walk.sources, Required packs source
  root : LockedSource.root ∈ walk.sources
  nodup : walk.pending.Nodup
  split : ∀ source, source ∈ walk.sources ↔ source ∈ walk.pending ∨ source ∈ done
  fresh : ∀ source ∈ walk.pending, source ∉ done
  edgeCount : walk.edgeCount = ∑ source ∈ done, edgesAt packs source
  edgeLimit : walk.edgeCount ≤ maxLockEdges
  processed : walk.processedBytes = ∑ source ∈ walk.sources, bytesAt packs source
  digests : ∀ digest, digest ∈ walk.uniqueDigests ↔
    ∃ source ∈ walk.sources, (objectAt packs source).1 = digest
  unique : walk.uniqueBytes = objectBytes packs walk.sources
  descriptors : walk.pinnedDescriptors =
    world.rootDescriptors + ∑ source ∈ walk.sources, world.descriptorsAt source
  room : Room packs world walk.sources

variable {packs : LockedSource → Option VerifiedPack} {world : SourceWorld}
  {done : Finset LockedSource} {walk next : Walk}

section Turns

variable {target : LockedSource}

theorem Walk.mem_sources : source ∈ walk.sources ↔ ∃ pack, walk.discovered.get? source = some pack := by
  rw [sources, mem_toFinset, SortedMap.mem_keys]

theorem Walk.notMem_sources : source ∉ walk.sources ↔ walk.discovered.get? source = none := by
  rw [mem_sources, Option.eq_none_iff_forall_ne_some, not_exists]

theorem Walk.card_sources : walk.sources.card = walk.discovered.entries.length := by
  rw [sources, toFinset_card_of_nodup walk.discovered.nodup_keys, SortedMap.keys, length_map]

def Walk.add (walk : Walk) (world : SourceWorld) (target : LockedSource) (pack : VerifiedPack) :
    Walk :=
  { walk with
    discovered := walk.discovered.insert target pack
    pending := walk.pending.orderedInsert (· ≤ ·) target
    processedBytes := walk.processedBytes + pack.totalBytes
    uniqueDigests :=
      if pack.contentDigest ∈ walk.uniqueDigests then walk.uniqueDigests
      else pack.contentDigest :: walk.uniqueDigests
    uniqueBytes :=
      if pack.contentDigest ∈ walk.uniqueDigests then walk.uniqueBytes
      else walk.uniqueBytes + pack.totalBytes
    pinnedDescriptors := walk.pinnedDescriptors + world.descriptorsAt target }

theorem Walk.sources_add : (walk.add world target pack).sources = insert target walk.sources := by
  ext other
  rw [mem_insert]
  simp only [sources, add, mem_toFinset, mem_keys_insert]

theorem Walk.add_extends (hfresh : target ∉ walk.sources) :
    walk.Extends (walk.add world target pack) := by
  intro other found hfound
  show (walk.discovered.insert target pack).get? other = some found
  rw [get?_insert, if_neg, hfound]
  rintro rfl
  exact hfresh (mem_sources.2 ⟨found, hfound⟩)

section

variable (h : walk.Follows packs world done)
include h

theorem Walk.Follows.available (hmem : source ∈ walk.sources) :
    ∃ pack, packs source = some pack := by
  obtain ⟨pack, hget⟩ := mem_sources.1 hmem
  exact ⟨pack, h.packOf source pack hget⟩

theorem Walk.Follows.unique_add (hone : OnePack packs) (hpack : packs target = some pack) :
    (walk.add world target pack).uniqueBytes = objectBytes packs (insert target walk.sources) := by
  rw [objectBytes_insert hone (fun other hother => h.available hother) hpack, ← h.unique]
  show (if pack.contentDigest ∈ walk.uniqueDigests then _ else _) = _
  simp only [h.digests]

theorem Walk.Follows.add (hone : OnePack packs) (hfresh : target ∉ walk.sources)
    (hpack : packs target = some pack) (hreq : Required packs target)
    (hroom : Room packs world (insert target walk.sources)) :
    (walk.add world target pack).Follows packs world done := by
  have hpend : target ∉ walk.pending := fun hmem => hfresh ((h.split target).2 (.inl hmem))
  have hdone : target ∉ done := fun hmem => hfresh ((h.split target).2 (.inr hmem))
  have hperm : (walk.add world target pack).pending.Perm (target :: walk.pending) :=
    perm_orderedInsert _ target walk.pending
  refine ⟨?_, ?_, ?_, ?_, ?_, ?_, h.edgeCount, h.edgeLimit, ?_, ?_, ?_, ?_, ?_⟩
  · intro other found hfound
    change (walk.discovered.insert target pack).get? other = some found at hfound
    rcases of_get?_insert hfound with ⟨rfl, rfl⟩ | hfound
    · exact hpack
    · exact h.packOf other found hfound
  · intro other hother
    rw [sources_add, mem_insert] at hother
    rcases hother with rfl | hother
    · exact hreq
    · exact h.required other hother
  · rw [sources_add]
    exact Finset.mem_insert_of_mem h.root
  · rw [hperm.nodup_iff, nodup_cons]
    exact ⟨hpend, h.nodup⟩
  · intro other
    rw [sources_add, mem_insert, h.split, hperm.mem_iff, List.mem_cons, or_assoc]
  · intro other hother
    rw [hperm.mem_iff, List.mem_cons] at hother
    rcases hother with rfl | hother
    · exact hdone
    · exact h.fresh other hother
  · rw [sources_add, sum_insert hfresh, bytesAt_of hpack, Nat.add_comm, ← h.processed]
    rfl
  · intro digest
    have hold := h.digests
    have hnew : (objectAt packs target).1 = pack.contentDigest := by rw [objectAt_of hpack]
    rw [sources_add, exists_mem_insert, hnew, ← hold]
    show digest ∈ (if _ then _ else _) ↔ _
    split
    · rename_i hknown
      constructor
      · exact .inr
      · rintro (rfl | hmem)
        · exact hknown
        · exact hmem
    · rw [List.mem_cons, eq_comm]
  · rw [sources_add]
    exact h.unique_add hone hpack
  · rw [sources_add, sum_insert hfresh, Nat.add_comm (world.descriptorsAt target),
      ← Nat.add_assoc, ← h.descriptors]
    rfl
  · rw [sources_add]
    exact hroom

end

end Turns

/-! ## 5. The whole walk -/

section Walks

variable {inputs : LockResolutionInputs} {oldLock : Option (Lock codec)}

variable {dependency : PackDependency} {sources : Finset LockedSource} {root : VerifiedPack}

variable (world) in
theorem chargeUnique_ok {ds : List Digest} {bytes : Nat}
    (hlimit : walk.uniqueBytes ≤ maxGraphObjectBytes) :
    chargeUnique walk pack = .ok (ds, bytes) ↔
      (walk.add world .root pack).uniqueDigests = ds ∧
        (walk.add world .root pack).uniqueBytes = bytes ∧ bytes ≤ maxGraphObjectBytes := by
  simp only [chargeUnique, add]
  split
  · simp only [Except.ok.injEq, Prod.mk.injEq]
    constructor
    · rintro ⟨rfl, rfl⟩
      exact ⟨rfl, rfl, hlimit⟩
    · rintro ⟨rfl, rfl, -⟩
      exact ⟨rfl, rfl⟩
  · simp only [bind_ok, exists_unit, reject_ok, pure_ok, not_lt, Prod.mk.injEq]
    constructor
    · rintro ⟨hle, rfl, rfl⟩
      exact ⟨rfl, rfl, hle⟩
    · rintro ⟨rfl, rfl, hle⟩
      exact ⟨hle, rfl, rfl⟩

/-- A discovery adds the pack of the target when the package agrees and the limits hold. -/
theorem discoverTarget_ok (hpacks : packs = sourcePacks packCodec world inputs oldLock)
    (hone : OnePack packs) (h : walk.Follows packs world done) {target : LockedSource}
    (hfresh : target ∉ walk.sources) (hroot : target ≠ .root) {packageId : PackageId} :
    discoverTarget packCodec world inputs oldLock walk target packageId = .ok next ↔
      ∃ pack, packs target = some pack ∧ pack.manifest.packageId = packageId ∧
        Room packs world (insert target walk.sources) ∧ walk.add world target pack = next := by
  have hdescriptors := h.room.descriptors
  rw [← h.descriptors] at hdescriptors
  have hunique := h.room.unique
  rw [← h.unique] at hunique
  have hcard : walk.discovered.entries.length = walk.sources.card := card_sources.symm
  have hnodes := h.room.nodes
  have hroom : ∀ pack, packs target = some pack →
      (Room packs world (insert target walk.sources) ↔ walk.sources.card ≠ maxLockNodes ∧
        walk.processedBytes + pack.totalBytes ≤ maxProcessedPackBytes ∧
        (walk.add world target pack).uniqueBytes ≤ maxGraphObjectBytes ∧
        walk.pinnedDescriptors + world.descriptorsAt target ≤ world.pinnedDescriptorLimit) := by
    intro pack hpack
    have hbytes : ∑ source ∈ insert target walk.sources, bytesAt packs source =
        walk.processedBytes + pack.totalBytes := by
      rw [sum_insert hfresh, bytesAt_of hpack, Nat.add_comm, h.processed]
    have hcharged : world.rootDescriptors + ∑ source ∈ insert target walk.sources,
        world.descriptorsAt source = walk.pinnedDescriptors + world.descriptorsAt target := by
      rw [sum_insert hfresh, h.descriptors]
      omega
    have hcount : (insert target walk.sources).card = walk.sources.card + 1 :=
      card_insert_of_notMem hfresh
    have hobjs := h.unique_add hone hpack
    constructor
    · rintro ⟨hroomNodes, hprocessed, hroomUnique, hroomDescriptors⟩
      exact ⟨by omega, by omega, by omega, by omega⟩
    · rintro ⟨hroomNodes, hprocessed, hroomUnique, hroomDescriptors⟩
      exact ⟨by omega, by omega, by omega, by omega⟩
  unfold discoverTarget
  simp only [bind_ok, exists_unit, reject_ok, Prod.exists, not_lt, hcard,
    discoverDependency_ok hdescriptors hroot, ← hpacks, chargeUnique_ok world hunique,
    validatePackage, not_not, pure_ok]
  constructor
  · rintro ⟨hlen, pack, pinned, ⟨hpack, rfl, hpinned⟩, hprocessed, digests, bytes,
      ⟨rfl, rfl, hbytes⟩, hpackage, rfl⟩
    exact ⟨pack, hpack, hpackage, (hroom pack hpack).2 ⟨hlen, hprocessed, hbytes, hpinned⟩, rfl⟩
  · rintro ⟨pack, hpack, hpackage, hfits, rfl⟩
    obtain ⟨hlen, hprocessed, hbytes, hpinned⟩ := (hroom pack hpack).1 hfits
    exact ⟨hlen, pack, _, ⟨hpack, rfl, hpinned⟩, hprocessed, _, _, ⟨rfl, rfl, hbytes⟩,
      hpackage, rfl⟩

section

variable (hpacks : packs = sourcePacks packCodec world inputs oldLock) (hone : OnePack packs)
  (h : walk.Follows packs world done)
include hpacks hone h

theorem walkDependency_follows (hreq : Required packs (.fromDependency dependency.source))
    (hstep : walkDependency packCodec world inputs oldLock walk dependency = .ok next) :
    next.Follows packs world done ∧ walk.Extends next ∧ next.Has dependency := by
  unfold walkDependency at hstep
  dsimp only at hstep
  split at hstep
  · rename_i hnone
    have hfresh := notMem_sources.2 hnone
    obtain ⟨pack, hpack, hpackage, hroom, rfl⟩ := (discoverTarget_ok hpacks hone h hfresh
      (fromDependency_ne_root _)).1 hstep
    refine ⟨h.add hone hfresh hpack hreq hroom, add_extends hfresh, pack, ?_, hpackage⟩
    show (walk.discovered.insert _ pack).get? _ = some pack
    rw [get?_insert, if_pos rfl]
  · rename_i pack hget
    simp only [validatePackage, bind_ok, exists_unit, reject_ok, not_not, pure_ok] at hstep
    obtain ⟨hpackage, rfl⟩ := hstep
    exact ⟨h, fun _ _ hfound => hfound, pack, hget, hpackage⟩

theorem walkDependency_succeeds (hcloses : Closes packs sources)
    (hroom : Room packs world sources) (hmem : .fromDependency dependency.source ∈ sources)
    (hpackage : ∀ pack, packs (.fromDependency dependency.source) = some pack →
      pack.manifest.packageId = dependency.packageId) :
    ∃ next, walkDependency packCodec world inputs oldLock walk dependency = .ok next := by
  unfold walkDependency
  dsimp only
  split
  · rename_i hnone
    have hfresh := notMem_sources.2 hnone
    obtain ⟨pack, hpack⟩ := hcloses.available _ hmem
    have hsub : insert (.fromDependency dependency.source) walk.sources ⊆ sources := by
      refine insert_subset hmem fun source hsource => ?_
      exact (hcloses.required source).2 (h.required source hsource)
    exact ⟨_, (discoverTarget_ok hpacks hone h hfresh (fromDependency_ne_root _)).2
      ⟨pack, hpack, hpackage pack hpack, hroom.mono hsub, rfl⟩⟩
  · rename_i pack hget
    refine ⟨walk, ?_⟩
    simp only [validatePackage, bind_ok, exists_unit, reject_ok, not_not, pure_ok, and_true]
    exact hpackage pack (h.packOf _ pack hget)

end

theorem Walk.Has.mono (h : walk.Has dependency) (hext : walk.Extends next) :
    next.Has dependency := by
  obtain ⟨pack, hget, hpackage⟩ := h
  exact ⟨pack, hext _ pack hget, hpackage⟩

section

variable (hpacks : packs = sourcePacks packCodec world inputs oldLock) (hone : OnePack packs)
include hpacks hone

theorem walkDependencies_follow {deps : List PackDependency}
    (hreq : ∀ dependency ∈ deps, Required packs (.fromDependency dependency.source))
    (h : walk.Follows packs world done)
    (hsteps : deps.foldlM (walkDependency packCodec world inputs oldLock) walk = .ok next) :
    next.Follows packs world done ∧ walk.Extends next ∧
      ∀ dependency ∈ deps, next.Has dependency := by
  induction deps generalizing walk with
  | nil =>
    obtain rfl := pure_ok.1 hsteps
    exact ⟨h, fun _ _ hfound => hfound, by simp⟩
  | cons first rest ih =>
    rw [foldlM_cons, bind_ok] at hsteps
    obtain ⟨mid, hfirst, hrest⟩ := hsteps
    obtain ⟨hmiddle, hext, hhas⟩ := walkDependency_follows hpacks hone h
      (hreq first mem_cons_self) hfirst
    obtain ⟨hnext, hext', hall⟩ := ih
      (fun dependency hmem => hreq dependency (mem_cons_of_mem _ hmem)) hmiddle hrest
    refine ⟨hnext, fun source pack hget => hext' _ _ (hext source pack hget), ?_⟩
    intro dependency hmem
    rcases mem_cons.1 hmem with rfl | hmem
    · exact hhas.mono hext'
    · exact hall dependency hmem

theorem walkDependencies_succeed (hcloses : Closes packs sources)
    (hroom : Room packs world sources) {deps : List PackDependency}
    (hmem : ∀ dependency ∈ deps, .fromDependency dependency.source ∈ sources)
    (hpackage : ∀ dependency ∈ deps, ∀ pack,
      packs (.fromDependency dependency.source) = some pack →
        pack.manifest.packageId = dependency.packageId) (h : walk.Follows packs world done) :
    ∃ next, deps.foldlM (walkDependency packCodec world inputs oldLock) walk = .ok next := by
  induction deps generalizing walk with
  | nil => exact ⟨walk, rfl⟩
  | cons first rest ih =>
    obtain ⟨mid, hfirst⟩ := walkDependency_succeeds hpacks hone h hcloses hroom
      (hmem first mem_cons_self) (hpackage first mem_cons_self)
    have hreq := (hcloses.required _).1 (hmem first mem_cons_self)
    obtain ⟨hmiddle, -, -⟩ := walkDependency_follows hpacks hone h hreq hfirst
    obtain ⟨next, hrest⟩ := ih
      (fun dependency hin => hmem dependency (mem_cons_of_mem _ hin))
      (fun dependency hin => hpackage dependency (mem_cons_of_mem _ hin)) hmiddle
    exact ⟨next, by rw [foldlM_cons, hfirst]; exact hrest⟩

end

/-- Every dependency of a source that was taken is there. -/
def Walk.Settled (done : Finset LockedSource) (walk : Walk) : Prop :=
  ∀ source ∈ done, ∀ pack, walk.discovered.get? source = some pack →
    ∀ dependency ∈ pack.manifest.dependencies, walk.Has dependency

/-- The walk after a source is taken and its edges are counted. -/
def Walk.take (walk : Walk) (rest : List LockedSource) (edges : Nat) : Walk :=
  { walk with pending := rest, edgeCount := walk.edgeCount + edges }

theorem Walk.Follows.take {rest : List LockedSource} (h : walk.Follows packs world done)
    (hpend : walk.pending = source :: rest)
    (hedges : walk.edgeCount + edgesAt packs source ≤ maxLockEdges) :
    (walk.take rest (edgesAt packs source)).Follows packs world (insert source done) := by
  have hnodup := h.nodup
  rw [hpend, nodup_cons] at hnodup
  have hsource : source ∉ done := h.fresh source (by rw [hpend]; exact mem_cons_self)
  refine ⟨h.packOf, h.required, h.root, hnodup.2, ?_, ?_, ?_, hedges, h.processed, h.digests,
    h.unique, h.descriptors, h.room⟩
  · intro other
    have hsplit := h.split other
    rw [hpend, List.mem_cons] at hsplit
    show other ∈ walk.sources ↔ other ∈ rest ∨ other ∈ insert source done
    rw [hsplit, mem_insert]
    tauto
  · intro other hother
    rw [mem_insert, not_or]
    refine ⟨?_, h.fresh other (by rw [hpend]; exact mem_cons_of_mem _ hother)⟩
    rintro rfl
    exact hnodup.1 hother
  · show walk.edgeCount + edgesAt packs source = _
    rw [sum_insert hsource, h.edgeCount, Nat.add_comm]

theorem walkSource_ok (rest : List LockedSource) (h : walk.Follows packs world done)
    (hget : walk.discovered.get? source = some pack) :
    walkSource packCodec world inputs oldLock { walk with pending := rest } source = .ok next ↔
      walk.edgeCount + edgesAt packs source ≤ maxLockEdges ∧
        pack.manifest.dependencies.foldlM (walkDependency packCodec world inputs oldLock)
          (walk.take rest (edgesAt packs source)) = .ok next := by
  have hedges := edgesAt_of (h.packOf source pack hget)
  unfold walkSource
  simp only [hget, Option.map_some, Option.getD_some, bind_ok, exists_unit,
    reject_ok, not_lt, hedges]
  rfl

theorem imports_of_get? (h : walk.Follows packs world done)
    (hget : walk.discovered.get? source = some pack)
    (hmem : dependency ∈ pack.manifest.dependencies) :
    Imports packs source (.fromDependency dependency.source) :=
  ⟨pack, h.packOf source pack hget, dependency, hmem, rfl⟩

section

variable (hpacks : packs = sourcePacks packCodec world inputs oldLock)
include hpacks

/-- The walk with enough turns follows every pack and leaves none pending. -/
theorem walkPending_follows (hone : OnePack packs) {turns : Nat}
    (h : walk.Follows packs world done) (hsettled : walk.Settled done)
    (hturns : maxLockNodes ≤ turns + done.card)
    (hwalk : walkPending packCodec world inputs oldLock turns walk = .ok next) :
    ∃ done', next.Follows packs world done' ∧ next.Settled done' ∧ next.pending = [] ∧
      walk.Extends next := by
  induction turns generalizing walk done with
  | zero =>
    obtain rfl : walk = next := by
      rw [walkPending] at hwalk
      cases hwalk
      rfl
    refine ⟨done, h, hsettled, ?_, fun _ _ hfound => hfound⟩
    rw [← toFinset_eq_empty_iff]
    have hunion : walk.sources = walk.pending.toFinset ∪ done := by
      ext source
      rw [h.split, mem_union, mem_toFinset]
    have hdisjoint : Disjoint walk.pending.toFinset done := by
      rw [Finset.disjoint_left]
      exact fun source hsource => h.fresh source (mem_toFinset.1 hsource)
    have hcard := h.room.nodes
    rw [hunion, card_union_of_disjoint hdisjoint] at hcard
    rw [← card_eq_zero]
    omega
  | succ turns ih =>
    rw [walkPending] at hwalk
    cases hpend : walk.pending with
    | nil =>
      rw [hpend] at hwalk
      cases hwalk
      exact ⟨done, h, hsettled, hpend, fun _ _ hfound => hfound⟩
    | cons source rest =>
      rw [hpend] at hwalk
      dsimp only at hwalk
      rw [bind_ok] at hwalk
      obtain ⟨mid, hsource, hrest⟩ := hwalk
      have hhead : source ∈ walk.pending := by
        rw [hpend]
        exact mem_cons_self
      have hmem : source ∈ walk.sources := (h.split source).2 (.inl hhead)
      obtain ⟨pack, hget⟩ := mem_sources.1 hmem
      obtain ⟨hedges, hfold⟩ := (walkSource_ok rest h hget).1 hsource
      have hreq : ∀ dependency ∈ pack.manifest.dependencies,
          Required packs (.fromDependency dependency.source) :=
        fun dependency hin => (h.required source hmem).tail (imports_of_get? h hget hin)
      obtain ⟨hmiddle, hext, hhas⟩ := walkDependencies_follow hpacks hone hreq
        (h.take hpend hedges) hfold
      have hnewly : mid.Settled (insert source done) := by
        intro other hother found hfound dependency hin
        have hdone : other ∈ walk.sources := by
          rcases mem_insert.1 hother with rfl | hother
          · exact hmem
          · exact (h.split other).2 (.inr hother)
        obtain ⟨before, hbefore⟩ := mem_sources.1 hdone
        obtain rfl : before = found :=
          Option.some.inj ((hext other before hbefore).symm.trans hfound)
        rcases mem_insert.1 hother with rfl | hother
        · obtain rfl : pack = before := Option.some.inj (hget.symm.trans hbefore)
          exact hhas dependency hin
        · exact (hsettled other hother before hbefore dependency hin).mono hext
      have hcard : (insert source done).card = done.card + 1 :=
        card_insert_of_notMem (h.fresh source hhead)
      obtain ⟨done', hnext, hends, hempty, hlater⟩ := ih hmiddle hnewly (by omega) hrest
      exact ⟨done', hnext, hends, hempty, fun other found hfound =>
        hlater other found (hext other found hfound)⟩

theorem walkPending_succeeds (hone : OnePack packs) (hcloses : Closes packs sources)
    (hwithin : Within packs world sources) (turns : Nat) (h : walk.Follows packs world done) :
    ∃ next, walkPending packCodec world inputs oldLock turns walk = .ok next := by
  induction turns generalizing walk done with
  | zero => exact ⟨walk, rfl⟩
  | succ turns ih =>
    rw [walkPending]
    cases hpend : walk.pending with
    | nil => exact ⟨walk, rfl⟩
    | cons source rest =>
      have hhead : source ∈ walk.pending := by
        rw [hpend]
        exact mem_cons_self
      have hmem : source ∈ walk.sources := (h.split source).2 (.inl hhead)
      have hin : source ∈ sources := (hcloses.required source).2 (h.required source hmem)
      obtain ⟨pack, hget⟩ := mem_sources.1 hmem
      have hpack := h.packOf source pack hget
      have hedges : walk.edgeCount + edgesAt packs source ≤ maxLockEdges := by
        have hsub : insert source done ⊆ sources := by
          refine insert_subset hin fun other hother => ?_
          exact (hcloses.required other).2 (h.required other ((h.split other).2 (.inr hother)))
        have hsum : ∑ other ∈ insert source done, edgesAt packs other ≤ maxLockEdges :=
          (sum_le_sum_of_subset hsub).trans hwithin.edges
        rw [sum_insert (h.fresh source hhead), ← h.edgeCount] at hsum
        omega
      have hnext := h.take hpend hedges
      have himports : ∀ dependency ∈ pack.manifest.dependencies,
          .fromDependency dependency.source ∈ sources :=
        fun dependency hdep => hcloses.imports hin (imports_of_get? h hget hdep)
      obtain ⟨mid, hfold⟩ := walkDependencies_succeed hpacks hone hcloses hwithin.toRoom
        himports (fun dependency hdep => hcloses.packages source hin pack hpack
          dependency hdep) hnext
      have hreq : ∀ dependency ∈ pack.manifest.dependencies,
          Required packs (.fromDependency dependency.source) :=
        fun dependency hdep => (hcloses.required _).1 (himports dependency hdep)
      obtain ⟨hmiddle, -, -⟩ := walkDependencies_follow hpacks hone hreq hnext hfold
      obtain ⟨last, hlast⟩ := ih hmiddle
      refine ⟨last, ?_⟩
      dsimp only
      rw [(walkSource_ok rest h hget).2 ⟨hedges, hfold⟩]
      exact hlast

theorem capturePack_root :
    capturePack packCodec world .root = .ok root ↔ packs .root = some root := by
  rw [hpacks, sourcePacks_eq_some]
  rfl

end

theorem startWalk_ok :
    startWalk world root = .ok walk ↔ root.totalBytes ≤ maxGraphObjectBytes ∧
      world.rootDescriptors ≤ world.pinnedDescriptorLimit ∧
      { discovered := empty.insert .root root
        pending := [.root]
        edgeCount := 0
        processedBytes := root.totalBytes
        uniqueDigests := [root.contentDigest]
        uniqueBytes := root.totalBytes
        pinnedDescriptors := world.rootDescriptors } = walk := by
  simp only [startWalk, bind_ok, exists_unit, reject_ok, not_lt, pure_ok]

theorem startWalk_follows (hroot : packs .root = some root)
    (hstart : startWalk world root = .ok walk) : walk.Follows packs world ∅ := by
  obtain ⟨hbytes, hdescriptors, rfl⟩ := startWalk_ok.1 hstart
  have hget : ∀ source pack, (SortedMap.empty.insert LockedSource.root root).get? source =
      some pack ↔ source = .root ∧ root = pack := by
    intro source pack
    rw [SortedMap.get?_insert]
    split <;> simp_all
  have hsources : (SortedMap.empty.insert LockedSource.root root).keys.toFinset =
      {LockedSource.root} := by
    ext source
    simp [SortedMap.mem_keys]
  have hobjs : objectBytes packs {.root} = root.totalBytes := by
    rw [objectBytes, image_singleton, Finset.sum_singleton, objectAt_of hroot]
  have hsum : ∑ source ∈ ({.root} : Finset LockedSource), bytesAt packs source =
      root.totalBytes := by
    rw [Finset.sum_singleton, bytesAt_of hroot]
  have hcharged : ∑ source ∈ ({.root} : Finset LockedSource), world.descriptorsAt source = 0 := by
    rw [Finset.sum_singleton]
    rfl
  constructor
  case packOf =>
    intro source pack hfound
    obtain ⟨rfl, rfl⟩ := (hget source pack).1 hfound
    exact hroot
  case room =>
    simp only [sources, hsources]
    refine ⟨by simp [maxLockNodes], ?_, ?_, ?_⟩
    · rw [hsum]
      unfold maxProcessedPackBytes
      omega
    · rw [hobjs]
      exact hbytes
    · rw [hcharged]
      exact hdescriptors
  case required =>
    simp only [sources, hsources, Finset.mem_singleton]
    rintro source rfl
    exact .refl
  case digests =>
    simp [sources, hsources, objectAt_of hroot, eq_comm]
  all_goals simp [sources, hsources, hobjs, bytesAt_of hroot, maxLockEdges,
    SourceWorld.descriptorsAt]

/-- **The walk finds the closure** within the limits. -/
theorem walk_closes (hpacks : packs = sourcePacks packCodec world inputs oldLock)
    (hone : OnePack packs) (hroot : packs .root = some root) {start : Walk}
    (hstart : startWalk world root = .ok start)
    (hwalk : walkPending packCodec world inputs oldLock maxLockNodes start = .ok walk) :
    Closes packs walk.sources ∧ Within packs world walk.sources ∧
      ∀ source pack, walk.discovered.get? source = some pack ↔
        source ∈ walk.sources ∧ packs source = some pack := by
  have hsettled : start.Settled ∅ := by
    intro source hsource
    cases hsource
  obtain ⟨done, hfollows, hends, hempty, -⟩ := walkPending_follows hpacks hone
    (startWalk_follows hroot hstart) hsettled (by simp) hwalk
  have hdone : ∀ source, source ∈ walk.sources ↔ source ∈ done := by
    intro source
    rw [hfollows.split, hempty]
    simp
  have hget : ∀ source pack, walk.discovered.get? source = some pack ↔
      source ∈ walk.sources ∧ packs source = some pack := by
    intro source pack
    constructor
    · intro hfound
      exact ⟨mem_sources.2 ⟨pack, hfound⟩, hfollows.packOf source pack hfound⟩
    · rintro ⟨hmem, hpack⟩
      obtain ⟨found, hfound⟩ := mem_sources.1 hmem
      rw [hfound, ← hfollows.packOf source found hfound, hpack]
  refine ⟨⟨?_, ?_, ?_⟩, ⟨hfollows.room, ?_⟩, hget⟩
  · intro source
    constructor
    · exact hfollows.required source
    · intro hreq
      induction hreq with
      | refl => exact hfollows.root
      | tail _ himports ih =>
        obtain ⟨pack, hpack, dependency, hin, rfl⟩ := himports
        obtain ⟨found, hfound, -⟩ := hends _ ((hdone _).1 ih) pack ((hget _ pack).2 ⟨ih, hpack⟩)
          dependency hin
        exact mem_sources.2 ⟨found, hfound⟩
  · intro source hmem
    exact hfollows.available hmem
  · intro source hmem pack hpack dependency hin target htarget
    obtain ⟨found, hfound, hpackage⟩ := hends source ((hdone source).1 hmem) pack
      ((hget source pack).2 ⟨hmem, hpack⟩) dependency hin
    obtain rfl : found = target :=
      Option.some.inj ((hfollows.packOf _ found hfound).symm.trans htarget)
    exact hpackage
  · have hsum := hfollows.edgeLimit
    have hsame : walk.sources = done := by
      ext source
      exact hdone source
    rw [hfollows.edgeCount, ← hsame] at hsum
    exact hsum

/-- **The walk refuses nothing else.** -/
theorem walk_succeeds (hpacks : packs = sourcePacks packCodec world inputs oldLock)
    (hone : OnePack packs) (hcloses : Closes packs sources)
    (hwithin : Within packs world sources) :
    ∃ root start next, packs .root = some root ∧ startWalk world root = .ok start ∧
      walkPending packCodec world inputs oldLock maxLockNodes start = .ok next ∧
      next.sources = sources := by
  have hmem : .root ∈ sources := (hcloses.required .root).2 .refl
  obtain ⟨root, hroot⟩ := hcloses.available .root hmem
  have hobj : root.totalBytes ≤ maxGraphObjectBytes := by
    have hsingle := single_le_sum (f := fun obj : Digest × Nat => obj.2)
      (fun _ _ => Nat.zero_le _) (mem_image_of_mem (objectAt packs) hmem)
    rw [objectAt_of hroot] at hsingle
    exact hsingle.trans hwithin.unique
  have hdescriptors : world.rootDescriptors ≤ world.pinnedDescriptorLimit :=
    (Nat.le_add_right _ _).trans hwithin.descriptors
  have hstart := startWalk_ok.2 ⟨hobj, hdescriptors, rfl⟩
  obtain ⟨next, hwalk⟩ := walkPending_succeeds hpacks hone hcloses hwithin maxLockNodes
    (startWalk_follows hroot hstart)
  refine ⟨root, _, next, hroot, hstart, hwalk, ?_⟩
  obtain ⟨hcloses', -, -⟩ := walk_closes hpacks hone hroot hstart hwalk
  ext source
  rw [hcloses'.required, hcloses.required]

end Walks

end Malm.Pack
