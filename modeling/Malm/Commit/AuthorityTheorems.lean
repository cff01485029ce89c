/-
Malm.Commit.AuthorityTheorems — which prunes keep the catalog admissible.

Admission asks for the target files of a pinned plan, and the closure of a prune does
not follow them; on everything else the two agree. A prune keeps the catalog admissible
exactly when those files are retained otherwise (`prune_admissible_iff`).
-/
import Malm.Commit.PruneTheorems

namespace Malm.Commit

open Store Checks List Except

variable {codec : ObjectCodec} {machine : Machine}

variable {head : NamespaceHead} {planId : PreparedId} {record : PreparedRecord}
  {trackedRoot : Option TrackedRoot}

variable {after budgets : Nat × CanonicalLoadBudget} {digest : Digest}
  {gen : StateGeneration}

/-! ## 1. Validators on two stores -/

/-- Another store holds everything the roots reach. -/
def KeepsRetained (codec : ObjectCodec) (store next : ObjectStore) (roots : Root → Prop)
    (kept : PreparedId → Prop) : Prop :=
  ∀ entry, Retains codec store roots kept entry → SameEntry store next entry

variable {store : ObjectStore}

section Keeps

variable {next : ObjectStore} {roots : Root → Prop} {kept : PreparedId → Prop}

theorem verifyBlob_same (h : SameEntry store next (.blob digest)) :
    verifyBlob next digest = verifyBlob store digest := by
  unfold verifyBlob
  rw [show next.blobs.get? digest = store.blobs.get? digest from h]

theorem verifyPackObject_same (h : SameEntry store next (.pack digest))
    (hmanif : SameEntry store next (.packManifest digest)) :
    verifyPackObject next digest = verifyPackObject store digest := by
  unfold verifyPackObject
  rw [show next.packs.get? digest = store.packs.get? digest from h,
    show next.packManifests.get? digest = store.packManifests.get? digest from hmanif]

theorem loadAllArtifacts_same
    (h : ∀ art ∈ record.artifacts, SameEntry store next (.blob art.digest)) :
    loadAllArtifacts next record = loadAllArtifacts store record := by
  unfold loadAllArtifacts
  rw [mapM_congr]
  intro art hartifact
  unfold loadArtifact
  rw [show next.blobs.get? art.digest = store.blobs.get? art.digest from h art hartifact]

theorem retains_allows : Allows codec store
    (fun digest found => Retains codec store roots kept (.tree digest) ∧
      ∃ bytes, storedTree codec store digest = some (found, bytes))
    (fun digest _ => Retains codec store roots kept (.file digest))
    (fun digest => Retains codec store roots kept (.tree digest))
    (fun digest => Retains codec store roots kept (.symlink digest)) where
  fetched _ _ bytes hwaits hstored := ⟨hwaits, bytes, hstored⟩
  files _ _ hfound _ hentry _ _ hkind _ _ _ := by
    obtain ⟨habove, bytes, hstored⟩ := hfound
    exact .treeFile habove hstored hentry hkind
  directories _ _ hfound _ hentry _ hkind := by
    obtain ⟨habove, bytes, hstored⟩ := hfound
    exact .treeDirectory habove hstored hentry hkind
  symlinks _ _ hfound _ hentry _ hkind := by
    obtain ⟨habove, bytes, hstored⟩ := hfound
    exact .treeSymlink habove hstored hentry hkind

variable (hkeeps : KeepsRetained codec store next roots kept)

include hkeeps

variable {budget left : CanonicalLoadBudget}

theorem loadCanonicalRoots_kept {treeRoots directSymlinks : List Digest}
    {objects : CanonicalObjects}
    (hroots : ∀ root ∈ treeRoots, Retains codec store roots kept (.tree root))
    (hlinks : ∀ digest ∈ directSymlinks, Retains codec store roots kept (.symlink digest))
    (h : loadCanonicalRootsWithBudget codec store treeRoots directSymlinks budget =
      .ok (objects, left)) :
    loadCanonicalRootsWithBudget codec next treeRoots directSymlinks budget =
      .ok (objects, left) := by
  obtain ⟨htrees, hfiles, hsymlinks⟩ := loadCanonicalRoots_inside retains_allows h hroots hlinks
  refine loadCanonicalRoots_same h ⟨?_, ?_, ?_⟩
  · intro digest hmem
    obtain ⟨tree, hget⟩ := get?_of_contains hmem
    exact hkeeps _ (htrees digest tree hget).1
  · intro digest hmem
    obtain ⟨data, hget⟩ := get?_of_contains hmem
    exact hkeeps _ (hfiles digest data hget)
  · intro digest hmem
    obtain ⟨t, hget⟩ := get?_of_contains hmem
    exact hkeeps _ (hsymlinks digest t hget)

theorem validateTrackedRootTree_kept (hroots : ∀ tracked, trackedRoot = some tracked →
      Retains codec store roots kept (.tree tracked.rootTreeDigest))
    (h : validateTrackedRootTree codec store trackedRoot budget = .ok left) :
    validateTrackedRootTree codec next trackedRoot budget = .ok left := by
  cases trackedRoot with
  | none => exact h
  | some tracked =>
    simp only [validateTrackedRootTree, bind_ok, pure_ok, Prod.exists] at h ⊢
    obtain ⟨objects, spent, hload, rfl⟩ := h
    refine ⟨objects, spent, loadCanonicalRoots_kept hkeeps ?_ (fun _ h => by cases h) hload, rfl⟩
    intro root hroot
    rw [mem_singleton.1 hroot]
    exact hroots tracked rfl

theorem validateRetainedSnapshotDependencies_kept {snap : DesiredSnapshot}
    (hfiles : ∀ file ∈ snapshotFiles snap, SameEntry store next (.blob file.1))
    (htrees : ∀ tree ∈ snapshotTrees snap trackedRoot,
      Retains codec store roots kept (.tree tree))
    (hlinks : ∀ link ∈ stateSymlinks (snapshotStates snap),
      Retains codec store roots kept (.symlink link))
    (h : validateRetainedSnapshotDependencies codec store snap budget = .ok left) :
    validateRetainedSnapshotDependencies codec next snap budget = .ok left := by
  simp only [validateRetainedSnapshotDependencies, loadCanonicalStateObjectsWithBudget,
    bind_ok, exists_unit, pure_ok, forM_ok, Prod.exists] at h ⊢
  obtain ⟨hverified, objects, spent, hload, rfl⟩ := h
  refine ⟨?_, objects, spent, loadCanonicalRoots_kept hkeeps ?_ hlinks hload, rfl⟩
  · intro file hfile
    have hsame := hverified file hfile
    unfold verifySnapshotFile at hsame ⊢
    rwa [verifyBlob_same (hfiles file hfile)]
  · intro root hroot
    exact htrees root (mem_append_left _ hroot)

theorem loadPrepared_kept (hretains : Retains codec store roots kept (.plan planId)) :
    loadPrepared codec next planId = loadPrepared codec store planId :=
  loadPrepared_congr (hkeeps _ hretains)

theorem loadGeneration_kept (hretains : Retains codec store roots kept (.generation digest)) :
    loadGeneration codec next digest = loadGeneration codec store digest :=
  loadGeneration_congr (hkeeps _ hretains)

theorem validateRetainedPreparedDependencies_kept
    (hretains : Retains codec store roots kept (.plan planId))
    (hfiles : ∀ record, loadPrepared codec store planId = .ok record →
      ∀ file ∈ snapshotFiles record.desiredSnapshot, SameEntry store next (.blob file.1))
    (h : validateRetainedPreparedDependencies codec store planId budget = .ok left) :
    validateRetainedPreparedDependencies codec next planId budget = .ok left := by
  simp only [validateRetainedPreparedDependencies, validatePreparedDependencies, bind_ok,
    exists_unit, forM_ok] at h ⊢
  obtain ⟨record, hload, arts, hartifacts, spent, hsnap, hpacks, htracked⟩ := h
  refine ⟨record, (loadPrepared_kept hkeeps hretains).trans hload, arts, ?_, spent,
    validateRetainedSnapshotDependencies_kept hkeeps (hfiles record hload)
      (fun tree htree => .planTree hretains hload htree)
      (fun link hlink => .planSymlink hretains hload hlink) hsnap, ?_,
    validateTrackedRootTree_kept hkeeps ?_ htracked⟩
  · rw [loadAllArtifacts_same, hartifacts]
    intro art hartifact
    exact hkeeps _ (.planArtifact hretains hload hartifact)
  · intro digest hdigest
    have hpack : Retains codec store roots kept (.pack digest) := .planPack hretains hload hdigest
    rw [verifyPackObject_same (hkeeps _ hpack) (hkeeps _ (.manifest hpack))]
    exact hpacks digest hdigest
  · intro tracked htracked
    refine .planTree hretains hload (mem_append_right _ ?_)
    simp [htracked]

section

variable (hretains : Retains codec store roots kept (.generation digest))

include hretains

theorem validateRetainedGenerationDependencies_kept
    (hload : loadGeneration codec store digest = .ok gen)
    (hsource : ∀ record, loadPrepared codec store gen.planId = .ok record →
      record.desiredSnapshot = gen.desiredSnapshot)
    (h : validateRetainedGenerationDependencies codec store gen budget = .ok left) :
    validateRetainedGenerationDependencies codec next gen budget = .ok left := by
  simp only [validateRetainedGenerationDependencies, bind_ok] at h ⊢
  obtain ⟨first, hprep, snd, hsnap, htracked⟩ := h
  have hfiles : ∀ file ∈ snapshotFiles gen.desiredSnapshot,
      SameEntry store next (.blob file.1) :=
    fun file hfile => hkeeps _ (.generationFile hretains hload hfile)
  refine ⟨first, validateRetainedPreparedDependencies_kept hkeeps (.source hretains hload) ?_
      hprep, snd, validateRetainedSnapshotDependencies_kept hkeeps hfiles
      (fun tree htree => .generationTree hretains hload htree)
      (fun link hlink => .generationSymlink hretains hload hlink) hsnap,
    validateTrackedRootTree_kept hkeeps ?_ htracked⟩
  · intro record hrecord file hfile
    exact hfiles file (hsource record hrecord ▸ hfile)
  · intro tracked htracked
    refine .generationTree hretains hload (mem_append_right _ ?_)
    simp [htracked]

theorem validateDirectlyRetainedGeneration_kept {bytes spent : Nat}
    (h : validateDirectlyRetainedGeneration codec store digest bytes = .ok (gen, spent)) :
    validateDirectlyRetainedGeneration codec next digest bytes = .ok (gen, spent) ∧
      loadGeneration codec store digest = .ok gen := by
  simp only [validateDirectlyRetainedGeneration, validateRetainedGenerationTransitionWithBudget,
    bind_ok, pure_ok, Prod.exists, loadGenerationWithEncodedLen_iff,
    asGenerationValidation, mapError_ok, loadPreparedWithEncodedLen_iff] at h ⊢
  obtain ⟨loaded, length, ⟨hload, rfl⟩, charged, hcharge, total,
    ⟨record, planLength, ⟨hrecord, rfl⟩, hrest⟩, hpair⟩ := h
  obtain ⟨rfl, rfl⟩ := Prod.mk.injEq .. ▸ hpair
  refine ⟨⟨loaded, _, ⟨(loadGeneration_kept hkeeps hretains).trans hload, rfl⟩, charged, hcharge,
    total, ⟨record, _, ⟨?_, rfl⟩, hrest⟩, rfl⟩, hload⟩
  exact (loadPrepared_kept hkeeps (.source hretains hload)).trans hrecord

end

variable (hsources : ∀ digest gen, loadGeneration codec store digest = .ok gen →
  ∀ record, loadPrepared codec store gen.planId = .ok record →
    record.desiredSnapshot = gen.desiredSnapshot)

include hsources

theorem validateAuthorityPoint_kept {point : RestorePoint}
    (hroot : roots (.generation point.generation 1))
    (h : validateAuthorityPoint codec store budgets point = .ok after) :
    validateAuthorityPoint codec next budgets point = .ok after := by
  have hretains : Retains codec store roots kept (.generation point.generation) :=
    .lineage hroot mem_cons_self
  simp only [validateAuthorityPoint, bind_ok, exists_unit, pure_ok, Prod.exists] at h ⊢
  obtain ⟨gen, bytes, hdirect, hpoint, left, hdeps, rfl⟩ := h
  obtain ⟨hnext, hload⟩ := validateDirectlyRetainedGeneration_kept hkeeps hretains hdirect
  exact ⟨gen, bytes, hnext, hpoint, left,
    validateRetainedGenerationDependencies_kept hkeeps hretains hload
      (hsources _ _ hload) hdeps, rfl⟩

theorem validateAuthorityPin_kept {ns : NamespaceName} {pin : RetentionObject}
    (hroot : roots (pinRoot pin)) (hfiles : ∀ planId, pin = .preparedPlan planId →
      ∀ record, loadPrepared codec store planId = .ok record →
        ∀ file ∈ snapshotFiles record.desiredSnapshot, SameEntry store next (.blob file.1))
    (h : validateAuthorityPin codec store ns budgets pin = .ok after) :
    validateAuthorityPin codec next ns budgets pin = .ok after := by
  cases pin with
  | preparedPlan planId =>
    simp only [validateAuthorityPin, validateRetentionPin, bind_ok, pure_ok] at h ⊢
    obtain ⟨left, hplan, rfl⟩ := h
    exact ⟨left, validateRetainedPreparedDependencies_kept hkeeps (.pinnedPlan hroot)
      (hfiles planId rfl) hplan, rfl⟩
  | stateGeneration digest =>
    have hretains : Retains codec store roots kept (.generation digest) :=
      .lineage hroot mem_cons_self
    simp only [validateAuthorityPin, bind_ok, exists_unit, pure_ok, Prod.exists] at h ⊢
    obtain ⟨gen, bytes, hdirect, hname, left, hdeps, rfl⟩ := h
    obtain ⟨hnext, hload⟩ := validateDirectlyRetainedGeneration_kept hkeeps hretains hdirect
    exact ⟨gen, bytes, hnext, hname, left,
      validateRetainedGenerationDependencies_kept hkeeps hretains hload
        (hsources _ _ hload) hdeps, rfl⟩
  | artifactBlob digest =>
    simp only [validateAuthorityPin, validateRetentionPin] at h ⊢
    rwa [verifyBlob_same (hkeeps _ (.pinnedBlob hroot))]
  | packObject digest =>
    have hpack : Retains codec store roots kept (.pack digest) := .pinnedPack hroot
    simp only [validateAuthorityPin, validateRetentionPin] at h ⊢
    rwa [verifyPackObject_same (hkeeps _ hpack) (hkeeps _ (.manifest hpack))]
  | canonicalFile digest =>
    simp only [validateAuthorityPin, validateRetentionPin, loadFileObject] at h ⊢
    rwa [show next.files.get? digest = store.files.get? digest from
      hkeeps _ (.pinnedFile hroot)]
  | canonicalSymlink digest =>
    simp only [validateAuthorityPin, validateRetentionPin, bind_ok, pure_ok, Prod.exists] at h ⊢
    obtain ⟨left, ⟨objects, spent, hload, rfl⟩, rfl⟩ := h
    refine ⟨spent, ⟨objects, spent, loadCanonicalRoots_kept hkeeps (fun _ h => by cases h) ?_
      hload, rfl⟩, rfl⟩
    intro link hlink
    rw [mem_singleton.1 hlink]
    exact .pinnedSymlink hroot
  | canonicalTree digest =>
    simp only [validateAuthorityPin, validateRetentionPin, bind_ok, pure_ok, Prod.exists] at h ⊢
    obtain ⟨left, ⟨objects, spent, hload, rfl⟩, rfl⟩ := h
    refine ⟨spent, ⟨objects, spent, loadCanonicalRoots_kept hkeeps ?_ (fun _ h => by cases h)
      hload, rfl⟩, rfl⟩
    intro tree htree
    rw [mem_singleton.1 htree]
    exact .pinnedTree hroot

theorem validateHeadAuthority_kept
    (hload : loadGeneration codec store head.generation = .ok gen)
    (hhead : roots (.generation head.generation gen.retention.history))
    (hroots : ∀ root ∈ recordRoots gen.restorePoint gen.retention, roots root)
    (hfiles : ∀ planId, .preparedPlan planId ∈ gen.retention.explicitPins →
      ∀ record, loadPrepared codec store planId = .ok record →
        ∀ file ∈ snapshotFiles record.desiredSnapshot, SameEntry store next (.blob file.1))
    (h : validateHeadAuthority codec store none budgets head = .ok after) :
    validateHeadAuthority codec next none budgets head = .ok after := by
  simp only [validateHeadAuthority, headGeneration, selectedCandidate, Option.filter_none,
    bind_ok, exists_unit] at h ⊢
  obtain ⟨loaded, hloaded, hname, mid, hpoints, hpins⟩ := h
  obtain rfl : gen = loaded := ok.inj (hload.symm.trans hloaded)
  have hretains : Retains codec store roots kept (.generation head.generation) :=
    .head hload hhead
  refine ⟨gen, (loadGeneration_kept hkeeps hretains).trans hload, hname, mid, ?_, ?_⟩
  · refine foldlM_ok_imp (fun point hpoint _ _ hstep => ?_) hpoints
    refine validateAuthorityPoint_kept hkeeps hsources (hroots _ ?_) hstep
    exact mem_append_left _ (mem_map_of_mem (mem_append_right _ hpoint))
  · refine foldlM_ok_imp (fun pin hpin _ _ hstep => ?_) hpins
    refine validateAuthorityPin_kept hkeeps hsources (hroots _ ?_) ?_ hstep
    · exact mem_append_right _ (mem_map_of_mem hpin)
    · rintro planId rfl
      exact hfiles planId hpin

end Keeps

/-! ## 2. Prunes and admission -/

/-- The target files of the pinned plans are retained: a complete snapshot can hold files whose
artifacts belong to earlier plans. -/
def PinnedFilesRetained (codec : ObjectCodec) (state : StoreState) (request : PruneRequest) :
    Prop :=
  ∀ head ∈ state.catalog.heads, ∀ gen,
    loadGeneration codec state.objects head.generation = .ok gen →
    ∀ planId, .preparedPlan planId ∈ gen.retention.explicitPins →
    ∀ record, loadPrepared codec state.objects planId = .ok record →
    ∀ file ∈ snapshotFiles record.desiredSnapshot,
      Retains codec state.objects (PruneRoot codec state request)
        (Unswept codec state.objects request) (.blob file.1)

theorem headLoads_of_valid (h : validateHeadAuthority codec store none budgets head = .ok after) :
    ∃ gen, loadGeneration codec store head.generation = .ok gen := by
  simp only [validateHeadAuthority, headGeneration, selectedCandidate, Option.filter_none,
    bind_ok] at h
  obtain ⟨gen, hload, -⟩ := h
  exact ⟨gen, hload⟩

/-- In a store that a prune can load, a plan has the snapshot of its
generation. -/
theorem LoadedFrom.snapshot {loaded : LoadedStore} (h : LoadedFrom codec store loaded)
    (hload : loadGeneration codec store digest = .ok gen)
    (hrecord : loadPrepared codec store gen.planId = .ok record) :
    record.desiredSnapshot = gen.desiredSnapshot := by
  obtain ⟨known, hknown, hsame⟩ := h.sources digest gen hload
  obtain rfl : known = record := ok.inj (hknown.symm.trans hrecord)
  rw [hsame]
  rfl

theorem pinnedFiles_stored (h : validateHeadAuthority codec store none budgets head = .ok after)
    (hload : loadGeneration codec store head.generation = .ok gen)
    (hpin : .preparedPlan planId ∈ gen.retention.explicitPins)
    (hrecord : loadPrepared codec store planId = .ok record) :
    ∀ file ∈ snapshotFiles record.desiredSnapshot, file.1 ∈ store.blobs.keys := by
  simp only [validateHeadAuthority, headGeneration, selectedCandidate, Option.filter_none,
    bind_ok, exists_unit] at h
  obtain ⟨loaded, hloaded, -, mid, -, hpins⟩ := h
  obtain rfl : gen = loaded := ok.inj (hload.symm.trans hloaded)
  obtain ⟨before, later, hstep⟩ := foldlM_ok_of_mem hpins hpin
  simp only [validateAuthorityPin, validateRetentionPin, validateRetainedPreparedDependencies,
    validatePreparedDependencies, validateRetainedSnapshotDependencies, bind_ok,
    exists_unit, forM_ok] at hstep
  obtain ⟨-, ⟨known, hknown, -, -, -, ⟨hfiles, -⟩, -⟩, -⟩ := hstep
  obtain rfl : known = record := ok.inj (hknown.symm.trans hrecord)
  intro file hfile
  have hverified := hfiles file hfile
  simp only [verifySnapshotFile, verifyBlob, bind_ok, require_ok] at hverified
  obtain ⟨-, ⟨stored, hstored, -⟩, -⟩ := hverified
  exact SortedMap.mem_keys.2 ⟨stored, hstored⟩

/-- **Prune and admission.** After a prune an admissible catalog is admissible exactly when the
target files of the pinned plans were retained. -/
theorem prune_admissible_iff {state next : StoreState} {request : PruneRequest}
    {budget left : CanonicalLoadBudget}
    (hvalid : validateCatalogRetentionAuthorities codec state.objects state.catalog none budget =
      .ok left) (hprune : pruneStore codec machine state request = .ok next) :
    (∃ left', validateCatalogRetentionAuthorities codec next.objects next.catalog none budget =
      .ok left') ↔ PinnedFilesRetained codec state request := by
  have hkeeps : KeepsRetained codec state.objects next.objects (PruneRoot codec state request)
      (Unswept codec state.objects request) := by
    obtain ⟨plan, hplan, rfl⟩ := pruneStore_ok hprune
    exact fun entry hretains => unlinkAll_same (planPrune_keeps hplan hretains)
  obtain ⟨plan, hplan, rfl⟩ := pruneStore_ok hprune
  obtain ⟨⟨loaded, hloaded, -⟩, -⟩ := planPrune_ok hplan
  simp only [validateCatalogRetentionAuthorities, bind_ok, pure_ok, Prod.exists] at hvalid ⊢
  obtain ⟨bytes, spent, hheads, rfl⟩ := hvalid
  have hheadRoot : ∀ head ∈ state.catalog.heads, ∀ gen,
      loadGeneration codec state.objects head.generation = .ok gen → ∀ root,
      (root = .generation head.generation gen.retention.history ∨
        root ∈ recordRoots gen.restorePoint gen.retention) →
      PruneRoot codec state request root :=
    fun head hhead gen hload root hroot => .inl ⟨head, hhead, gen, hload, hroot⟩
  constructor
  · rintro ⟨left', bytes', spent', hnext, -⟩ head hhead gen hload planId hpin record hrecord
      file hfile
    obtain ⟨before, after, hstep⟩ := foldlM_ok_of_mem hnext hhead
    have hplanRoot := hheadRoot head hhead gen hload _ (.inr
      (mem_append_right _ (mem_map_of_mem hpin)))
    -- The head and the plan are retained, so the pruned store loads both.
    have hstored := pinnedFiles_stored hstep
      ((loadGeneration_kept hkeeps (.head hload
        (hheadRoot head hhead gen hload _ (.inl rfl)))).trans hload) hpin
      ((loadPrepared_kept hkeeps (.pinnedPlan hplanRoot)).trans hrecord) file hfile
    obtain ⟨start, finish, hbefore⟩ := foldlM_ok_of_mem hheads hhead
    have hblob := pinnedFiles_stored hbefore hload hpin hrecord file hfile
    by_contra hunretained
    have hlacks : (state.objects.unlinkAll (removals state.objects plan)).Lacks (.blob file.1) :=
      unlinkAll_lacks (.inr (planPrune_removes_blob hplan hblob hunretained))
    obtain ⟨found, hfound⟩ := SortedMap.mem_keys.1 hstored
    rw [ObjectStore.Lacks, hfound] at hlacks
    cases hlacks
  · intro hfiles
    refine ⟨spent, bytes, spent, foldlM_ok_imp (fun head hhead _ _ hstep => ?_) hheads, rfl⟩
    obtain ⟨gen, hload⟩ := headLoads_of_valid hstep
    refine validateHeadAuthority_kept hkeeps
      (fun digest gen hload record hrecord => hloaded.snapshot hload hrecord) hload
      (hheadRoot head hhead gen hload _ (.inl rfl))
      (fun root hroot => hheadRoot head hhead gen hload root (.inr hroot)) ?_ hstep
    intro planId hpin record hrecord file hfile
    exact hkeeps _ (hfiles head hhead gen hload planId hpin record hrecord file hfile)

/-! ## 3. A pinned plan that carries a file -/

/-- A plan that leaves a file as it is: in its snapshot, and no artifact of its own. -/
def carryPlan : PreparedRecord :=
  { samplePlan ['w'] 2 with
    expectedHead := some ⟨150⟩
    desiredSnapshot := ⟨[⟨['d'], ['f'], .file (some ⟨⟨5⟩, 3, 0o600#32⟩)⟩]⟩
    desiredSnapshotDigest := ⟨1⟩ }

/-- A plan that gives up the file and holds some pins. -/
def pinPlan (pins : List RetentionObject) : PreparedRecord :=
  { samplePlan ['w'] 1 with
    expectedHead := some ⟨150⟩
    retention := ⟨1, [], pins⟩
    desiredSnapshot := ⟨[⟨['d'], ['f'], .file none⟩]⟩
    desiredSnapshotDigest := ⟨1⟩ }

/-- The generation of `pinPlan` is selected, its predecessor is gone. -/
def pinState (pins : List RetentionObject) : StoreState where
  objects := { sampleObjects [pinPlan pins, carryPlan] with
    generations := SortedMap.empty.insert ⟨101⟩
      (publishedFile (.canonical (generationOf ⟨1⟩ (some ⟨150⟩) (pinPlan pins)))) }
  catalog := sampleCatalog

def pruneSample (pins : List RetentionObject) (test : StoreState → Bool) : Bool :=
  okAnd (validateCatalogRetentionAuthorities sampleCodec (pinState pins).objects
      (pinState pins).catalog none .default) fun _ =>
    okAnd (pruneStore sampleCodec sampleMachine (pinState pins) .sweep) test

/-- With the blob pinned as well, the catalog stays admissible. -/
theorem prune_admissible_iff_sample :
    ∃ left next left', validateCatalogRetentionAuthorities sampleCodec
        (pinState [.preparedPlan ⟨2⟩, .artifactBlob ⟨5⟩]).objects
        (pinState [.preparedPlan ⟨2⟩, .artifactBlob ⟨5⟩]).catalog none .default = .ok left ∧
      pruneStore sampleCodec sampleMachine (pinState [.preparedPlan ⟨2⟩, .artifactBlob ⟨5⟩])
        .sweep = .ok next ∧
      validateCatalogRetentionAuthorities sampleCodec next.objects next.catalog none .default =
        .ok left' := by
  have hcheck : pruneSample [.preparedPlan ⟨2⟩, .artifactBlob ⟨5⟩] (fun _ => true) = true := by
    decide +kernel
  obtain ⟨left, hvalid, hrest⟩ := okAnd_iff.1 hcheck
  obtain ⟨next, hprune, -⟩ := okAnd_iff.1 hrest
  have hhead : loadGeneration sampleCodec
      (pinState [.preparedPlan ⟨2⟩, .artifactBlob ⟨5⟩]).objects ⟨101⟩ =
        .ok (generationOf ⟨1⟩ (some ⟨150⟩) (pinPlan [.preparedPlan ⟨2⟩, .artifactBlob ⟨5⟩])) := by
    decide +kernel
  have hroot : PruneRoot sampleCodec (pinState [.preparedPlan ⟨2⟩, .artifactBlob ⟨5⟩]) .sweep
      (.blob ⟨5⟩) :=
    .inl ⟨⟨['w'], ⟨101⟩⟩, mem_singleton_self _, _, hhead, .inr (by decide)⟩
  have hplan : loadPrepared sampleCodec
      (pinState [.preparedPlan ⟨2⟩, .artifactBlob ⟨5⟩]).objects ⟨2⟩ = .ok carryPlan := by
    decide +kernel
  obtain ⟨left', hnext⟩ := (prune_admissible_iff hvalid hprune).2 (by
    intro head hmem gen hload planId hpin record hrecord file hfile
    obtain rfl := mem_singleton.1 hmem
    obtain rfl := ok.inj (hhead.symm.trans hload)
    have hpin' : planId = ⟨2⟩ := by simpa [generationOf, pinPlan] using hpin
    subst hpin'
    obtain rfl := ok.inj (hplan.symm.trans hrecord)
    obtain rfl := mem_singleton.1 (show file ∈ [(⟨5⟩, 3)] from hfile)
    exact .pinnedBlob hroot)
  exact ⟨left, next, left', hvalid, hprune, hnext⟩

/-- **A prune after which nothing can be committed**: the pinned plan's file is swept. -/
theorem prune_breaks_admission :
    ∃ (codec : ObjectCodec) (machine : Machine) (state next : StoreState)
      (request : PruneRequest) (left : CanonicalLoadBudget),
      validateCatalogRetentionAuthorities codec state.objects state.catalog none .default =
        .ok left ∧
      pruneStore codec machine state request = .ok next ∧
      ∀ left', validateCatalogRetentionAuthorities codec next.objects next.catalog none
        .default ≠ .ok left' := by
  have hcheck : pruneSample [.preparedPlan ⟨2⟩] (fun next =>
      !okAnd (validateCatalogRetentionAuthorities sampleCodec next.objects next.catalog none
        .default) fun _ => true) = true := by
    decide +kernel
  obtain ⟨left, hvalid, hrest⟩ := okAnd_iff.1 hcheck
  obtain ⟨next, hprune, hfails⟩ := okAnd_iff.1 hrest
  refine ⟨sampleCodec, sampleMachine, _, next, .sweep, left, hvalid, hprune, ?_⟩
  intro left' hnext
  rw [hnext] at hfails
  cases hfails

end Malm.Commit
