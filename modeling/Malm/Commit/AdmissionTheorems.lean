/-
Malm.Commit.AdmissionTheorems — what an accepted commit has checked, and
exclusive ownership over whole runs.

Every commit builds the ownership projection of the selected generations before and
after it. Both are exclusive (`fromSelectedGenerations_exclusive`), so exclusivity is
an invariant of runs (`Reachable.exclusive`).
-/
import Malm.Commit.Publication
import Malm.Store.OwnershipTheorems

namespace Malm.Commit

open Store Checks List Option Except ObjectStore StateCatalog

variable {codec : ObjectCodec} {machine : Machine}

/-! ## 1. Loaded records -/

theorem readImmutable_ok {α : Type} {sizeOf : α → Nat} {limit : Nat}
    {file : Option (StoreFile α)} {bytes : α}
    (h : readImmutable sizeOf limit file = .ok (some bytes)) :
    file = some ⟨true, true, true, bytes⟩ ∧ sizeOf bytes ≤ limit := by
  unfold readImmutable at h
  split at h
  · simp at h
  · rename_i found
    split at h
    · cases h
    · rename_i hshape
      simp only [ok.injEq, some.injEq] at h
      simp only [Bool.or_eq_true, Bool.not_eq_true', decide_eq_true_eq, not_or,
        Bool.not_eq_false, not_lt] at hshape
      obtain ⟨⟨⟨hregular, howned⟩, himmutable⟩, hsize⟩ := hshape
      subst h
      refine ⟨?_, hsize⟩
      cases found
      simp_all

/-- The stored record, under its own digest, which passes its checks. -/
structure LoadedGeneration (codec : ObjectCodec) (store : ObjectStore) (digest : Digest)
    (generation : StateGeneration) : Prop where
  record : store.record digest = some generation
  digest : codec.generationDigest generation = digest
  valid : validateStateGeneration codec.toCodec generation = .ok ()

variable {store : ObjectStore} {digest : Digest} {gen : StateGeneration}
  {catalog : StateCatalog} {ownership : CatalogOwnership} {planId : PreparedId}
  {prepared : PreparedRecord} {tr : OwnedTransition} {ns : NamespaceName}
  {budget : CanonicalLoadBudget} {state next : StoreState} {entry : NamespaceName × StateGeneration}

theorem loadGenerationWithEncodedLen_ok {bytes : Nat}
    (h : loadGenerationWithEncodedLen codec store digest = .ok (gen, bytes)) :
    LoadedGeneration codec store digest gen ∧
      bytes = codec.generationBytes gen := by
  unfold loadGenerationWithEncodedLen at h
  simp only [bind_ok, require_ok, pure_ok, asInvalidStore, mapError_ok] at h
  obtain ⟨found, hread, content, rfl, loaded, hdecode, hpair⟩ := h
  obtain ⟨rfl, rfl⟩ := Prod.mk.injEq .. ▸ hpair
  obtain ⟨hfile, -⟩ := readImmutable_ok hread
  cases content with
  | other bytes => simp [decodeStateGeneration] at hdecode
  | canonical stored =>
    simp only [decodeStateGeneration, bind_unit_ok, reject_ok, pure_ok, not_not] at hdecode
    obtain ⟨hdigest, hvalid, rfl⟩ := hdecode
    refine ⟨⟨?_, hdigest, hvalid⟩, rfl⟩
    simp [record, hfile]

theorem loadGeneration_ok (h : loadGeneration codec store digest = .ok gen) :
    LoadedGeneration codec store digest gen := by
  unfold loadGeneration at h
  rw [bind_ok] at h
  obtain ⟨⟨loaded, bytes⟩, hload, hpure⟩ := h
  rw [pure_ok] at hpure
  subst hpure
  exact (loadGenerationWithEncodedLen_ok hload).1

/-- The selected generations that were loaded from a store. -/
def Selected (codec : ObjectCodec) (store : ObjectStore) (head : NamespaceHead)
    (entry : NamespaceName × StateGeneration) : Prop :=
  entry.1 = head.namespaceName ∧ entry.2.namespaceName = head.namespaceName ∧
    LoadedGeneration codec store head.generation entry.2

theorem loadSelected_foldlM_ok :
    ∀ {heads : List NamespaceHead} {state r : List (NamespaceName × StateGeneration) × Nat × Nat},
      heads.foldlM (loadSelected codec store) state = .ok r →
        ∃ es, List.Forall₂ (Selected codec store) heads es ∧
          r.1 = state.1 ++ es
  | [], state, r, h => by
    rw [foldlM_nil, pure_ok] at h
    exact ⟨[], .nil, by rw [h, append_nil]⟩
  | head :: heads, state, r, h => by
    rw [foldlM_cons, bind_ok] at h
    obtain ⟨mid, hhead, hrest⟩ := h
    obtain ⟨es, hentries, hres⟩ := loadSelected_foldlM_ok hrest
    unfold loadSelected at hhead
    simp only [bind_ok, exists_unit, reject_ok, pure_ok, not_not] at hhead
    obtain ⟨⟨gen, bytes⟩, hload, decodedBytes, -, -, hnamespace, rfl⟩ := hhead
    refine ⟨(head.namespaceName, gen) :: es,
      .cons ⟨rfl, hnamespace, (loadGenerationWithEncodedLen_ok hload).1⟩ hentries, ?_⟩
    rw [hres, append_assoc, singleton_append]

theorem loadSelectedGenerations_ok {selected : List (NamespaceName × StateGeneration)}
    (h : loadSelectedGenerations codec store catalog = .ok selected) :
    List.Forall₂ (Selected codec store) catalog.heads selected := by
  unfold loadSelectedGenerations at h
  rw [bind_ok] at h
  obtain ⟨⟨loaded, bytes⟩, hload, hpure⟩ := h
  rw [pure_ok] at hpure
  subst hpure
  obtain ⟨es, hentries, hres⟩ := loadSelected_foldlM_ok hload
  simp only [nil_append] at hres
  exact hres ▸ hentries

section

variable {heads : List NamespaceHead} {selected : List (NamespaceName × StateGeneration)}
  (h : List.Forall₂ (Selected codec store) heads selected)
include h

theorem selected_eq_of_forall₂ :
    heads.filterMap (fun head => (store.record head.generation).map
      fun gen => (head.namespaceName, gen)) = selected := by
  induction h with
  | nil => rfl
  | cons hfirst _ ih =>
    obtain ⟨hname, -, hloaded⟩ := hfirst
    rw [filterMap_cons, hloaded.record, map_some, ih, ← hname]

theorem Selected.of_mem :
    ∀ head ∈ heads, ∃ gen, (head.namespaceName, gen) ∈ selected ∧
      gen.namespaceName = head.namespaceName ∧
      LoadedGeneration codec store head.generation gen := by
  induction h with
  | nil =>
    intro head hmem
    simp at hmem
  | @cons first entry _ _ hfirst _ ih =>
    intro head hmem
    obtain ⟨hname, hnamespace, hloaded⟩ := hfirst
    rcases mem_cons.1 hmem with rfl | hmem
    · exact ⟨entry.2, hname ▸ mem_cons_self, hnamespace, hloaded⟩
    · obtain ⟨found, hfound, hrec⟩ := ih head hmem
      exact ⟨found, mem_cons_of_mem _ hfound, hrec⟩

end

/-! ## 2. What admission checks -/

theorem loadCatalogOwnership_ok
    (h : loadCatalogOwnership codec machine store catalog = .ok ownership) :
    List.Forall₂ (Selected codec store) catalog.heads ownership.selected ∧
      fromSelectedGenerations ownership.selected = .ok ownership.projection := by
  unfold loadCatalogOwnership at h
  simp only [bind_ok, exists_unit, pure_ok, asProjectionStore, mapError_ok] at h
  obtain ⟨selected, hsel, projection, hprojection, -, rfl⟩ := h
  exact ⟨loadSelectedGenerations_ok hsel, hprojection⟩

/-- What `derive_owned_transition` has checked when it accepts. -/
structure Admitted (codec : ObjectCodec) (machine : Machine) (store : ObjectStore)
    (catalog : StateCatalog) (planId : PreparedId) (prepared : PreparedRecord)
    (transition : OwnedTransition) (ownership : CatalogOwnership)
    (budget : CanonicalLoadBudget) : Prop where
  head : catalog.generation prepared.namespaceName = prepared.expectedHead
  loaded : loadCatalogOwnership codec machine store catalog = .ok ownership
  operations : ∀ operation ∈ prepared.operations,
    admitOperation ownership.projection prepared.namespaceName prepared.operations operation =
      .ok ()
  lifecycle : validatePreparedTransition codec.toCodec
    ((ownership.selected.find? (·.1 = prepared.namespaceName)).map Prod.snd) prepared = .ok ()
  references : validateTransitionReferences codec store
    ((ownership.selected.find? (·.1 = prepared.namespaceName)).map Prod.snd) prepared .default =
      .ok budget
  derived : if prepared.transition.isNamespaceRemoval then
      deriveRemoval codec machine store catalog prepared.namespaceName ownership.selected budget =
        .ok transition
    else
      deriveGeneration codec machine store catalog planId prepared ownership.selected
        ((ownership.selected.find? (·.1 = prepared.namespaceName)).map Prod.snd) budget =
        .ok transition

theorem deriveOwnedTransition_ok
    (h : deriveOwnedTransition codec machine store catalog planId prepared = .ok tr) :
    ∃ ownership budget,
      Admitted codec machine store catalog planId prepared tr ownership budget := by
  unfold deriveOwnedTransition at h
  simp only [bind_ok, exists_unit, reject_ok, not_not, forM_ok, asInvalidPlan, mapError_ok] at h
  obtain ⟨hhead, ownership, hloaded, hops, hlifecycle, budget, hrefs, hder⟩ := h
  refine ⟨ownership, budget, hhead, hloaded, hops, hlifecycle, hrefs, ?_⟩
  split
  · rename_i hrem
    rwa [if_pos hrem] at hder
  · rename_i hrem
    rwa [if_neg hrem] at hder

theorem deriveRemoval_ok {selected : List (NamespaceName × StateGeneration)}
    (h : deriveRemoval codec machine store catalog ns selected budget =
      .ok tr) :
    tr = ⟨ns, catalog.generation ns, none, none,
        (catalog.removeHead ns).1⟩ ∧
      Exclusive (presentClaims (selected.filter fun entry => entry.1 ≠ ns)) ∧
      ∃ left, validateCatalogRetentionAuthorities codec store
        (catalog.removeHead ns).1 none budget = .ok left := by
  unfold deriveRemoval at h
  simp only [bind_ok, exists_unit, pure_ok, asCandidateOwnership,
    asCandidateCatalog, mapError_ok] at h
  obtain ⟨projection, hprojection, -, -, -, left, hret, rfl⟩ := h
  exact ⟨rfl, fromSelectedGenerations_exclusive hprojection, left, hret⟩

/-- The candidate of an accepted plan. -/
structure Derived (codec : ObjectCodec) (store : ObjectStore) (catalog : StateCatalog)
    (planId : PreparedId) (prepared : PreparedRecord)
    (selected : List (NamespaceName × StateGeneration)) (previous : Option StateGeneration)
    (budget : CanonicalLoadBudget) (generation : StateGeneration) (nextCatalog : StateCatalog) :
    Prop where
  built : fromPrepared codec.toCodec planId (catalog.generation prepared.namespaceName) previous
    prepared = .ok generation
  exclusive :
    Exclusive (presentClaims (selectGeneration prepared.namespaceName generation selected))
  catalog : catalog.updateHead codec.toCodec prepared.namespaceName
    (codec.generationDigest generation) = .ok nextCatalog
  lineages : validateCatalogLineages codec store
    (some ⟨codec.generationDigest generation, generation, prepared,
      codec.generationBytes generation⟩) .routine nextCatalog = .ok ()
  retention : ∃ left, validateCatalogRetentionAuthorities codec store nextCatalog
    (some ⟨codec.generationDigest generation, generation, prepared,
      codec.generationBytes generation⟩) budget = .ok left

theorem deriveGeneration_ok {selected : List (NamespaceName × StateGeneration)}
    {prev : Option StateGeneration}
    (h : deriveGeneration codec machine store catalog planId prepared selected prev budget =
      .ok tr) :
    ∃ gen nextCatalog,
      tr = ⟨prepared.namespaceName, catalog.generation prepared.namespaceName,
        some gen, some (codec.generationDigest gen), nextCatalog⟩ ∧
      Derived codec store catalog planId prepared selected prev budget gen
        nextCatalog := by
  unfold deriveGeneration at h
  simp only [bind_ok, exists_unit, pure_ok, asCandidateOwnership,
    asInvalidPlan, asCatalogPlan, asCandidateCatalog, mapError_ok] at h
  obtain ⟨gen, hbuilt, projection, hprojection, -, nextCatalog, hcatalog, hlineages, left,
    hret, rfl⟩ := h
  exact ⟨gen, nextCatalog, rfl, hbuilt, fromSelectedGenerations_exclusive hprojection,
    hcatalog, hlineages, left, hret⟩

theorem admitCommit_ok {req : CommitRequest}
    (h : admitCommit codec machine state req = .ok (prepared, tr)) :
    loadPrepared codec state.objects req.planId = .ok prepared ∧
      ∃ ownership budget, Admitted codec machine state.objects state.catalog req.planId
        prepared tr ownership budget := by
  unfold admitCommit readCatalog at h
  simp only [bind_ok, exists_unit, pure_ok] at h
  obtain ⟨-, loaded, hloaded, -, -, catalog, ⟨-, rfl⟩, derived, hder, hpair⟩ := h
  obtain ⟨rfl, rfl⟩ := Prod.mk.injEq .. ▸ hpair
  exact ⟨hloaded, deriveOwnedTransition_ok hder⟩

/-! ## 3. Publication -/

theorem publishImmutable_file {objects next : ObjectStore}
    (h : publishImmutable codec objects digest gen = .ok next) :
    next.generations.get? digest = some ⟨true, true, true, .canonical gen⟩ ∧
      next.prepared = objects.prepared ∧
      (∀ other file, objects.generations.get? other = some file →
        next.generations.get? other = some file) ∧
      ∀ other, other ≠ digest → next.generations.get? other = objects.generations.get? other := by
  unfold publishImmutable at h
  rw [bind_ok] at h
  obtain ⟨found, hread, h⟩ := h
  cases found with
  | some existing =>
    dsimp only at h
    split at h
    · rename_i hsame
      rw [pure_ok] at h
      subst h
      obtain ⟨hfile, -⟩ := readImmutable_ok hread
      exact ⟨by rw [hfile, hsame], rfl, fun _ _ hother => hother, fun _ _ => rfl⟩
    · cases h
  | none =>
    dsimp only at h
    rw [pure_ok] at h
    subst h
    have habsent : objects.generations.get? digest = none := by
      unfold readImmutable at hread
      split at hread
      · assumption
      · split at hread <;> simp at hread
    refine ⟨by simp, rfl, fun _ _ => SortedMap.get?_insert_of_none habsent, ?_⟩
    intro other hother
    simp [hother]

theorem publishImmutable_ok {objects next : ObjectStore}
    (h : publishImmutable codec objects digest gen = .ok next) :
    next.record digest = some gen ∧
      ∀ other file, objects.generations.get? other = some file →
        next.generations.get? other = some file := by
  obtain ⟨hfile, -, hkept, -⟩ := publishImmutable_file h
  exact ⟨by simp [record, hfile], hkept⟩

/-- **The effect of a commit.** The head of the namespace leaves the catalog, or its generation is
stored and selected. -/
theorem Commits.cases (h : Commits codec state prepared next) :
    ∃ machine planId tr ownership budget,
      Admitted codec machine state.objects state.catalog planId prepared tr ownership
        budget ∧
      ((prepared.transition.isNamespaceRemoval = true ∧
          Exclusive (presentClaims
            (ownership.selected.filter fun entry => entry.1 ≠ prepared.namespaceName)) ∧
          (∃ left, validateCatalogRetentionAuthorities codec state.objects
            (state.catalog.removeHead prepared.namespaceName).1 none budget = .ok left) ∧
          next = ⟨state.objects, (state.catalog.removeHead prepared.namespaceName).1⟩) ∨
        ∃ gen, prepared.transition.isNamespaceRemoval = false ∧
          Derived codec state.objects state.catalog planId prepared ownership.selected
            ((ownership.selected.find? (·.1 = prepared.namespaceName)).map Prod.snd) budget
            gen next.catalog ∧
          publishImmutable codec state.objects (codec.generationDigest gen) gen =
            .ok next.objects) := by
  obtain ⟨machine, req, h⟩ := h
  unfold commitStore at h
  simp only [bind_ok, pure_ok] at h
  obtain ⟨⟨loaded, tr⟩, hadmitted, published, hpub, hpair⟩ := h
  obtain ⟨rfl, rfl⟩ := Prod.mk.injEq .. ▸ hpair
  obtain ⟨-, ownership, budget, hadmitted⟩ := admitCommit_ok hadmitted
  refine ⟨machine, req.planId, tr, ownership, budget, hadmitted, ?_⟩
  have hder := hadmitted.derived
  dsimp only at hder hpub ⊢
  cases hrem : loaded.transition.isNamespaceRemoval with
  | true =>
    rw [if_pos hrem] at hder
    obtain ⟨rfl, hexclusive, hret⟩ := deriveRemoval_ok hder
    simp only [publishGenerationAndCatalog, ok.injEq] at hpub
    exact .inl ⟨rfl, hexclusive, hret, hpub.symm⟩
  | false =>
    rw [if_neg (by rw [hrem]; decide)] at hder
    obtain ⟨gen, nextCatalog, rfl, hcand⟩ := deriveGeneration_ok hder
    simp only [publishGenerationAndCatalog, bind_ok, exists_unit, pure_ok] at hpub
    obtain ⟨-, objects, hobjs, rfl⟩ := hpub
    exact .inr ⟨gen, rfl, hcand, hobjs⟩

theorem Commits.keeps (h : Commits codec state prepared next)
    {file : StoreFile (Encoded StateGeneration)}
    (hfile : state.objects.generations.get? digest = some file) :
    next.objects.generations.get? digest = some file := by
  obtain ⟨machine, planId, tr, ownership, budget, -, hcases⟩ := h.cases
  rcases hcases with ⟨-, -, -, rfl⟩ | ⟨gen, -, -, hpub⟩
  · exact hfile
  · exact (publishImmutable_ok hpub).2 digest file hfile

/-! ## 4. Exclusive ownership over runs -/

theorem mem_selected :
    entry ∈ state.selected ↔ ∃ head ∈ state.catalog.heads,
      head.namespaceName = entry.1 ∧ state.objects.record head.generation = some entry.2 := by
  obtain ⟨ns, gen⟩ := entry
  simp only [StoreState.selected, mem_filterMap, map_eq_some_iff, Prod.mk.injEq]
  constructor
  · rintro ⟨head, hhead, rec, hrec, hname, rfl⟩
    exact ⟨head, hhead, hname, hrec⟩
  · rintro ⟨head, hhead, hname, hrec⟩
    exact ⟨head, hhead, gen, hrec, hname, rfl⟩

theorem Admitted.selected
    (h : Admitted codec machine state.objects state.catalog planId prepared tr ownership
      budget) : state.selected = ownership.selected :=
  selected_eq_of_forall₂ (loadCatalogOwnership_ok h.loaded).1

theorem record_of_get? {left right : ObjectStore}
    (h : left.generations.get? digest = right.generations.get? digest) :
    left.record digest = right.record digest := by
  simp [record, h]

theorem file_of_record (h : store.record digest = some gen) :
    ∃ file, store.generations.get? digest = some file := by
  unfold record at h
  split at h
  · exact ⟨_, by assumption⟩
  · cases h

theorem self_mem_selectGeneration :
    ∀ selected, (ns, gen) ∈ selectGeneration ns gen selected
  | [] => mem_cons_self
  | (name, current) :: rest => by
    unfold selectGeneration
    split
    · rename_i hname
      exact hname ▸ mem_cons_self
    · exact mem_cons_of_mem _ (self_mem_selectGeneration rest)

theorem mem_selectGeneration (hne : entry.1 ≠ ns) :
    ∀ {selected : List (NamespaceName × StateGeneration)}, entry ∈ selected →
      entry ∈ selectGeneration ns gen selected
  | (name, current) :: rest, h => by
    unfold selectGeneration
    split
    · rename_i hname
      rcases mem_cons.1 h with rfl | h
      · exact absurd hname hne
      · exact mem_cons_of_mem _ h
    · rcases mem_cons.1 h with rfl | h
      · exact mem_cons_self
      · exact mem_cons_of_mem _ (mem_selectGeneration hne h)

theorem updateHead_heads {codec : Codec} {next : StateCatalog}
    (h : catalog.updateHead codec ns digest = .ok next) :
    next.heads = upsert ns digest catalog.heads := by
  unfold updateHead at h
  dsimp only at h
  split at h
  · split at h
    · cases h
    · cases h
      rfl
  · cases h

theorem mem_selected_removed
    (h : entry ∈ (⟨state.objects, (state.catalog.removeHead ns).1⟩ : StoreState).selected) :
    entry ∈ state.selected ∧ entry.1 ≠ ns := by
  obtain ⟨head, hhead, hname, hstored⟩ := mem_selected.1 h
  obtain ⟨hhead, hne⟩ := mem_filter.1 hhead
  exact ⟨mem_selected.2 ⟨head, hhead, hname, hstored⟩, by simpa [hname] using hne⟩

theorem Admitted.mem_selected_published
    (h : Admitted codec machine state.objects state.catalog planId prepared tr ownership
      budget)
    (hcatalog : state.catalog.updateHead codec.toCodec ns (codec.generationDigest gen) =
      .ok next.catalog)
    (hpub : publishImmutable codec state.objects (codec.generationDigest gen) gen =
      .ok next.objects) (hentry : entry ∈ next.selected) :
    entry = (ns, gen) ∨ entry ∈ state.selected ∧ entry.1 ≠ ns := by
  obtain ⟨hrec, hkept⟩ := publishImmutable_ok hpub
  obtain ⟨head, hhead, hname, hstored⟩ := mem_selected.1 hentry
  rw [updateHead_heads hcatalog] at hhead
  rcases mem_upsert_of_sorted state.catalog.sorted hhead with rfl | ⟨hhead, hne⟩
  · rw [hrec] at hstored
    exact .inl (Prod.ext hname.symm (some.inj hstored).symm)
  · -- another namespace's head: its file was stored before and is kept
    obtain ⟨stored, -, -, hbefore⟩ :=
      Selected.of_mem (loadCatalogOwnership_ok h.loaded).1 head hhead
    obtain ⟨file, hfile⟩ := file_of_record hbefore.record
    rw [record_of_get? ((hkept _ _ hfile).trans hfile.symm)] at hstored
    exact .inr ⟨mem_selected.2 ⟨head, hhead, hname, hstored⟩, hname ▸ hne⟩

theorem Commits.exclusive (h : Commits codec state prepared next) :
    Exclusive (presentClaims next.selected) := by
  obtain ⟨machine, planId, tr, ownership, budget, hadmitted, hcases⟩ := h.cases
  have hsel := hadmitted.selected
  rcases hcases with ⟨-, hexclusive, -, rfl⟩ | ⟨gen, -, hder, hpub⟩
  · refine hexclusive.mono fun claim => presentClaims_mono ?_
    intro entry hentry
    obtain ⟨hentry, hne⟩ := mem_selected_removed hentry
    exact mem_filter.2 ⟨hsel ▸ hentry, by simpa using hne⟩
  · refine hder.exclusive.mono fun claim => presentClaims_mono ?_
    intro entry hentry
    rcases hadmitted.mem_selected_published hder.catalog hpub hentry with rfl | ⟨hentry, hne⟩
    · exact self_mem_selectGeneration _
    · exact mem_selectGeneration hne (hsel ▸ hentry)

theorem Admitted.operation_exclusive
    (h : Admitted codec machine state.objects state.catalog planId prepared tr ownership
      budget) {op : PreparedOperation} (hmem : op ∈ prepared.operations)
    (hassert : op.isAssertAbsent = false) {claim : OwnershipClaim}
    (hclaim : claim ∈ presentClaims state.selected)
    (hauthority : claim.authority = op.observation.authority)
    (hoverlap : Text.Overlap claim.relativePath op.observation.relativePath) :
    claim.namespaceName = prepared.namespaceName := by
  have hadmitted := h.operations op hmem
  unfold admitOperation at hadmitted
  rw [if_neg (by rw [hassert]; decide), bind_unit_ok, rejectSome_ok] at hadmitted
  have hprojection := (loadCatalogOwnership_ok h.loaded).2
  refine OwnershipProjection.conflictingClaim_none hadmitted.1 ?_ hauthority hoverlap
  rw [(fromSelectedGenerations_ok hprojection).1, mem_sortClaims, ← h.selected]
  exact hclaim

theorem mem_selected_of_kept {objects : ObjectStore}
    (hkept : ∀ head ∈ state.catalog.heads, objects.generations.get? head.generation =
      state.objects.generations.get? head.generation) :
    entry ∈ (⟨objects, state.catalog⟩ : StoreState).selected ↔ entry ∈ state.selected := by
  rw [mem_selected, mem_selected]
  constructor
  · rintro ⟨head, hhead, hname, hstored⟩
    exact ⟨head, hhead, hname, record_of_get? (hkept head hhead) ▸ hstored⟩
  · rintro ⟨head, hhead, hname, hstored⟩
    exact ⟨head, hhead, hname, record_of_get? (hkept head hhead) ▸ hstored⟩

theorem Commits.keeps_heads (h : Commits codec state prepared next) (head : NamespaceHead)
    (hhead : head ∈ state.catalog.heads) :
    next.objects.generations.get? head.generation =
      state.objects.generations.get? head.generation := by
  obtain ⟨machine, planId, tr, ownership, budget, hadmitted, -⟩ := h.cases
  obtain ⟨gen, -, -, hloaded⟩ :=
    Selected.of_mem (loadCatalogOwnership_ok hadmitted.loaded).1 head hhead
  obtain ⟨file, hfile⟩ := file_of_record hloaded.record
  rw [hfile, h.keeps hfile]

theorem Reachable.exclusive (h : Reachable codec state) :
    Exclusive (presentClaims state.selected) := by
  induction h with
  | initial objects fresh =>
    intro left hleft
    simp [StoreState.selected, StateCatalog.empty, presentClaims] at hleft
  | step before hstep ih =>
    cases hstep with
    | commit prepared accepted => exact accepted.exclusive
    | abandoned prepared accepted =>
      refine ih.mono fun claim => presentClaims_mono fun entry => ?_
      exact (mem_selected_of_kept accepted.keeps_heads).1
    | environment objects keeps adds =>
      refine ih.mono fun claim => presentClaims_mono fun entry => ?_
      exact (mem_selected_of_kept fun head hhead => keeps _ (.inl ⟨head, hhead, rfl⟩)).1

/-- **Ownership exclusivity over runs.** In every state that commits reach from an empty catalog,
claims of different namespaces do not overlap, and accepted operations other than assertions stay
clear of them. -/
theorem ownership_exclusive_over_runs {state : StoreState} (h : Reachable codec state) :
    Exclusive (presentClaims state.selected) ∧
      ∀ (machine : Machine) (request : CommitRequest) (prepared : PreparedRecord)
        (tr : OwnedTransition),
        admitCommit codec machine state request = .ok (prepared, tr) →
          ∀ op ∈ prepared.operations, op.isAssertAbsent = false →
            ∀ claim ∈ presentClaims state.selected,
              claim.authority = op.observation.authority →
              Text.Overlap claim.relativePath op.observation.relativePath →
              claim.namespaceName = prepared.namespaceName := by
  refine ⟨h.exclusive, ?_⟩
  intro machine request prepared tr hadmitted op hmem hassert claim hclaim
    hauthority hoverlap
  obtain ⟨-, ownership, budget, hadmitted⟩ := admitCommit_ok hadmitted
  exact hadmitted.operation_exclusive hmem hassert hclaim hauthority hoverlap

/-- Two namespaces commit one file each. -/
theorem ownership_exclusive_over_runs_sample :
    ∃ state, Reachable sampleCodec state ∧
      (presentClaims state.selected).map OwnershipClaim.namespaceName = [['v'], ['w']] ∧
      Exclusive (presentClaims state.selected) := by
  have hcheck : okAnd
      (commitStore sampleCodec sampleMachine
        ⟨sampleObjects [sampleFilePlan ['w'] ['f'] 1, sampleFilePlan ['v'] ['g'] 2], .empty⟩
        (sampleRequest 1))
      (fun first => okAnd (commitStore sampleCodec sampleMachine first.2 (sampleRequest 2))
        fun second => (presentClaims second.2.selected).map OwnershipClaim.namespaceName =
          [['v'], ['w']]) = true := by
    decide +kernel
  obtain ⟨⟨firstPlan, first⟩, hfirst, hcheck⟩ := okAnd_iff.1 hcheck
  obtain ⟨⟨secondPlan, second⟩, hsecond, hclaims⟩ := okAnd_iff.1 hcheck
  have hreach : Reachable sampleCodec second :=
    .step (.step (.initial _ rfl) (.commit firstPlan ⟨sampleMachine, _, hfirst⟩))
      (.commit secondPlan ⟨sampleMachine, _, hsecond⟩)
  exact ⟨second, hreach, of_decide_eq_true hclaims, (ownership_exclusive_over_runs hreach).1⟩

end Malm.Commit
