/-
Malm.Commit.LifecycleTheorems — disabling a namespace loses nothing.

Every gen a commit ever stored is `Restorable`, and the restore points of every
selected gen are stored (`RestorePointsStored`). Until the enable that follows a
disable, authority updates hand the restore point on (`Held`).
-/
import Malm.Commit.AdmissionTheorems
import Malm.Store.PlanTheorems

namespace Malm.Commit

open Store Checks Option List Except

variable {prev : Option StateGeneration} {machine : Machine} {tr : OwnedTransition}
    {head : NamespaceHead}

variable {codec : ObjectCodec}

/-! ## 1. What the transition checks give -/

variable {planId : PreparedId} {prepared : PreparedRecord} {gen : StateGeneration}
  {restorePoint : RestorePoint} {store : ObjectStore} {budget : CanonicalLoadBudget}
  {catalog : StateCatalog} {digest : Digest} {state next : StoreState}
  {cand : Option CandidateGeneration} {ns : NamespaceName}
  {original : StateGeneration} {point : RestorePoint}

variable {auth : RetentionAuthority} {left : CanonicalLoadBudget} {ownership : CatalogOwnership}

theorem fromPrepared_ok {previousGeneration : Option Digest}
    (h : fromPrepared codec.toCodec planId previousGeneration prev prepared =
      .ok gen) :
    gen = generationOf planId previousGeneration prepared ∧
      validatePreparedTransition codec.toCodec prev prepared = .ok () := by
  have hbuilt := fromPrepared_builtFrom h
  exact ⟨hbuilt.generation_eq, hbuilt.transition⟩

/-- The parts of an accepted lifecycle transition. -/
structure TransitionChecked (codec : ObjectCodec) (previous : Option StateGeneration)
    (prepared : PreparedRecord) : Prop where
  retention : validateRetentionAuthority prepared.retention (some prepared.namespaceName) =
    .ok ()
  selected : prepared.transition.isNamespaceRemoval = false →
    validateSelectedRestoreAuthority prepared.lifecycle prepared.restorePoint
      prepared.retention = .ok ()
  kind : validatePreparedTransitionKind codec.toCodec previous prepared = .ok ()

theorem validatePreparedTransition_ok
    (h : validatePreparedTransition codec.toCodec prev prepared = .ok ()) :
    TransitionChecked codec prev prepared := by
  unfold validatePreparedTransition at h
  simp only [bind_ok, exists_unit, asState, mapError_ok, when_ok] at h
  obtain ⟨-, -, -, hret, hselected, -, hkind, -⟩ := h
  exact ⟨hret, fun hrem => hselected (by rw [hrem]; decide), hkind⟩

theorem restorePoint_unique {ns : Option NamespaceName}
    (h : validateRetentionAuthority auth ns = .ok ()) {left right : RestorePoint}
    (hleft : left ∈ auth.restorePoints) (hright : right ∈ auth.restorePoints)
    (hgen : left.generation = right.generation) : left = right := by
  unfold validateRetentionAuthority at h
  simp only [bind_ok, exists_unit, reject_ok, not_not] at h
  obtain ⟨-, -, -, -, hchain, -⟩ := h
  have hnodup : (auth.restorePoints.map RestorePoint.generation).Nodup :=
    (isChain_iff_pairwise.1 hchain).imp fun hlt => ne_of_lt hlt
  exact inj_on_of_nodup_map hnodup hleft hright hgen

theorem selectedRestoreAuthority_disabled {sel : Option RestorePoint}
    (h : validateSelectedRestoreAuthority .disabled sel auth = .ok ()) :
    ∃ point, sel = some point ∧ point ∈ auth.restorePoints := by
  cases sel with
  | none => simp [validateSelectedRestoreAuthority] at h
  | some point =>
    rw [validateSelectedRestoreAuthority, reject_ok, not_not] at h
    exact ⟨point, rfl, h⟩

/-! ## 2. Every stored generation can be enabled again -/

/-- A disabled generation is empty, and one enabled restore point says what it was. -/
def Restorable (generation : StateGeneration) : Prop :=
  generation.lifecycle = .disabled →
    generation.desiredSnapshot = .empty ∧ generation.trackedRoot = none ∧
      ∃ point, generation.restorePoint = some point ∧ point.lifecycle = .enabled ∧
        point ∈ generation.retention.restorePoints ∧
        ∀ other ∈ generation.retention.restorePoints,
          other.generation = point.generation → other = point

/-- The same about the plan a generation is built from. -/
def PlanRestorable (prepared : PreparedRecord) : Prop :=
  prepared.lifecycle = .disabled →
    prepared.desiredSnapshot = .empty ∧ prepared.trackedRoot = none ∧
      ∃ point, prepared.restorePoint = some point ∧ point.lifecycle = .enabled

theorem restorable_of_plan
    (hchecked : TransitionChecked codec prev prepared)
    (hrem : prepared.transition.isNamespaceRemoval = false) (hplan : PlanRestorable prepared)
    (planId : PreparedId) (previousGeneration : Option Digest) :
    Restorable (generationOf planId previousGeneration prepared) := by
  intro hdisabled
  have hlifecycle : prepared.lifecycle = .disabled := hdisabled
  obtain ⟨hempty, htracked, point, hpoint, henabled⟩ := hplan hlifecycle
  obtain ⟨sel, hselected, hmem⟩ :=
    selectedRestoreAuthority_disabled (hlifecycle ▸ hchecked.selected hrem)
  obtain rfl : sel = point := some.inj (hselected.symm.trans hpoint)
  refine ⟨hempty, htracked, sel, hpoint, henabled, hmem, ?_⟩
  intro other hother hgen
  exact restorePoint_unique hchecked.retention hother hmem hgen

theorem desiredSnapshot_isEmpty {snap : DesiredSnapshot} (h : snap.isEmpty = true) :
    snap = .empty := by
  cases snap
  simp_all [DesiredSnapshot.isEmpty, DesiredSnapshot.empty]

section

variable {prev : Option StateGeneration}
  (h : validatePreparedTransitionKind codec.toCodec prev prepared = .ok ())
include h

theorem disable_kind (htransition : prepared.transition = .disable) :
    ∃ gen point, prev = some gen ∧ gen.lifecycle = .enabled ∧
      prepared.lifecycle = .disabled ∧ prepared.desiredSnapshot = .empty ∧
      prepared.trackedRoot = none ∧ prepared.restorePoint = some point ∧
      point.generation = codec.generationDigest gen ∧ point.lifecycle = .enabled := by
  unfold validatePreparedTransitionKind at h
  rw [htransition] at h
  simp only [bind_ok, exists_unit, require_ok, reject_ok, validateRestorePointGeneration, not_or,
    not_not, Bool.not_eq_true, Bool.not_eq_false, isNone_iff_eq_none, isSome_eq_false_iff] at h
  obtain ⟨gen, rfl, ⟨henabled, hdisabled, hempty, htracked⟩, point, hpoint,
    ⟨-, hgen, hlifecycle, -⟩, -⟩ := h
  exact ⟨gen, point, rfl, henabled, hdisabled, desiredSnapshot_isEmpty hempty, htracked,
    hpoint, hgen, hlifecycle.trans henabled⟩

theorem retentionAuthority_kind (htransition : prepared.transition = .retentionAuthority) :
    ∃ gen, prev = some gen ∧ prepared.lifecycle = gen.lifecycle ∧
      prepared.restorePoint = gen.restorePoint ∧
      prepared.trackedRoot = gen.trackedRoot ∧
      prepared.desiredSnapshot = gen.desiredSnapshot := by
  unfold validatePreparedTransitionKind at h
  rw [htransition] at h
  simp only [bind_ok, require_ok, reject_ok, not_or, not_not] at h
  obtain ⟨gen, rfl, hlifecycle, hpoint, htracked, hsnapshot⟩ := h
  exact ⟨gen, rfl, hlifecycle, hpoint, htracked, hsnapshot⟩

theorem enable_kind (htransition : prepared.transition = .enable restorePoint) :
    ∃ gen, prev = some gen ∧ gen.restorePoint = some restorePoint ∧
      prepared.lifecycle = .enabled := by
  unfold validatePreparedTransitionKind at h
  rw [htransition] at h
  simp only [bind_ok, require_ok, reject_ok, not_or, not_not] at h
  obtain ⟨gen, rfl, -, hpoint, -, henabled, -⟩ := h
  exact ⟨gen, rfl, hpoint, henabled⟩

end

/-- The stored source of an accepted checkout has the lifecycle parts of the
plan. -/
theorem checkout_source {sourceGeneration : Digest}
    (h : validateTransitionSource codec store prepared = .ok ())
    (htransition : prepared.transition = .checkout sourceGeneration) :
    ∃ src, LoadedGeneration codec store sourceGeneration src ∧
      prepared.lifecycle = src.lifecycle ∧ prepared.restorePoint = src.restorePoint ∧
      prepared.trackedRoot = src.trackedRoot ∧
      (src.lifecycle = .disabled → prepared.desiredSnapshot = .empty) := by
  unfold validateTransitionSource at h
  rw [htransition] at h
  simp only [transitionSource, bind_ok, exists_unit] at h
  obtain ⟨src, hsource, -, -, hcheckout⟩ := h
  unfold validateCheckoutSource at hcheckout
  simp only [bind_ok, reject_ok, not_or, not_not] at hcheckout
  obtain ⟨expected, hexp, hlifecycle, hsnapshot, hpoint, htracked⟩ := hcheckout
  refine ⟨src, loadGeneration_ok hsource, hlifecycle.symm, hpoint.symm, htracked.symm, ?_⟩
  intro hdisabled
  rw [checkoutSnapshot, if_pos hdisabled, ok.injEq] at hexp
  rw [← hsnapshot, ← hexp]

theorem enable_source (h : validateTransitionSource codec store prepared = .ok ())
    (htransition : prepared.transition = .enable restorePoint) :
    ∃ src, LoadedGeneration codec store restorePoint.generation src ∧
      src.desiredSnapshot = prepared.desiredSnapshot ∧
      src.trackedRoot = prepared.trackedRoot := by
  unfold validateTransitionSource at h
  rw [htransition] at h
  simp only [transitionSource, bind_ok, exists_unit] at h
  obtain ⟨src, hsource, -, -, henable⟩ := h
  unfold validateEnableSource at henable
  simp only [bind_ok, exists_unit, reject_ok, not_or, not_not] at henable
  exact ⟨src, loadGeneration_ok hsource, henable.2.2.1, henable.2.2.2⟩

theorem validateTransitionReferences_ok
    (h : validateTransitionReferences codec store prev prepared budget = .ok left) :
    validateTransitionSource codec store prepared = .ok () := by
  unfold validateTransitionReferences at h
  simp only [bind_ok, exists_unit, pure_ok] at h
  obtain ⟨-, -, hsource, -⟩ := h
  exact hsource

theorem Admitted.previous
    (h : Admitted codec machine store catalog planId prepared tr ownership budget)
    {prev : StateGeneration}
    (hfind : (ownership.selected.find? (·.1 = prepared.namespaceName)).map Prod.snd =
      some prev) :
    ∃ head ∈ catalog.heads, head.namespaceName = prepared.namespaceName ∧
      store.record head.generation = some prev := by
  obtain ⟨⟨name, found⟩, hentry, rfl⟩ := map_eq_some_iff.1 hfind
  have hname := List.find?_some hentry
  have hmem := List.mem_of_find?_eq_some hentry
  rw [decide_eq_true_eq] at hname
  have hselected := (selected_eq_of_forall₂ (loadCatalogOwnership_ok h.loaded).1).symm ▸ hmem
  obtain ⟨head, hhead, hentry'⟩ := mem_filterMap.1 hselected
  obtain ⟨rec, hrecord, hpair⟩ := map_eq_some_iff.1 hentry'
  cases hpair
  exact ⟨head, hhead, hname, hrecord⟩

theorem Derived.restorable {next : StateCatalog}
    (hadm : Admitted codec machine store catalog planId prepared tr ownership budget)
    (hder : Derived codec store catalog planId prepared ownership.selected
      ((ownership.selected.find? (·.1 = prepared.namespaceName)).map Prod.snd) budget gen
      next) (hrem : prepared.transition.isNamespaceRemoval = false)
    (hstored : ∀ digest rec, store.record digest = some rec → Restorable rec) :
    Restorable gen := by
  obtain ⟨rfl, -⟩ := fromPrepared_ok hder.built
  have hchecked := validatePreparedTransition_ok hadm.lifecycle
  have hsource := validateTransitionReferences_ok hadm.references
  refine restorable_of_plan hchecked hrem ?_ planId _
  intro hdisabled
  cases htransition : prepared.transition with
  | reconcile =>
    have hkind := hchecked.kind
    unfold validatePreparedTransitionKind at hkind
    rw [htransition] at hkind
    simp [reject_ok, hdisabled] at hkind
  | disable =>
    obtain ⟨-, point, -, -, -, hempty, htracked, hpoint, -, henabled⟩ :=
      disable_kind hchecked.kind htransition
    exact ⟨hempty, htracked, point, hpoint, henabled⟩
  | enable restorePoint =>
    obtain ⟨-, -, -, henabled⟩ := enable_kind hchecked.kind htransition
    rw [hdisabled] at henabled
    cases henabled
  | checkout sourceGeneration =>
    obtain ⟨src, hloaded, hlifecycle, hpoint, htracked, hempty⟩ :=
      checkout_source hsource htransition
    have hsourceDisabled := hlifecycle.symm.trans hdisabled
    obtain ⟨-, hnone, point, hsome, henabled, -⟩ := hstored _ _ hloaded.record hsourceDisabled
    exact ⟨hempty hsourceDisabled, htracked.trans hnone, point, hpoint.trans hsome, henabled⟩
  | retentionAuthority =>
    obtain ⟨prev, hprev, hlifecycle, hpoint, htracked, hsnapshot⟩ :=
      retentionAuthority_kind hchecked.kind htransition
    obtain ⟨head, -, -, hrecord⟩ := hadm.previous hprev
    obtain ⟨hempty, hnone, point, hsome, henabled, -⟩ :=
      hstored _ _ hrecord (hlifecycle.symm.trans hdisabled)
    exact ⟨hsnapshot.trans hempty, htracked.trans hnone, point, hpoint.trans hsome, henabled⟩
  | namespaceRemoval => simp [htransition, PreparedTransition.isNamespaceRemoval] at hrem

theorem publishImmutable_record {objects next : ObjectStore}
    (h : publishImmutable codec objects digest gen = .ok next) {other : Digest}
    {record : StateGeneration} (hrecord : next.record other = some record) :
    record = gen ∨ objects.record other = some record := by
  obtain ⟨hpublished, hkept⟩ := publishImmutable_ok h
  by_cases hother : other = digest
  · subst hother
    exact Or.inl (some.inj (hrecord.symm.trans hpublished))
  · right
    unfold publishImmutable at h
    rw [bind_ok] at h
    obtain ⟨found, -, h⟩ := h
    cases found with
    | some existing =>
      dsimp only at h
      split at h
      · rw [pure_ok] at h
        exact h ▸ hrecord
      · cases h
    | none =>
      dsimp only at h
      rw [pure_ok] at h
      subst h
      rw [← hrecord]
      exact record_of_get? (by simp [hother])

theorem Commits.restorable (h : Commits codec state prepared next)
    (hstored : ∀ digest record, state.objects.record digest = some record → Restorable record) :
    ∀ digest record, next.objects.record digest = some record → Restorable record := by
  intro digest record hrecord
  obtain ⟨machine, planId, tr, ownership, budget, hadm, hcases⟩ := h.cases
  rcases hcases with ⟨-, -, -, rfl⟩ | ⟨gen, hrem, hder, hpub⟩
  · exact hstored digest record hrecord
  · rcases publishImmutable_record hpub hrecord with rfl | hbefore
    · exact hder.restorable hadm hrem hstored
    · exact hstored digest record hbefore

theorem Reachable.restorable (h : Reachable codec state) :
    ∀ digest record, state.objects.record digest = some record → Restorable record := by
  induction h with
  | initial objects fresh =>
    intro digest record hrecord
    simp [ObjectStore.record, fresh] at hrecord
  | step before hstep ih =>
    cases hstep with
    | commit prepared accepted => exact accepted.restorable ih
    | abandoned prepared accepted => exact accepted.restorable ih
    | environment objects keeps adds =>
      intro digest record hrecord
      obtain ⟨file, hfile⟩ := file_of_record hrecord
      rw [record_of_get? (hfile.trans (adds _ _ hfile).symm)] at hrecord
      exact ih digest record hrecord

/-! ## 3. Restore points of the heads are stored -/

/-- Every restore point of a selected generation is stored as it says. -/
def RestorePointsStored (state : StoreState) : Prop :=
  ∀ entry ∈ state.selected, ∀ point ∈ entry.2.retention.restorePoints,
    ∃ stored, state.objects.record point.generation = some stored ∧
      validateRestorePointReference point point.generation stored = .ok ()

theorem validateHeadAuthority_ok {budgets left : Nat × CanonicalLoadBudget}
    (h : validateHeadAuthority codec store cand budgets head = .ok left) :
    ∃ gen, headGeneration codec store cand head.generation = .ok gen ∧
      ∀ point ∈ gen.retention.restorePoints,
        ∃ stored, LoadedGeneration codec store point.generation stored ∧
          validateRestorePointReference point point.generation stored = .ok () := by
  unfold validateHeadAuthority at h
  simp only [bind_ok, exists_unit] at h
  obtain ⟨gen, hgen, -, points, hpoints, -⟩ := h
  refine ⟨gen, hgen, ?_⟩
  intro point hpoint
  obtain ⟨before, after, hstep⟩ := foldlM_ok_of_mem hpoints hpoint
  unfold validateAuthorityPoint at hstep
  simp only [bind_ok, exists_unit] at hstep
  obtain ⟨⟨stored, bytes⟩, hretained, hreference, -⟩ := hstep
  unfold validateDirectlyRetainedGeneration at hretained
  simp only [bind_ok, pure_ok] at hretained
  obtain ⟨⟨loaded, encoded⟩, hload, charged, -, checked, -, hpair⟩ := hretained
  cases hpair
  exact ⟨loaded, (loadGenerationWithEncodedLen_ok hload).1, hreference⟩

theorem validateCatalogRetentionAuthorities_ok
    (h : validateCatalogRetentionAuthorities codec store catalog cand budget = .ok left) (hhead : head ∈ catalog.heads) :
    ∃ gen, headGeneration codec store cand head.generation = .ok gen ∧
      ∀ point ∈ gen.retention.restorePoints,
        ∃ stored, LoadedGeneration codec store point.generation stored ∧
          validateRestorePointReference point point.generation stored = .ok () := by
  unfold validateCatalogRetentionAuthorities at h
  rw [bind_ok] at h
  obtain ⟨budgets, hfold, -⟩ := h
  obtain ⟨before, after, hstep⟩ := foldlM_ok_of_mem hfold hhead
  exact validateHeadAuthority_ok hstep

theorem Commits.record (h : Commits codec state prepared next)
    (hrecord : state.objects.record digest = some gen) :
    next.objects.record digest = some gen := by
  obtain ⟨file, hfile⟩ := file_of_record hrecord
  rw [record_of_get? ((h.keeps hfile).trans hfile.symm), hrecord]

theorem headGeneration_record {next : ObjectStore}
    (h : headGeneration codec store cand digest = .ok gen)
    (hcand : ∀ found, cand = some found →
      next.record found.digest = some found.generation)
    (hkept : ∀ rec, store.record digest = some rec → next.record digest = some rec) :
    next.record digest = some gen := by
  unfold headGeneration at h
  split at h
  · rename_i found hfound
    obtain ⟨hsome, hdigest⟩ := filter_eq_some_iff.1 hfound
    rw [decide_eq_true_eq] at hdigest
    rw [← ok.inj h, ← hdigest]
    exact hcand found hsome
  · exact hkept gen (loadGeneration_ok h).record

theorem Commits.restorePointsStored (h : Commits codec state prepared next) :
    RestorePointsStored next := by
  have hrecords : ∀ digest record, state.objects.record digest = some record →
      next.objects.record digest = some record := fun _ _ => h.record
  obtain ⟨machine, planId, tr, ownership, budget, hadm, hcases⟩ := h.cases
  obtain ⟨cand, left, hret, hcand⟩ :
      ∃ cand left, validateCatalogRetentionAuthorities codec state.objects next.catalog
          cand budget = .ok left ∧
        ∀ found, cand = some found →
          next.objects.record found.digest = some found.generation := by
    rcases hcases with ⟨-, -, ⟨left, hret⟩, rfl⟩ | ⟨gen, -, hder, hpub⟩
    · exact ⟨none, left, hret, by simp⟩
    · obtain ⟨left, hret⟩ := hder.retention
      refine ⟨_, left, hret, ?_⟩
      rintro found ⟨rfl⟩
      exact (publishImmutable_ok hpub).1
  intro e hentry point hpoint
  obtain ⟨head, hhead, -, hstored⟩ := mem_selected.1 hentry
  obtain ⟨gen, hgen, hpoints⟩ :=
    validateCatalogRetentionAuthorities_ok hret hhead
  have hselected := headGeneration_record hgen hcand
    (fun record => hrecords head.generation record)
  obtain rfl : gen = e.2 := some.inj (hselected.symm.trans hstored)
  obtain ⟨stored, hloaded, hreference⟩ := hpoints point hpoint
  exact ⟨stored, hrecords _ _ hloaded.record, hreference⟩

theorem Reachable.restorePointsStored (h : Reachable codec state) :
    RestorePointsStored state := by
  induction h with
  | initial objects fresh =>
    intro e hentry
    simp [StoreState.selected, StateCatalog.empty] at hentry
  | step before hstep ih =>
    cases hstep with
    | commit prepared accepted => exact accepted.restorePointsStored
    | abandoned prepared accepted =>
      intro e hentry point hpoint
      obtain ⟨stored, hrecord, hreference⟩ :=
        ih e ((mem_selected_of_kept accepted.keeps_heads).1 hentry) point hpoint
      exact ⟨stored, accepted.record hrecord, hreference⟩
    | environment objects keeps adds =>
      intro e hentry point hpoint
      have hbefore := (mem_selected_of_kept fun head hhead =>
        keeps _ (Or.inl ⟨head, hhead, rfl⟩)).1 hentry
      obtain ⟨stored, hrecord, hreference⟩ := ih e hbefore point hpoint
      refine ⟨stored, ?_, hreference⟩
      rw [← hrecord]
      exact record_of_get? (keeps _ (Or.inr ⟨e, hbefore, point, hpoint, rfl⟩))

/-! ## 4. From a disable to the next enable -/

/-- A disabled namespace whose restore point leads to what was disabled. -/
structure Held (state : StoreState) (namespaceName : NamespaceName) (point : RestorePoint)
    (original : StateGeneration) : Prop where
  head : ∃ gen, (namespaceName, gen) ∈ state.selected ∧
    gen.lifecycle = .disabled ∧ gen.restorePoint = some point ∧
    point ∈ gen.retention.restorePoints
  stored : state.objects.record point.generation = some original

theorem selected_unique {left right : StateGeneration}
    (hleft : (ns, left) ∈ state.selected)
    (hright : (ns, right) ∈ state.selected) : left = right := by
  obtain ⟨leftHead, hleftHead, hleftName, hleftRecord⟩ := mem_selected.1 hleft
  obtain ⟨rightHead, hrightHead, hrightName, hrightRecord⟩ := mem_selected.1 hright
  have hhead := StateCatalog.head_unique state.catalog.sorted hleftHead hrightHead
    (hleftName.trans hrightName.symm)
  subst hhead
  exact some.inj (hleftRecord.symm.trans hrightRecord)

theorem Commits.transition (h : Commits codec state prepared next)
    (hrem : prepared.transition.isNamespaceRemoval = false) :
    ∃ prev planId,
      TransitionChecked codec prev prepared ∧
      (∀ gen, prev = some gen →
        (prepared.namespaceName, gen) ∈ state.selected) ∧
      validateTransitionSource codec state.objects prepared = .ok () ∧
      (prepared.namespaceName, generationOf planId
        (state.catalog.generation prepared.namespaceName) prepared) ∈ next.selected := by
  obtain ⟨machine, planId, tr, ownership, budget, hadm, hcases⟩ := h.cases
  rcases hcases with ⟨hremoved, -⟩ | ⟨gen, -, hder, hpub⟩
  · rw [hrem] at hremoved
    cases hremoved
  · refine ⟨_, planId, validatePreparedTransition_ok hadm.lifecycle, ?_,
      validateTransitionReferences_ok hadm.references, ?_⟩
    · intro prev hprev
      obtain ⟨head, hhead, hname, hrecord⟩ := hadm.previous hprev
      exact mem_selected.2 ⟨head, hhead, hname, hrecord⟩
    · obtain ⟨rfl, -⟩ := fromPrepared_ok hder.built
      have hhead := updateHead_heads hder.catalog ▸ StateCatalog.self_mem_upsert _
      exact mem_selected.2 ⟨_, hhead, rfl, (publishImmutable_ok hpub).1⟩

theorem Commits.other_selected (h : Commits codec state prepared next)
    (hne : ns ≠ prepared.namespaceName)
    (hselected : (ns, gen) ∈ state.selected) :
    (ns, gen) ∈ next.selected := by
  obtain ⟨head, hhead, hname, hrecord⟩ := mem_selected.1 hselected
  have hheadNe : head.namespaceName ≠ prepared.namespaceName := hname ▸ hne
  refine mem_selected.2 ⟨head, ?_, hname, h.record hrecord⟩
  obtain ⟨machine, planId, tr, ownership, budget, hadm, hcases⟩ := h.cases
  rcases hcases with ⟨-, -, -, rfl⟩ | ⟨published, -, hder, -⟩
  · exact mem_filter.2 ⟨hhead, by simpa using hheadNe⟩
  · rw [updateHead_heads hder.catalog]
    exact StateCatalog.mem_upsert_of_ne hheadNe hhead

theorem Commits.held_of_disable (h : Commits codec state prepared next)
    (htransition : prepared.transition = .disable)
    (hselected : (prepared.namespaceName, original) ∈ state.selected) :
    ∃ point, Held next prepared.namespaceName point original := by
  have hrem : prepared.transition.isNamespaceRemoval = false := by rw [htransition]; rfl
  obtain ⟨prev, planId, hchecked, hprev, -, hnext⟩ := h.transition hrem
  obtain ⟨gen, point, rfl, -, hdisabled, -, -, hpoint, hdigest, -⟩ :=
    disable_kind hchecked.kind htransition
  obtain rfl : gen = original := selected_unique (hprev _ rfl) hselected
  obtain ⟨sel, hsome, hmem⟩ :=
    selectedRestoreAuthority_disabled (hdisabled ▸ hchecked.selected hrem)
  obtain rfl : sel = point := some.inj (hsome.symm.trans hpoint)
  refine ⟨sel, ⟨_, hnext, hdisabled, hpoint, hmem⟩, ?_⟩
  -- the head's file has the digest of its record, which the restore point names
  obtain ⟨machine, plan, tr, ownership, budget, hadm, -⟩ := h.cases
  obtain ⟨head, hhead, hname, hrecord⟩ := mem_selected.1 hselected
  obtain ⟨loaded, -, -, hloaded⟩ :=
    Selected.of_mem (loadCatalogOwnership_ok hadm.loaded).1 head hhead
  obtain rfl : loaded = gen := some.inj (hloaded.record.symm.trans hrecord)
  rw [hdigest, hloaded.digest]
  exact h.record hrecord

theorem Held.retentionAuthority (hheld : Held state prepared.namespaceName point original)
    (h : Commits codec state prepared next)
    (htransition : prepared.transition = .retentionAuthority) :
    Held next prepared.namespaceName point original := by
  have hrem : prepared.transition.isNamespaceRemoval = false := by rw [htransition]; rfl
  obtain ⟨prev, planId, hchecked, hprev, -, hnext⟩ := h.transition hrem
  obtain ⟨gen, rfl, hlifecycle, hpoint, -⟩ :=
    retentionAuthority_kind hchecked.kind htransition
  obtain ⟨current, hcurrent, hdisabled, hsome, -⟩ := hheld.head
  obtain rfl : gen = current := selected_unique (hprev _ rfl) hcurrent
  have hplan := hlifecycle.trans hdisabled
  obtain ⟨sel, hselected, hmem⟩ :=
    selectedRestoreAuthority_disabled (hplan ▸ hchecked.selected hrem)
  have hsame := hpoint.trans hsome
  obtain rfl : sel = point := some.inj (hselected.symm.trans hsame)
  exact ⟨⟨_, hnext, hplan, hsame, hmem⟩, h.record hheld.stored⟩

/-- Steps that keep a namespace disabled. -/
inductive HeldRun (codec : ObjectCodec) (namespaceName : NamespaceName) :
    StoreState → StoreState → Prop
  | refl (state : StoreState) : HeldRun codec namespaceName state state
  | commit {first state next : StoreState} (prepared : PreparedRecord)
      (before : HeldRun codec namespaceName first state)
      (accepted : Commits codec state prepared next)
      (allowed : prepared.namespaceName = namespaceName →
        prepared.transition = .retentionAuthority) : HeldRun codec namespaceName first next
  | other {first state next : StoreState} (before : HeldRun codec namespaceName first state)
      (step : StoreStep codec state next) (same : next.catalog = state.catalog) :
      HeldRun codec namespaceName first next

theorem Held.of_kept {objects : ObjectStore} (hheld : Held state ns point original)
    (hheads : ∀ head ∈ state.catalog.heads, objects.generations.get? head.generation =
      state.objects.generations.get? head.generation)
    (hstored : objects.record point.generation = some original) :
    Held ⟨objects, state.catalog⟩ ns point original := by
  obtain ⟨gen, hselected, hrest⟩ := hheld.head
  exact ⟨⟨gen, (mem_selected_of_kept hheads).2 hselected, hrest⟩, hstored⟩

theorem Held.other (hheld : Held state ns point original)
    (hstep : StoreStep codec state next) (hsame : next.catalog = state.catalog) :
    Held next ns point original := by
  cases hstep with
  | commit prepared accepted =>
    have hkept := hheld.of_kept accepted.keeps_heads (accepted.record hheld.stored)
    rwa [← hsame] at hkept
  | abandoned prepared accepted =>
    exact hheld.of_kept accepted.keeps_heads (accepted.record hheld.stored)
  | environment objects keeps adds =>
    obtain ⟨gen, hselected, -, -, hmem⟩ := hheld.head
    refine hheld.of_kept (fun head hhead => keeps _ (Or.inl ⟨head, hhead, rfl⟩)) ?_
    rw [record_of_get? (keeps _ (Or.inr ⟨_, hselected, point, hmem, rfl⟩)), hheld.stored]

theorem HeldRun.held {first last : StoreState} (h : HeldRun codec ns first last)
    (hheld : Held first ns point original) :
    Held last ns point original := by
  induction h with
  | refl => exact hheld
  | commit prepared before accepted allowed hstate =>
    by_cases hname : prepared.namespaceName = ns
    · subst hname
      exact hstate.retentionAuthority accepted (allowed rfl)
    · obtain ⟨gen, hselected, hrest⟩ := hstate.head
      exact ⟨⟨gen, accepted.other_selected (Ne.symm hname) hselected, hrest⟩,
        accepted.record hstate.stored⟩
  | other before hstep hsame hstate => exact hstate.other hstep hsame

theorem Held.enable (hheld : Held state prepared.namespaceName point original)
    (h : Commits codec state prepared next)
    (htransition : prepared.transition = .enable restorePoint) :
    ∃ restored, (prepared.namespaceName, restored) ∈ next.selected ∧
      restored.lifecycle = .enabled ∧ restored.desiredSnapshot = original.desiredSnapshot ∧
      restored.trackedRoot = original.trackedRoot := by
  have hrem : prepared.transition.isNamespaceRemoval = false := by rw [htransition]; rfl
  obtain ⟨prev, planId, hchecked, hprev, hsource, hnext⟩ := h.transition hrem
  obtain ⟨gen, rfl, hpoint, henabled⟩ := enable_kind hchecked.kind htransition
  obtain ⟨current, hcurrent, -, hsome, -⟩ := hheld.head
  obtain rfl : gen = current := selected_unique (hprev _ rfl) hcurrent
  obtain rfl : restorePoint = point := some.inj (hpoint.symm.trans hsome)
  obtain ⟨src, hloaded, hsnapshot, htracked⟩ := enable_source hsource htransition
  obtain rfl : src = original := some.inj (hloaded.record.symm.trans hheld.stored)
  exact ⟨_, hnext, henabled, hsnapshot.symm, htracked.symm⟩

/-- **Lifecycle invariant.** A disabled head is empty, and the one restore point it selects is an
enabled stored generation. Short of another lifecycle change, an enable brings back what was
disabled. -/
theorem disabled_namespace_is_restored :
    (∀ state, Reachable codec state → ∀ entry ∈ state.selected,
      entry.2.lifecycle = .disabled →
        entry.2.desiredSnapshot = .empty ∧ entry.2.trackedRoot = none ∧
          ∃ point stored, entry.2.restorePoint = some point ∧
            point ∈ entry.2.retention.restorePoints ∧
            (∀ other ∈ entry.2.retention.restorePoints,
              other.generation = point.generation → other = point) ∧
            state.objects.record point.generation = some stored ∧
            stored.lifecycle = .enabled ∧
            stored.desiredSnapshotDigest = point.desiredSnapshotDigest ∧
            stored.trackedRoot = point.trackedRoot) ∧
      ∀ (before disabled between enabled : StoreState) (original : StateGeneration)
        (disable enable : PreparedRecord) (restorePoint : RestorePoint),
        (disable.namespaceName, original) ∈ before.selected →
        Commits codec before disable disabled → disable.transition = .disable →
        HeldRun codec disable.namespaceName disabled between →
        Commits codec between enable enabled → enable.namespaceName = disable.namespaceName →
        enable.transition = .enable restorePoint →
          ∃ restored, (enable.namespaceName, restored) ∈ enabled.selected ∧
            restored.lifecycle = .enabled ∧
            restored.desiredSnapshot = original.desiredSnapshot ∧
            restored.trackedRoot = original.trackedRoot := by
  constructor
  · intro state hreach entry hentry hdisabled
    obtain ⟨head, -, -, hrecord⟩ := mem_selected.1 hentry
    obtain ⟨hempty, htracked, point, hpoint, henabled, hmem, hunique⟩ :=
      hreach.restorable _ _ hrecord hdisabled
    obtain ⟨stored, hstored, hreference⟩ := hreach.restorePointsStored entry hentry point hmem
    rw [validateRestorePointReference, reject_ok] at hreference
    simp only [not_or, not_not] at hreference
    obtain ⟨-, -, hlifecycle, hdigest, hroot⟩ := hreference
    exact ⟨hempty, htracked, point, stored, hpoint, hmem, hunique, hstored,
      hlifecycle.symm.trans henabled, hdigest.symm, hroot.symm⟩
  · intro before disabled between enabled original disable enable restorePoint hselected hdisable
      htransition hrun henable hname hrestore
    obtain ⟨point, hheld⟩ := hdisable.held_of_disable htransition hselected
    exact (hname ▸ hrun.held hheld).enable henable hrestore

/-- The restore point of the sample generation that places `f`. -/
def samplePoint : RestorePoint := ⟨['w'], ⟨101⟩, .enabled, ⟨1⟩, none⟩

/-- Disables the sample namespace and removes its file. -/
def sampleDisable : PreparedRecord :=
  { samplePlan ['w'] 2 with
    expectedHead := some ⟨101⟩
    transition := .disable
    lifecycle := .disabled
    restorePoint := some samplePoint
    retention := ⟨256, [samplePoint], []⟩
    operations := [.removeLeaf ⟨['d'], ['f'], sampleIdentity, [], sampleIdentity,
      .present ⟨1, 9, 1000, 1000, 0o100600#32, 1, 3, 0, 0, 0, 0⟩, 0⟩] }

/-- Changes the history limit of the disabled namespace. -/
def sampleAuthority : PreparedRecord :=
  { samplePlan ['w'] 3 with
    expectedHead := some ⟨102⟩
    transition := .retentionAuthority
    lifecycle := .disabled
    restorePoint := some samplePoint
    retention := ⟨16, [samplePoint], []⟩ }

def sampleEnable : PreparedRecord :=
  { sampleFilePlan ['w'] ['f'] 4 with
    expectedHead := some ⟨103⟩
    transition := .enable samplePoint
    retention := ⟨256, [], []⟩ }

/-- A disable, an authority update and an enable of one namespace. -/
theorem disabled_namespace_is_restored_sample :
    ∃ before disabled between enabled : StoreState, ∃ original restored : StateGeneration,
      (['w'], original) ∈ before.selected ∧ HeldRun sampleCodec ['w'] disabled between ∧
        disabled.catalog ≠ between.catalog ∧ (['w'], restored) ∈ enabled.selected ∧
        original.desiredSnapshot ≠ .empty ∧
        restored.desiredSnapshot = original.desiredSnapshot := by
  have hcheck : okAnd
      (commitStore sampleCodec sampleMachine
        ⟨sampleObjects [sampleFilePlan ['w'] ['f'] 1, sampleDisable, sampleAuthority,
          sampleEnable], .empty⟩ (sampleRequest 1))
      (fun a => okAnd (commitStore sampleCodec sampleMachine a.2 (sampleRequest 2))
      fun b => okAnd (commitStore sampleCodec sampleMachine b.2 (sampleRequest 3))
      fun c => okAnd (commitStore sampleCodec sampleMachine c.2 (sampleRequest 4))
      fun d => (b.1 = sampleDisable ∧ c.1 = sampleAuthority ∧ d.1 = sampleEnable) ∧
        a.2.selected.map (fun entry => (entry.1, entry.2.desiredSnapshot)) =
          [(['w'], sampleEnable.desiredSnapshot)] ∧ b.2.catalog ≠ c.2.catalog) = true := by
    decide +kernel
  obtain ⟨⟨first, before⟩, -, hcheck⟩ := okAnd_iff.1 hcheck
  obtain ⟨⟨disable, disabled⟩, hdisable, hcheck⟩ := okAnd_iff.1 hcheck
  obtain ⟨⟨auth, between⟩, hauthority, hcheck⟩ := okAnd_iff.1 hcheck
  obtain ⟨⟨enable, enabled⟩, henable, hcheck⟩ := okAnd_iff.1 hcheck
  obtain ⟨⟨rfl, rfl, rfl⟩, hselected, hchanged⟩ := of_decide_eq_true hcheck
  have hmem : (['w'], sampleEnable.desiredSnapshot) ∈
      before.selected.map fun entry => (entry.1, entry.2.desiredSnapshot) :=
    hselected ▸ mem_cons_self
  obtain ⟨⟨name, original⟩, horiginal, hpair⟩ := List.mem_map.1 hmem
  obtain ⟨rfl, hfile⟩ := Prod.mk.inj hpair
  have hrun : HeldRun sampleCodec ['w'] disabled between :=
    .commit _ (.refl disabled) ⟨_, _, hauthority⟩ fun _ => rfl
  obtain ⟨restored, hrestored, -, hsnapshot, -⟩ :=
    (@disabled_namespace_is_restored sampleCodec).2 before disabled between enabled
      original _ _ samplePoint horiginal ⟨_, _, hdisable⟩ rfl hrun ⟨_, _, henable⟩ rfl rfl
  refine ⟨before, disabled, between, enabled, original, restored, horiginal, hrun, hchanged,
    hrestored, ?_, hsnapshot⟩
  rw [show original.desiredSnapshot = sampleEnable.desiredSnapshot from hfile]
  decide

end Malm.Commit
