/-
Malm.Engine.ObserveTheorems — what a successful obs says.

The walk to a destination opens every directory above it that exists, so
an observed leaf is the entry of the target system at the destination,
and the probes by path agree with the walk (`ObservedAt`).
-/
import Malm.Engine.Plan
import Malm.Store.TransitionTheorems

namespace Malm.Engine

open Store Commit Target Checks List Option Except

variable {config : EngineConfig} {system : TargetSystem} {prev : Option StateGeneration}

variable {obs : TargetObservation} {op : PreparedOperation}

/-! ## 1. The walk -/

/-- A directory the walk passes. -/
structure Opened (config : EngineConfig) (system : TargetSystem) (key : TargetKey) : Prop where
  passed : ∃ entry, system.entry key = some entry ∧ entry.kind = .directory ∧
    entry.accessible = true ∧ entry.identity.userId = config.effectiveUserId ∧
    entry.identity.mode &&& 0o7022#32 = 0 ∧ config.insideState key = false

variable {key : TargetKey}

theorem openTargetDirectory_ok {op : String} {destination : TargetKey} {e : Entry}
    {ident : FileIdentity} (hentry : system.entry key = some e)
    (h : openTargetDirectory config op destination key e = .ok ident) :
    Opened config system key ∧ ident = e.identity := by
  unfold openTargetDirectory validateTargetDirectory at h
  simp only [bind_ok, exists_unit, reject_ok, pure_ok, not_or, not_not] at h
  obtain ⟨⟨hkind, haccessible⟩, ⟨-, huser, hmode⟩, hstate, rfl⟩ := h
  exact ⟨⟨e, hentry, hkind, by simpa using haccessible, huser, hmode, by simpa using hstate⟩,
    rfl⟩

theorem walkParents_split :
    ∀ {paths : List Text} {ancestors : List FileIdentity} {cur : FileIdentity}
      {traversal : Traversal},
      walkParents config system key paths ancestors cur = .ok traversal →
      ∃ passed missing, paths = passed ++ missing ∧
        traversal.missingAncestors = missing.length ∧
        (∀ path ∈ passed, Opened config system (key.1, path)) ∧
        ∀ path ∈ missing.head?, system.entry (key.1, path) = none
  | [], _, _, _, h => by
    cases h
    exact ⟨[], [], rfl, rfl, by simp, by simp⟩
  | path :: rest, ancestors, cur, traversal, h => by
    unfold walkParents at h
    split at h
    · rename_i hnone
      cases h
      exact ⟨[], path :: rest, rfl, rfl, by simp, by simpa using hnone⟩
    · rename_i e hentry
      rw [bind_ok] at h
      obtain ⟨ident, hopened, hrest⟩ := h
      obtain ⟨passed, missing, rfl, hcount, hpassed, hfirst⟩ := walkParents_split hrest
      refine ⟨path :: passed, missing, rfl, hcount, ?_, hfirst⟩
      intro cand hcand
      rcases mem_cons.1 hcand with rfl | hcand
      · exact (openTargetDirectory_ok hentry hopened).1
      · exact hpassed cand hcand

section

variable {paths : List Text} {ancestors : List FileIdentity} {cur : FileIdentity}
  {traversal : Traversal}
  (h : walkParents config system key paths ancestors cur = .ok traversal)
include h

theorem walkParents_opened (hmiss : traversal.missingAncestors = 0) :
    ∀ path ∈ paths, Opened config system (key.1, path) := by
  obtain ⟨passed, missing, rfl, hcount, hpassed, -⟩ := walkParents_split h
  obtain rfl : missing = [] := length_eq_zero_iff.1 (hcount.symm.trans hmiss)
  rw [append_nil]
  exact hpassed

theorem walkParents_missing
    (hexists : ∀ path ∈ paths, (system.entry (key.1, path)).isSome = true) :
    traversal.missingAncestors = 0 := by
  obtain ⟨passed, missing, rfl, hcount, -, hfirst⟩ := walkParents_split h
  cases missing with
  | nil => exact hcount
  | cons path missing =>
    have hpath := hexists path (mem_append_right _ mem_cons_self)
    rw [hfirst path rfl] at hpath
    cases hpath

end

/-! ## 2. The probes -/

theorem probeFrom_of_opened :
    ∀ {paths : List Text}, (∀ path ∈ paths, Opened config system (key.1, path)) →
      system.probeFrom key paths = if (system.entry key).isSome then .found else .notFound
  | [], _ => rfl
  | path :: rest, h => by
    obtain ⟨e, hentry, hkind, haccessible, -⟩ := (h path mem_cons_self).passed
    unfold TargetSystem.probeFrom
    rw [hentry]
    simp only [hkind, haccessible, ↓reduceIte]
    exact probeFrom_of_opened fun cand hcand =>
      h cand (mem_cons_of_mem _ hcand)

theorem readFrom_of_opened :
    ∀ {paths : List Text}, (∀ path ∈ paths, Opened config system (key.1, path)) →
      system.readFrom key paths = (system.entry key).bind (system.readEntry key)
  | [], _ => rfl
  | path :: rest, h => by
    obtain ⟨e, hentry, hkind, haccessible, -⟩ := (h path mem_cons_self).passed
    unfold TargetSystem.readFrom
    rw [hentry]
    simp only [hkind, haccessible, ↓reduceIte]
    exact readFrom_of_opened fun cand hcand =>
      h cand (mem_cons_of_mem _ hcand)

/-! ## 3. Observations -/

theorem ne_nil_of_validateRelativePath {path : Text} (h : validateRelativePath path = .ok ()) :
    path ≠ [] := by
  rintro rfl
  cases h

/-- What a successful observation of a destination says. -/
structure ObservedAt (config : EngineConfig) (system : TargetSystem)
    (previous : Option StateGeneration) (operation : PrepareOperation)
    (observation : TargetObservation) : Prop where
  key : observation.key = operation.key
  authority : operation.key.1 ∈ config.targetAuthorities
  path : operation.key.2 ≠ []
  leaf : observation.leaf = leafObservation (system.entry operation.key)
  above : (system.entry operation.key).isSome = true →
    ∀ path ∈ directoriesAbove operation.key.2, Opened config system (operation.key.1, path)
  policy : validateLeafForOperation config operation (system.entry operation.key)
    (previousOwnsTarget previous operation.key) = .ok ()
  directory : ∀ entry, system.entry operation.key = some entry → entry.kind = .directory →
    validateDirectoryLeaf config system previous operation entry = .ok ()

theorem observeTarget_ok {op : PrepareOperation}
    (h : observeTarget config system prev op = .ok obs) :
    ObservedAt config system prev op obs := by
  unfold observeTarget at h
  simp only [bind_ok, exists_unit, reject_ok, require_ok, asRecordError, mapError_ok, not_not] at h
  obtain ⟨hauth, -, root, hroot, anchor, hanchor, traversal, hwalk, hpolicy, hdir,
    hobs⟩ := h
  unfold withMissingAncestors at hobs
  simp only [bind_ok, exists_unit, pure_ok] at hobs
  obtain ⟨hpath, -, -, -, rfl⟩ := hobs
  have hne := ne_nil_of_validateRelativePath hpath
  -- An e below the root has its directories, so the walk did not stop early.
  have hmiss : (system.entry op.key).isSome = true →
      traversal.missingAncestors = 0 := by
    intro hsome
    obtain ⟨e, hentry⟩ := isSome_iff_exists.1 hsome
    refine walkParents_missing hwalk fun path hpath => ?_
    obtain ⟨dir, hdir, -⟩ :=
      TargetSystem.directory_above hentry hne (mem_cons_of_mem _ hpath)
    rw [hdir]
    rfl
  have hleaf : leafAfter system op.key traversal = system.entry op.key := by
    unfold leafAfter
    cases hentry : system.entry op.key with
    | none => simp
    | some e =>
      have := hmiss (by rw [hentry]; rfl)
      simp [this]
  rw [hleaf] at hpolicy hdir
  refine ⟨rfl, hauth, hne, ?_, ?_, hpolicy, ?_⟩
  · show leafObservation (leafAfter system op.key traversal) = _
    rw [hleaf]
  · intro hsome path hpath
    rcases mem_cons.1 hpath with rfl | hpath
    · exact (openTargetDirectory_ok hroot hanchor).1
    · exact walkParents_opened hwalk (hmiss hsome) path hpath
  · intro e hentry hkind
    rw [hentry, filter_some, if_pos (by simpa using hkind)] at hdir
    exact hdir

namespace ObservedAt

variable {op : PrepareOperation} {obs : TargetObservation}

section

variable (h : ObservedAt config system prev op obs)
include h

theorem isPresent : obs.leaf.isPresent = (system.entry op.key).isSome := by
  rw [h.leaf]
  cases system.entry op.key <;> rfl

theorem leafExists (hsome : (system.entry op.key).isSome = true) :
    targetLeafExists config system op.key = true := by
  have hprobe : system.probe op.key = .found := by
    unfold TargetSystem.probe
    rw [probeFrom_of_opened (h.above hsome), if_pos hsome]
  simp [targetLeafExists, hprobe]

theorem absent_of_not_leafExists (hexists : targetLeafExists config system op.key = false) :
    system.entry op.key = none := by
  cases hentry : system.entry op.key with
  | none => rfl
  | some e =>
    have := h.leafExists (by rw [hentry]; rfl)
    rw [hexists] at this
    cases this

end

end ObservedAt

/-! ## 4. Operations -/

theorem checked_ok {op r : PrepareOperation} (h : op.checked = .ok r) :
    r = op := by
  unfold PrepareOperation.checked at h
  simp only [bind_ok, exists_unit, pure_ok] at h
  exact h.2.2.symm

theorem targetStateView_ok {s : StateTargetState} {view : PrepareTargetState}
    (h : targetStateView s = .ok view) :
    (∃ file, s = .file (some file) ∧ view = .file file.digest file.byteLen file.mode) ∨
      (∃ dir, s = .directory (some dir) ∧ view = .directory dir.mode) ∨
      (∃ symlink, s = .symlink (some symlink) ∧ view = .symlink symlink.object) ∨
      ∃ tree, s = .tree (some tree) ∧ view = .tree tree.tree tree.archiveProvenance := by
  rcases s with (_ | file) | (_ | dir) | (_ | symlink) | (_ | tree) <;>
    simp only [targetStateView, bind_ok, exists_unit, pure_ok, ok.injEq, reduceCtorEq] at h
  · exact .inl ⟨file, rfl, h.2.symm⟩
  · exact .inr (.inl ⟨dir, rfl, h.2.symm⟩)
  · exact .inr (.inr (.inl ⟨symlink, rfl, h.symm⟩))
  · exact .inr (.inr (.inr ⟨tree, rfl, h.symm⟩))

theorem observeOperation_ok {req : PrepareOperation}
    (h : observeOperation config system prev req = .ok op) :
    ∃ obs, ObservedAt config system prev req obs ∧
      preparedOperation prev obs req = .ok op := by
  unfold observeOperation at h
  rw [bind_ok] at h
  obtain ⟨obs, hobserve, hprep⟩ := h
  exact ⟨obs, observeTarget_ok hobserve, hprep⟩

theorem observation_of_prepared {req : PrepareOperation}
    (h : preparedOperation prev obs req = .ok op) :
    op.observation = obs := by
  unfold preparedOperation at h
  split at h
  · split at h
    · simp only [bind_ok, exists_unit, pure_ok] at h
      rw [← h.2]
      rfl
    · cases h
      rfl
  all_goals
    simp only [bind_ok, exists_unit, pure_ok, ok.injEq] at h
  · rw [← h]
    rfl
  · rw [← h]
    rfl
  · rw [← h.2]
    rfl
  · rw [← h]
    rfl
  · rw [← h]
    rfl
  · obtain ⟨s, -, rfl⟩ := h
    rfl

end Malm.Engine
