/-
Malm.Commit.OutcomeTheorems — what an accepted manifest leaves behind.

The manifest pairs every required mutation with the one op at its
destination (`manifest_pairs`). An op that matches its mutation and passes
the final verification leaves the state the mutation asks for (`paired_outcome`).
-/
import Malm.Commit.ApplyTheorems
import Malm.Store.MutationTheorems

namespace Malm.Commit

open Store Target Checks List Option Except

variable {op : PreparedOperation} {required : List RequiredTargetMutation}
  {mutation : RequiredTargetMutation}

/-! ## 1. The manifest -/

variable {prev : Option EffectiveState} {nextLifecycle : LifecycleState}
  {next : DesiredSnapshot} {operations : List PreparedOperation}

section Manifest

variable {artifacts : List PreparedArtifact}

/-- An operation and the mutation it stands for. -/
structure Pairs (previous : Option EffectiveState) (artifacts : List PreparedArtifact)
    (mutation : RequiredTargetMutation) (operation : PreparedOperation) : Prop where
  key : mutation.key = operation.key
  asserts : operation.isAssertAbsent = false
  matched : ∃ structuralDirectory, requiredOperationMatches mutation operation
    (effectiveTargetIsPresent previous operation.key) structuralDirectory
    (artifacts.find? fun artifact => some artifact.id = operation.artifactId) = true

theorem manifest_pairs
    (h : validateOperationManifest prev nextLifecycle next artifacts operations = .ok ()) :
    ∃ required, requiredTargetMutations prev nextLifecycle next = .ok required ∧
      (artifacts.map PreparedArtifact.id).Nodup ∧
      (operations.map PreparedOperation.key).Nodup ∧
      (∀ mutation ∈ required, ∃ op ∈ operations,
        Pairs prev artifacts mutation op) ∧
      ∀ op ∈ operations, op.isAssertAbsent = false →
        ∃ mutation ∈ required, Pairs prev artifacts mutation op := by
  simp only [validateOperationManifest, asState, bind_ok, exists_unit, mapError_ok, reject_ok,
    rejectDuplicates_ok, forM_ok, rejectSome_ok, not_not] at h
  obtain ⟨-, hkeys, -, -, required, hrequired, hartifacts, hoperations, hmiss⟩ := h
  have hpairs : ∀ op ∈ operations, op.isAssertAbsent = false →
      ∃ mutation ∈ required, Pairs prev artifacts mutation op := by
    intro op hop hasserts
    have hvalid := hoperations op hop
    simp only [validateManifestOperation, hasserts, Bool.false_eq_true, ↓reduceIte,
      validateRequiredOperation, bind_ok, exists_unit, require_ok, reject_ok, not_not] at hvalid
    obtain ⟨mutation, hfound, -, hmatched⟩ := hvalid
    have hkey : mutation.key = op.key := by simpa using List.find?_some hfound
    exact ⟨mutation, List.mem_of_find?_eq_some hfound, hkey, hasserts, _, hmatched⟩
  refine ⟨required, hrequired, hartifacts, hkeys, ?_, hpairs⟩
  intro mutation hmutation
  have hsatisfied := List.find?_eq_none.1 hmiss mutation hmutation
  simp only [decide_eq_true_eq, not_not, List.mem_map, mem_filter, Bool.not_eq_true'] at hsatisfied
  obtain ⟨op, ⟨hop, hasserts⟩, hkey⟩ := hsatisfied
  obtain ⟨other, hother, hpair⟩ := hpairs op hop hasserts
  have hsame : other = mutation :=
    inj_on_of_nodup_map (required_keys_nodup hrequired) hother hmutation
      (hpair.key.trans hkey)
  exact ⟨op, hop, hsame ▸ hpair⟩

def mutationState : RequiredTargetMutation → Option StateTargetState
  | .ensureDirectory _ _ mode => some (.directory (some ⟨mode⟩))
  | .placeFile _ _ digest byteLen mode => some (.file (some ⟨digest, byteLen, mode⟩))
  | .placeSymlink _ _ object => some (.symlink (some ⟨object⟩))
  | .placeTree _ _ tree archiveProvenance => some (.tree (some ⟨tree, archiveProvenance⟩))
  | .removeLeaf _ _ => none
  | .assertExact _ _ state => some state

theorem mutationState_required
    (h : requiredTargetMutations prev nextLifecycle next = .ok required)
    (hmem : mutation ∈ required) :
    effectiveTarget (some (nextLifecycle, next)) mutation.key = mutationState mutation := by
  rw [← applyMutation_required h hmem]
  have hexp := (mem_required h).1 hmem
  cases mutation with
  | assertExact auth path state =>
    show effectiveTarget prev (auth, path) = some state
    have hkey : RequiredTargetMutation.key (.assertExact auth path state) =
        (auth, path) := rfl
    rw [hkey] at hexp
    cases hafter : effectiveTarget (some (nextLifecycle, next)) (auth, path) with
    | some after =>
      rw [hafter, expectedMutation_some] at hexp
      split at hexp
      · rename_i hsame
        rw [hsame]
        cases hexp
        rfl
      · have hpres := effectiveTarget_isPresent hafter
        rcases after with (_ | _) | (_ | _) | (_ | _) | (_ | _) <;> cases hexp
    | none =>
      rw [hafter] at hexp
      cases hbefore : effectiveTarget prev (auth, path) with
      | none =>
        rw [hbefore] at hexp
        cases hexp
      | some before =>
        rw [hbefore, expectedMutation_removed] at hexp
        split at hexp <;> cases hexp
  | _ => exact Function.update_self _ _ _

end Manifest

/-! ## 2. One operation -/

def operationState (artifact : Option PreparedArtifact) :
    PreparedOperation → Option StateTargetState
  | .ensureDirectory _ mode => some (.directory (some ⟨mode⟩))
  | .placeFile _ _ mode _ =>
    artifact.map fun artifact => .file (some ⟨artifact.digest, artifact.byteLen, mode⟩)
  | .placeSymlink _ object _ => some (.symlink (some ⟨object⟩))
  | .placeTree _ tree archiveProvenance _ => some (.tree (some ⟨tree, archiveProvenance⟩))
  | .removeLeaf _ => none
  | .assertAbsent _ => none
  | .assertExact _ state => some state

theorem matched_state {beforePresent structuralDirectory : Bool}
    {art : Option PreparedArtifact}
    (h : requiredOperationMatches mutation op beforePresent structuralDirectory art =
      true) : mutationState mutation = operationState art op := by
  cases op with
  | ensureDirectory obs mode =>
    rcases mutation with _ | _ | _ | _ | _ | ⟨_, _, (_ | _) | (_ | ⟨_⟩) | (_ | _) | (_ | _)⟩ <;>
      simp_all [requiredOperationMatches, mutationState, operationState]
  | assertExact obs state =>
    cases mutation with
    | ensureDirectory auth path mode =>
      rcases state with _ | (_ | directory) | _ | _ <;>
        simp only [requiredOperationMatches, Bool.false_eq_true, Bool.and_eq_true,
          decide_eq_true_eq] at h
      obtain ⟨-, rfl⟩ := h
      rfl
    | assertExact auth path requiredState =>
      rcases requiredState with (_ | _) | (_ | _) | (_ | _) | (_ | _) <;>
        simp_all [requiredOperationMatches, mutationState, operationState]
    | _ => simp [requiredOperationMatches] at h
  | _ =>
    rcases mutation with _ | _ | _ | _ | _ | ⟨_, _, (_ | _) | (_ | _) | (_ | _) | (_ | _)⟩ <;>
      cases art <;> simp_all [requiredOperationMatches, mutationState, operationState]

variable {objects : CanonicalObjects} {uid : Nat} {blobs : List (ArtifactId × Contents)}
  {system : TargetSystem} {key : TargetKey}

section Verified

variable {state : ApplyState}

/-- The target system has a managed state at a path, or nothing. -/
def HasState (objects : CanonicalObjects) (uid : Nat) (system : TargetSystem) (key : TargetKey) :
    Option StateTargetState → Prop
  | some state => requireTargetState objects uid system key state = .ok ()
  | none => system.entry key = none

theorem requireDirectoryState_of_managed {mode : BitVec 32}
    (h : requireManagedDirectory uid system key mode = .ok ()) :
    requireDirectoryState uid system key mode = .ok () := by
  simp only [requireManagedDirectory, requireDirectoryState, bind_ok, exists_unit,
    require_ok, reject_ok, not_or, not_not] at h ⊢
  obtain ⟨entry, hentry, ⟨hkind, haccessible⟩, huid, hmode⟩ := h
  refine ⟨entry, hentry, ⟨?_, huid, hmode⟩, haccessible⟩
  rw [hkind]
  rfl

theorem verified_state {art : Option PreparedArtifact}
    (hverified : verifyApplied objects uid blobs state op = .ok ())
    (hartifact : ∀ artifactId data, op.artifactId = some artifactId →
      artifactContents blobs artifactId = .ok data →
        art.map (fun art => (⟨art.digest, art.byteLen⟩ : Contents)) =
          some data)
    (hremoved : op.isAssertAbsent = false → operationState art op = none →
      state.system.entry op.key = none) (hasserts : op.isAssertAbsent = false) :
    HasState objects uid state.system op.key (operationState art op) := by
  cases op with
  | ensureDirectory obs mode => exact requireDirectoryState_of_managed hverified
  | placeFile obs artifactId mode replaceExisting =>
    simp only [verifyApplied, bind_ok] at hverified
    obtain ⟨data, hcontents, hleaf⟩ := hverified
    obtain ⟨found, rfl, hfound⟩ :=
      map_eq_some_iff.1 (hartifact artifactId data rfl hcontents)
    rw [← hfound] at hleaf
    show requireStateFile uid state.system _ _ = .ok ()
    simp only [requireLeafBytes, requireStateFile, requireFile, bind_ok, exists_unit,
      require_ok, reject_ok] at hleaf ⊢
    exact hleaf
  | placeSymlink obs obj replaceExisting => exact hverified
  | placeTree obs tree prov replaceExisting => exact hverified
  | removeLeaf obs => exact hremoved rfl rfl
  | assertAbsent obs => cases hasserts
  | assertExact obs expected =>
    simp only [verifyApplied, bind_ok, exists_unit] at hverified
    exact hverified.1

end Verified

/-! ## 3. The whole commit -/

variable {stamps : TargetKey → Stamp} {prior : Option StateGeneration} {final : TargetSystem}

section Applied

variable {entry : Entry}

theorem renameToBackup_keeps (h : (renameToBackup system op).entry key = some entry) :
    system.entry key = some entry := by
  have hunlink : ∀ leaf, (unlinkEntry system leaf).entry key = some entry →
      system.entry key = some entry := by
    intro leaf hleaf
    unfold unlinkEntry at hleaf
    split at hleaf
    · rw [TargetSystem.entry_remove] at hleaf
      split at hleaf
      · cases hleaf
      · exact hleaf
    · exact hleaf
  cases op with
  | placeFile obs artifactId mode replaceExisting => exact hunlink _ h
  | removeLeaf obs =>
    simp only [renameToBackup] at h
    split at h
    · exact hunlink _ h
    · exact h
  | _ => exact h

theorem foldl_renameToBackup_keeps :
    ∀ {operations : List PreparedOperation} {system : TargetSystem},
      (operations.foldl renameToBackup system).entry key = some entry →
        system.entry key = some entry := by
  intro operations
  induction operations with
  | nil =>
    intro system h
    exact h
  | cons first rest ih =>
    intro system h
    exact renameToBackup_keeps (ih h)

theorem renameIntoPlace_directory {next : TargetSystem}
    (h : renameIntoPlace uid stamps blobs system op = .ok next)
    (hentry : next.entry key = some entry) (hkind : entry.kind = .directory) :
    system.entry key = some entry := by
  cases op with
  | placeFile obs artifactId mode replaceExisting =>
    simp only [renameIntoPlace, bind_ok, placeEntry] at h
    obtain ⟨data, -, hplaced⟩ := h
    split at hplaced
    · obtain rfl := ok.inj hplaced
      rw [TargetSystem.entry_replace] at hentry
      split at hentry
      · obtain rfl := some.inj hentry
        cases hkind
      · split at hentry
        · cases hentry
        · exact hentry
    · cases hplaced
  | _ =>
    obtain rfl := ok.inj h
    exact hentry

theorem foldlM_renameIntoPlace_directory :
    ∀ {operations : List PreparedOperation} {system next : TargetSystem},
      operations.foldlM (renameIntoPlace uid stamps blobs) system = .ok next →
        next.entry key = some entry → entry.kind = .directory → system.entry key = some entry := by
  intro operations
  induction operations with
  | nil =>
    intro system next h hentry _
    obtain rfl := ok.inj h
    exact hentry
  | cons first rest ih =>
    intro system next h hentry hkind
    rw [foldlM_cons, bind_ok] at h
    obtain ⟨mid, hfirst, hrest⟩ := h
    exact renameIntoPlace_directory hfirst (ih hrest hentry hkind) hkind

theorem applyTargets_ok
    (h : applyTargets objects uid stamps prior blobs operations system = .ok final) :
    ∃ state : ApplyState, (∀ op ∈ operations, revalidatePhased state op = .ok ()) ∧
      (∀ key entry, final.entry key = some entry → entry.kind = .directory →
        state.system.entry key = some entry) ∧
      ∀ op ∈ operations,
        verifyApplied objects uid blobs { state with system := final } op = .ok () := by
  simp only [applyTargets, bind_ok, exists_unit, pure_ok, forM_ok] at h
  obtain ⟨-, state, -, hphased, -, placed, hplaced, hverified, rfl⟩ := h
  refine ⟨state, hphased, ?_, hverified⟩
  intro key entry hentry hkind
  exact foldl_renameToBackup_keeps (foldlM_renameIntoPlace_directory hplaced hentry hkind)

/-- After a removal nothing is at its destination, nor below the directories it looked through. -/
theorem removed_absent {state : ApplyState} {obs : TargetObservation}
    (hphased : revalidatePhased state (.removeLeaf obs) = .ok ())
    (hdirs : ∀ key entry, final.entry key = some entry → entry.kind = .directory →
      state.system.entry key = some entry)
    (hverified : verifyApplied objects uid blobs { state with system := final }
      (.removeLeaf obs) = .ok ()) : final.entry obs.key = none := by
  simp only [verifyApplied, requireEntryAbsent, reject_ok, Bool.not_eq_true,
    isSome_eq_false_iff, isNone_iff_eq_none] at hverified
  cases hpend : pendingPrefixes state.created obs with
  | nil =>
    rw [pinnedLeaf, hpend] at hverified
    exact hverified
  | cons head rest =>
    have hmem : head ∈ pendingPrefixes state.created obs := by
      rw [hpend]
      exact mem_cons_self
    have hhead := pendingPrefixes_above hmem
    simp only [revalidatePhased, isCanonicalPlacement, when_ok, bind_ok,
      exists_unit, revalidate, revalidateBindings, whenSome_ok, reject_ok,
      forall_const, Bool.not_eq_true, isSome_eq_false_iff, isNone_iff_eq_none]
      at hphased
    obtain ⟨-, ⟨-, habsent⟩, -⟩ := hphased
    have hmiss : state.system.entry (obs.authority, head) = none := by
      refine habsent head ?_
      show (pendingPrefixes state.created obs).head? = some head
      rw [hpend]
      rfl
    cases hfinal : final.entry obs.key with
    | none => rfl
    | some entry =>
      have hpath : obs.key.2 ≠ [] := by
        intro hnil
        have hempty : obs.relativePath = [] := hnil
        rw [hempty] at hhead
        cases hhead
      obtain ⟨dir, hdirectory, hkind⟩ := TargetSystem.directory_above hfinal hpath
        (mem_cons_of_mem _ hhead)
      have hbefore : state.system.entry (obs.authority, head) = some dir :=
        hdirs _ dir hdirectory hkind
      rw [hmiss] at hbefore
      cases hbefore

theorem loadArtifact_some {store : ObjectStore} {referenced : List ArtifactId}
    {art : PreparedArtifact} {loaded : ArtifactId × Contents}
    (h : loadArtifact store referenced art = .ok (some loaded)) :
    loaded = (art.id, ⟨art.digest, art.byteLen⟩) := by
  unfold loadArtifact at h
  split at h
  · simp only [bind_ok, pure_ok, reduceCtorEq, and_false, exists_false] at h
  · simp only [bind_ok, exists_unit, reject_ok, pure_ok, not_not, some.injEq] at h
    obtain ⟨-, -, data, -, hdigest, hlen, rfl⟩ := h
    rw [← hdigest, ← hlen]

theorem loaded_artifact {store : ObjectStore} {prepared : PreparedRecord}
    (hloaded : loadAllArtifacts store prepared = .ok blobs)
    (hnodup : (prepared.artifacts.map PreparedArtifact.id).Nodup)
    {artifactId : ArtifactId} {data : Contents}
    (hcontents : artifactContents blobs artifactId = .ok data) :
    (prepared.artifacts.find? fun art => some art.id = some artifactId).map
      (fun art => (⟨art.digest, art.byteLen⟩ : Contents)) = some data := by
  simp only [loadAllArtifacts, bind_ok, pure_ok] at hloaded
  obtain ⟨loaded, hmap, rfl⟩ := hloaded
  simp only [artifactContents, require_ok, map_eq_some_iff] at hcontents
  obtain ⟨⟨name, bytes⟩, hfound, rfl⟩ := hcontents
  have hname : name = artifactId := by simpa using List.find?_some hfound
  obtain ⟨v, hvalue, hsome⟩ := mem_filterMap.1 (List.mem_of_find?_eq_some hfound)
  obtain rfl : v = some (name, bytes) := hsome
  obtain ⟨art, hartifact, hload⟩ := exists_left_of_forall₂ (mapM_forall₂ hmap) hvalue
  obtain ⟨rfl, rfl⟩ := Prod.mk.inj (loadArtifact_some hload)
  subst hname
  cases hfind : prepared.artifacts.find? fun cand => some cand.id = some art.id with
  | none =>
    have hnone := List.find?_eq_none.1 hfind art hartifact
    simp at hnone
  | some other =>
    have hsame : other.id = art.id := by simpa using List.find?_some hfind
    obtain rfl := inj_on_of_nodup_map hnodup (List.mem_of_find?_eq_some hfind) hartifact hsame
    rfl

end Applied

/-! ## 4. The outcome of a manifest -/

section Outcome

variable {store : ObjectStore} {prepared : PreparedRecord}

theorem paired_outcome
    (hrequired : requiredTargetMutations prev nextLifecycle next = .ok required)
    (hmutation : mutation ∈ required) (hop : op ∈ prepared.operations)
    (hpairs : Pairs prev prepared.artifacts mutation op)
    (hnodup : (prepared.artifacts.map PreparedArtifact.id).Nodup)
    (hloaded : loadAllArtifacts store prepared = .ok blobs)
    (happlied : applyTargets objects uid stamps prior blobs prepared.operations system =
      .ok final) :
    HasState objects uid final mutation.key
      (effectiveTarget (some (nextLifecycle, next)) mutation.key) := by
  obtain ⟨structuralDirectory, hmatched⟩ := hpairs.matched
  obtain ⟨state, hphased, hdirs, hverified⟩ := applyTargets_ok happlied
  rw [mutationState_required hrequired hmutation, matched_state hmatched, hpairs.key]
  have hfinal : verifyApplied objects uid blobs { state with system := final } op = .ok () :=
    hverified op hop
  refine verified_state hfinal ?_ ?_ hpairs.asserts
  · intro artifactId data hname hcontents
    rw [hname]
    exact loaded_artifact hloaded hnodup hcontents
  · intro _ hnone
    cases op with
    | removeLeaf obs =>
      exact removed_absent (hphased _ hop) hdirs (hverified _ hop)
    | placeFile obs artifactId mode replaceExisting =>
      -- A placed file has its artifact, so it leaves a state.
      have hplaced := hverified _ hop
      simp only [verifyApplied, bind_ok] at hplaced
      obtain ⟨data, hcontents, -⟩ := hplaced
      have hartifact := loaded_artifact hloaded hnodup hcontents
      obtain ⟨artifact, hfound, -⟩ := map_eq_some_iff.1 hartifact
      have hnamed : (prepared.artifacts.find? fun artifact =>
          some artifact.id = (PreparedOperation.placeFile obs artifactId mode
            replaceExisting).artifactId) = some artifact := hfound
      rw [hnamed] at hnone
      cases hnone
    | assertAbsent obs => exact absurd hpairs.asserts Bool.noConfusion
    | _ => cases hnone



end Outcome

end Malm.Commit
