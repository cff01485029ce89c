/-
Malm.Engine.Deployed — what the selected generations declare is on the targets.

A commit changes nothing outside the destinations of its operations
(`applyTargets_frame`), and no op of an admitted plan is at, above or below a claim
of another namespace. So what one namespace deployed is still there after the commits of
all the others, and after every prune.
-/
import Malm.Commit.OutcomeTheorems
import Malm.Commit.PruneTheorems
import Malm.Engine.UnmanagedRuns
import Malm.Store.ProjectionTheorems

namespace Malm.Commit

open Store Target Checks List Option Except

variable {objects : CanonicalObjects} {uid : Nat} {stamps : TargetKey → Stamp}
  {prior : Option StateGeneration} {blobs : List (ArtifactId × Contents)}
  {operations : List PreparedOperation} {op : PreparedOperation}
  {system next : TargetSystem} {key cand : TargetKey} {placed : Entry}

/-! ## 1. What a commit leaves alone -/

theorem placeEntry_ok (h : placeEntry system key placed = .ok next) :
    ∃ hkey hparents, next = system.replace key placed hkey hparents := by
  unfold placeEntry at h
  split at h
  · rename_i hplace
    exact ⟨hplace.1, hplace.2, (ok.inj h).symm⟩
  · cases h

theorem placeEntry_frame (h : placeEntry system key placed = .ok next)
    (hout : isWithin key cand = false) : next.entry cand = system.entry cand := by
  obtain ⟨hkey, hparents, rfl⟩ := placeEntry_ok h
  have hne : cand ≠ key := by
    intro hsame
    rw [hsame, isWithin_refl] at hout
    cases hout
  simp [TargetSystem.entry_replace, hne, hout]

theorem unlinkEntry_frame (hout : isWithin key cand = false) :
    (unlinkEntry system key).entry cand = system.entry cand := by
  unfold unlinkEntry
  split
  · simp [TargetSystem.entry_remove, hout]
  · rfl

theorem not_isWithin_inner {inner : TargetKey} (hout : isWithin key cand = false)
    (hinner : isWithin key inner = true) : isWithin inner cand = false := by
  cases hcand : isWithin inner cand with
  | false => rfl
  | true => rw [isWithin_trans hinner hcand] at hout; cases hout

theorem materializeTreeDirectory_frame {depthLeft : Nat} {d : Digest}
    (h : materializeTreeDirectory objects uid stamps depthLeft key d system = .ok next)
    (hout : isWithin key cand = false) : next.entry cand = system.entry cand := by
  induction depthLeft generalizing key d system next with
  | zero => cases h
  | succ depthLeft ih =>
    simp only [materializeTreeDirectory, bind_ok] at h
    obtain ⟨tree, -, root, hroot, hmembers⟩ := h
    obtain ⟨hkey, -, -⟩ := placeEntry_ok hroot
    rw [← placeEntry_frame hroot hout]
    refine foldlM_preserves (P := fun found => found.entry cand = root.entry cand) hmembers ?_ rfl
    intro member _ before after hbefore hstep
    have hchild := not_isWithin_inner hout (isWithin_joinPath hkey member.name)
    rw [← hbefore]
    cases hkind : member.kind with
    | file d byteLen =>
      simp only [hkind, bind_ok] at hstep
      obtain ⟨bytes, -, hplaced⟩ := hstep
      exact placeEntry_frame hplaced hchild
    | symlink d =>
      simp only [hkind, bind_ok] at hstep
      obtain ⟨t, -, hplaced⟩ := hstep
      exact placeEntry_frame hplaced hchild
    | directory d =>
      rw [hkind] at hstep
      exact ih hstep hchild

theorem publishStagedEntry_ok {before : Option StateTargetState} {state : ApplyState}
    {place : TargetSystem → Except CommitError TargetSystem}
    (h : publishStagedEntry objects uid before op state place = .ok next) :
    place state.system = .ok next := by
  simp only [publishStagedEntry, bind_ok, exists_unit] at h
  exact h.2.2

theorem applyCanonical_frame {state after : ApplyState}
    (h : applyCanonical objects uid stamps prior state op = .ok after)
    (hout : op.isAssertAbsent = false → isWithin op.key cand = false) :
    after.system.entry cand = state.system.entry cand := by
  cases op with
  | ensureDirectory obs mode =>
    simp only [applyCanonical, applyDirectory, bind_ok, exists_unit, pure_ok] at h
    obtain ⟨placed, hplaced, -, rfl⟩ := h
    exact placeEntry_frame (publishStagedEntry_ok hplaced) (hout rfl)
  | placeSymlink obs obj replaceExisting =>
    simp only [applyCanonical, bind_ok, pure_ok] at h
    obtain ⟨t, -, placed, hplaced, rfl⟩ := h
    exact placeEntry_frame (publishStagedEntry_ok hplaced) (hout rfl)
  | placeTree obs tree prov replaceExisting =>
    simp only [applyCanonical, bind_ok, pure_ok] at h
    obtain ⟨placed, hplaced, rfl⟩ := h
    exact materializeTreeDirectory_frame (publishStagedEntry_ok hplaced) (hout rfl)
  | assertAbsent obs =>
    simp only [applyCanonical, bind_ok, exists_unit, pure_ok] at h
    rw [h.2.2]
  | _ =>
    obtain rfl := ok.inj h
    rfl

theorem renameToBackup_frame
    (hout : op.isAssertAbsent = false → isWithin op.key cand = false) :
    (renameToBackup system op).entry cand = system.entry cand := by
  cases op with
  | placeFile obs artifactId mode replaceExisting => exact unlinkEntry_frame (hout rfl)
  | removeLeaf obs =>
    simp only [renameToBackup]
    split
    · exact unlinkEntry_frame (hout rfl)
    · rfl
  | _ => rfl

theorem renameIntoPlace_frame (h : renameIntoPlace uid stamps blobs system op = .ok next)
    (hout : op.isAssertAbsent = false → isWithin op.key cand = false) :
    next.entry cand = system.entry cand := by
  cases op with
  | placeFile obs artifactId mode replaceExisting =>
    simp only [renameIntoPlace, bind_ok] at h
    obtain ⟨data, -, hplaced⟩ := h
    exact placeEntry_frame hplaced (hout rfl)
  | _ =>
    obtain rfl := ok.inj h
    rfl

/-- **The frame of a commit**: what is not at or below a destination is as before. -/
theorem applyTargets_frame
    (h : applyTargets objects uid stamps prior blobs operations system = .ok next)
    (hout : ∀ op ∈ operations, op.isAssertAbsent = false →
      isWithin op.key cand = false) : next.entry cand = system.entry cand := by
  simp only [applyTargets, bind_ok, exists_unit, pure_ok] at h
  obtain ⟨-, state, hstate, -, -, placed, hplaced, -, rfl⟩ := h
  have hcanonical : state.system.entry cand = system.entry cand := by
    refine foldlM_preserves (P := fun found => found.system.entry cand = system.entry cand)
      hstate ?_ rfl
    intro item hitem before after hbefore hstep
    exact (applyCanonical_frame hstep (hout item hitem)).trans hbefore
  have hbackup : ∀ items : List PreparedOperation, items ⊆ operations → ∀ before : TargetSystem,
      (items.foldl renameToBackup before).entry cand = before.entry cand := by
    intro items
    induction items with
    | nil => exact fun _ _ => rfl
    | cons item rest ih =>
      intro hsubset before
      rw [foldl_cons, ih (fun _ hmem => hsubset (mem_cons_of_mem _ hmem)),
        renameToBackup_frame (hout item (hsubset mem_cons_self))]
  refine foldlM_preserves (P := fun found => found.entry cand = system.entry cand) hplaced ?_
    ((hbackup _ (List.Subset.refl _) _).trans hcanonical)
  intro item hitem before after hbefore hstep
  exact (renameIntoPlace_frame hstep (hout item hitem)).trans hbefore

/-! ## 2. The parts of a commit -/

theorem commitPlan_ok {codec : ObjectCodec} {machine : Machine} {store after : StoreState}
    {request : CommitRequest}
    (h : commitPlan codec machine uid stamps store system request = .ok (after, next)) :
    ∃ prepared prior blobs objects, Commits codec store prepared after ∧
      loadAllArtifacts store.objects prepared = .ok blobs ∧
      loadCanonicalObjects codec store.objects prepared prior = .ok objects ∧
      applyTargets objects uid stamps prior blobs prepared.operations system = .ok next := by
  simp only [commitPlan, bind_ok, pure_ok, Prod.exists] at h
  obtain ⟨prepared, tr, hadmitted, prior, -, blobs, hblobs, objects, hobjects, final,
    happlied, published, hpublished, hpair⟩ := h
  obtain ⟨rfl, rfl⟩ := Prod.mk.inj hpair
  refine ⟨prepared, prior, blobs, objects, ⟨machine, request, ?_⟩, hblobs, hobjects, happlied⟩
  simp only [commitStore, bind_ok, pure_ok]
  exact ⟨_, hadmitted, _, hpublished, rfl⟩

end Malm.Commit

namespace Malm.Engine

open Store Commit Target Checks List Relation

variable {codec : ObjectCodec} {machine : Machine} {uid : Nat} {stamps : TargetKey → Stamp}
  {system next : TargetSystem} {deployment after : Deployment} {target : StateTarget}
  {entry : NamespaceName × StateGeneration} {prepared : PreparedRecord} {planId : PreparedId}
  {tr : OwnedTransition} {ownership : CatalogOwnership} {budget : CanonicalLoadBudget}
  {objects : CanonicalObjects} {prior : Option StateGeneration}
  {blobs : List (ArtifactId × Contents)} {store : StoreState}

/-! ## 3. Deployed generations -/

/-- A target is there as declared, with the contents of valid objects of the declared digests. -/
structure Stands (codec : ObjectCodec) (uid : Nat) (system : TargetSystem) (target : StateTarget) :
    Prop where
  path : target.relativePath ≠ []
  state : ∃ store objects, StoredIn codec store objects ∧
    requireTargetState objects uid system target.key target.state = .ok ()

theorem Stands.congr (h : Stands codec uid system target)
    (hsame : SameWithin next system target.key) : Stands codec uid next target := by
  obtain ⟨store, objects, hstored, hstate⟩ := h.state
  refine ⟨h.path, store, objects, hstored, ?_⟩
  rw [requireTargetState_eq hsame.entry h.path target.state (.inl hsame), hstate]

/-- Every present target of every selected, enabled generation stands. -/
def Deployed (codec : ObjectCodec) (uid : Nat) (deployment : Deployment) : Prop :=
  ∀ entry ∈ deployment.store.selected, entry.2.lifecycle = .enabled →
    ∀ target ∈ entry.2.targets, target.isPresent = true →
      Stands codec uid deployment.system target

def claimedKey (claim : OwnershipClaim) : TargetKey := (claim.authority, claim.relativePath)

theorem claim_mem {selected : List (NamespaceName × StateGeneration)} (hentry : entry ∈ selected)
    (henabled : entry.2.lifecycle = .enabled) (htarget : target ∈ entry.2.targets)
    (hpresent : target.isPresent = true) :
    (⟨entry.1, target.authority, target.relativePath⟩ : OwnershipClaim) ∈
      presentClaims selected := by
  refine mem_flatMap.2 ⟨entry, hentry, ?_⟩
  simp only [generationClaims, LifecycleState.isEnabled_iff.2 henabled, ↓reduceIte, mem_map,
    mem_filter]
  exact ⟨target, ⟨htarget, hpresent⟩, rfl⟩

/-- What the program does to a deployment: commits, prunes, and other changes of the store that
keep the selected generations. -/
inductive MalmStep (codec : ObjectCodec) (uid : Nat) (deployment : Deployment) : Deployment → Prop
  | commit {machine : Machine} {stamps : TargetKey → Stamp} {request : CommitRequest}
      {store : StoreState} {system : TargetSystem}
      (accepted : commitPlan codec machine uid stamps deployment.store deployment.system request =
        .ok (store, system)) : MalmStep codec uid deployment ⟨store, system⟩
  | prune (machine : Machine) (request : PruneRequest) : MalmStep codec uid deployment
      ⟨attemptPrune codec machine deployment.store request, deployment.system⟩
  | store {store : StoreState} (keeps : store.selected = deployment.store.selected) :
      MalmStep codec uid deployment ⟨store, deployment.system⟩

/-- A step of the program, or a change of the target systems outside of all claimed paths. -/
inductive DeploymentStep (codec : ObjectCodec) (uid : Nat) (deployment : Deployment) :
    Deployment → Prop
  | malm {after : Deployment} (step : MalmStep codec uid deployment after) :
      DeploymentStep codec uid deployment after
  | outside {system : TargetSystem} (spares : ∀ claim ∈ presentClaims deployment.store.selected,
      SameWithin system deployment.system (claimedKey claim)) :
      DeploymentStep codec uid deployment ⟨deployment.store, system⟩

theorem commit_spares
    (hadmitted : Admitted codec machine store.objects store.catalog planId prepared tr
      ownership budget)
    (happlied : applyTargets objects uid stamps prior blobs prepared.operations system = .ok next)
    {claim : OwnershipClaim} (hclaim : claim ∈ presentClaims store.selected)
    (hother : claim.namespaceName ≠ prepared.namespaceName) :
    SameWithin next system (claimedKey claim) := by
  intro cand hwithin
  refine applyTargets_frame happlied fun op hop hasserts => ?_
  rw [Bool.eq_false_iff]
  intro hinside
  have hclaimed := isWithin_iff.1 hwithin
  have hoperation := isWithin_iff.1 hinside
  -- both paths are above the candidate, so one is above the other
  have hordered := prefix_or_prefix_of_prefix hclaimed.2 hoperation.2
  exact hother (hadmitted.operation_exclusive hop hasserts hclaim
    (hclaimed.1.symm.trans hoperation.1) hordered)

theorem published_stands {prev : Option StateGeneration} {head : Option Digest}
    {gen : StateGeneration} {store : ObjectStore}
    (hbuilt : fromPrepared codec.toCodec planId head prev prepared = .ok gen)
    (hblobs : loadAllArtifacts store prepared = .ok blobs)
    (hobjects : loadCanonicalObjects codec store prepared prior = .ok objects)
    (happlied : applyTargets objects uid stamps prior blobs prepared.operations system = .ok next)
    (henabled : gen.lifecycle = .enabled) (htarget : target ∈ gen.targets)
    (hpresent : target.isPresent = true) : Stands codec uid next target := by
  obtain ⟨rfl, -, -, hchecked, -, -⟩ := fromPrepared_builtFrom hbuilt
  simp only [validatePreparedTransition, bind_ok, exists_unit] at hchecked
  obtain ⟨-, hvalid, -, -, -, -, -, hmanifest⟩ := hchecked
  have hvalid := validateStateTargets_ok.1 hvalid
  have heffective : effectiveTarget (some (prepared.lifecycle, prepared.desiredSnapshot))
      target.key = some target.state :=
    effectiveTarget_of_mem (LifecycleState.isEnabled_iff.2 henabled) hvalid.ordered htarget hpresent
  obtain ⟨required, hrequired, hnodup, -, hmutations, -⟩ := manifest_pairs hmanifest
  have hmem : target.key ∈ required.map RequiredTargetMutation.key := by
    refine (mem_required_keys hrequired).2 ⟨.inr (by simp [heffective]), ?_⟩
    rintro ⟨-, hnone, -⟩
    rw [heffective] at hnone
    cases hnone
  obtain ⟨mutation, hmutation, hkey⟩ := mem_map.1 hmem
  obtain ⟨op, hop, hpairs⟩ := hmutations mutation hmutation
  have houtcome := paired_outcome hrequired hmutation hop hpairs hnodup hblobs happlied
  rw [hkey, heffective] at houtcome
  simp only [loadCanonicalObjects, bind_ok, pure_ok, Prod.exists] at hobjects
  obtain ⟨loaded, left, hloaded, rfl⟩ := hobjects
  have hpath := hvalid.paths target htarget
  rw [asState, mapError_ok] at hpath
  exact ⟨ne_nil_of_validateRelativePath hpath, _, _, (loadCanonicalRoots_closed hloaded).1.stored,
    houtcome⟩

theorem MalmStep.deployed (hstep : MalmStep codec uid deployment after)
    (h : Deployed codec uid deployment) : Deployed codec uid after := by
  intro entry hentry henabled target htarget hpresent
  cases hstep with
  | commit accepted =>
    obtain ⟨prepared, prior, blobs, objects, hcommits, hblobs, hobjects, happlied⟩ :=
      commitPlan_ok accepted
    obtain ⟨_, _, _, _, _, hadmitted, hcases⟩ := hcommits.cases
    have hother : entry ∈ deployment.store.selected → entry.1 ≠ prepared.namespaceName →
        Stands codec uid _ target := fun hmem hne =>
      (h entry hmem henabled target htarget hpresent).congr
        (commit_spares hadmitted happlied (claim_mem hmem henabled htarget hpresent) hne)
    rcases hcases with ⟨-, -, -, rfl⟩ | ⟨gen, -, hder, hpub⟩
    · obtain ⟨hmem, hne⟩ := mem_selected_removed hentry
      exact hother hmem hne
    · rcases hadmitted.mem_selected_published hder.catalog hpub hentry with rfl | ⟨hmem, hne⟩
      · exact published_stands hder.built hblobs hobjects happlied henabled htarget hpresent
      · exact hother hmem hne
  | prune machine request =>
    rw [attemptPrune_selected] at hentry
    exact h entry hentry henabled target htarget hpresent
  | store keeps => exact h entry (keeps ▸ hentry) henabled target htarget hpresent

theorem DeploymentStep.deployed (hstep : DeploymentStep codec uid deployment after)
    (h : Deployed codec uid deployment) : Deployed codec uid after := by
  cases hstep with
  | malm step => exact step.deployed h
  | outside spares =>
    intro entry hentry henabled target htarget hpresent
    exact (h entry hentry henabled target htarget hpresent).congr
      (spares _ (claim_mem hentry henabled htarget hpresent))

section Reconcile

variable {codec : PlanCodec} {config : EngineConfig} {input : ReconcileInput}
  (h : reconcile codec machine config input deployment = .ok after)
include h

/-- A reconciliation is a commit, on a store that selects the same generations. -/
theorem reconcile_commit :
    ∃ store : StoreState, store.selected = deployment.store.selected ∧
      MalmStep codec.toObjectCodec config.effectiveUserId
        ⟨store, input.system deployment.system⟩ after := by
  simp only [reconcile, bind_ok, asCommitError, mapError_ok, pure_ok, Prod.exists] at h
  obtain ⟨plan, -, objects, hobjects, store, system, hcommit, rfl⟩ := h
  have hkept : objects.generations = deployment.store.objects.generations :=
    (publishPlan_ok hobjects).1
  refine ⟨⟨objects, (input.store deployment.store).catalog⟩, filterMap_congr fun head _ => ?_,
    .commit hcommit⟩
  have hrecord : objects.record head.generation =
      deployment.store.objects.record head.generation := record_of_get? (by rw [hkept])
  rw [hrecord]

theorem reconcile_steps :
    ReflTransGen (DeploymentStep codec.toObjectCodec config.effectiveUserId) deployment
      after := by
  obtain ⟨store, hselected, hcommit⟩ := reconcile_commit h
  have houtside : DeploymentStep codec.toObjectCodec config.effectiveUserId
      ⟨store, deployment.system⟩ ⟨store, input.system deployment.system⟩ :=
    .outside fun _ _ _ _ => rfl
  exact .tail (.tail (.single (.malm (.store hselected))) houtside) (.malm hcommit)

end Reconcile

/-- **What is declared is deployed.** From an empty catalog on, whatever commits, prunes and outside
changes apart from all claims follow each other: every present target of every selected, enabled
generation is on the target systems, in its exact state. -/
theorem deployed_over_runs {objects : ObjectStore} {system : TargetSystem}
    (h : ReflTransGen (DeploymentStep codec uid) ⟨⟨objects, .empty⟩, system⟩
      deployment) : Deployed codec uid deployment := by
  induction h with
  | refl =>
    intro entry hentry
    simp [StoreState.selected, StateCatalog.empty] at hentry
  | tail before hstep ih => exact hstep.deployed ih

/-- The claimed file and the directory made for it. -/
theorem deployed_over_runs_sample :
    ∃ deployment : Deployment, (presentClaims deployment.store.selected).map claimedKey =
        [(['h'], ['d']), claimedFile] ∧
      Deployed samplePlanCodec.toObjectCodec 1000 deployment := by
  have hcheck : okAnd (reconcile samplePlanCodec sampleMachine homeConfig placingRequest
      ⟨⟨.empty, .empty⟩, emptyHome⟩) (fun placed =>
        (presentClaims placed.store.selected).map claimedKey = [(['h'], ['d']), claimedFile]) =
        true := by
    decide +kernel
  obtain ⟨placed, hplaced, hclaims⟩ := okAnd_iff.1 hcheck
  exact ⟨placed, of_decide_eq_true hclaims, deployed_over_runs (reconcile_steps hplaced)⟩

/-! ## 4. Unclaimed entries -/

theorem operation_claimed {op : PreparedOperation}
    (h : Admitted codec machine store.objects store.catalog planId prepared tr ownership
      budget) (hop : op ∈ prepared.operations) (hasserts : op.isAssertAbsent = false) :
    (∃ claim ∈ presentClaims store.selected, claimedKey claim = op.key) ∨
      prepared.lifecycle = .enabled ∧ ∃ target ∈ prepared.desiredSnapshot.targets,
        target.isPresent = true ∧ target.key = op.key := by
  have hchecked := h.lifecycle
  simp only [validatePreparedTransition, bind_ok, exists_unit] at hchecked
  obtain ⟨-, -, -, -, -, -, -, hmanifest⟩ := hchecked
  obtain ⟨required, hrequired, -, -, -, hpairs⟩ := manifest_pairs hmanifest
  obtain ⟨mutation, hmutation, hpair⟩ := hpairs op hop hasserts
  have hclaimed := ((mem_required_keys hrequired).1 (mem_map_of_mem hmutation)).1
  rw [hpair.key] at hclaimed
  rcases hclaimed with hbefore | hafter
  · obtain ⟨found, hfound⟩ := Option.ne_none_iff_exists'.1 hbefore
    obtain ⟨lifecycle, snapshot, target, hprevious, henabled, htarget, hkey, rfl⟩ :=
      mem_of_effectiveTarget hfound
    simp only [Option.map_map, Option.map_eq_some_iff, Function.comp_apply,
      Prod.mk.injEq] at hprevious
    obtain ⟨entry, hentry, rfl, rfl⟩ := hprevious
    have hentry := h.selected ▸ mem_of_find?_eq_some hentry
    exact .inl ⟨_, claim_mem hentry (LifecycleState.isEnabled_iff.1 henabled) htarget
      (effectiveTarget_isPresent hfound), hkey⟩
  · obtain ⟨found, hfound⟩ := Option.ne_none_iff_exists'.1 hafter
    obtain ⟨lifecycle, snapshot, target, hnext, henabled, htarget, hkey, rfl⟩ :=
      mem_of_effectiveTarget hfound
    cases hnext
    exact .inr ⟨LifecycleState.isEnabled_iff.1 henabled, target, htarget,
      effectiveTarget_isPresent hfound, hkey⟩

/-- Not at or below a claimed path. -/
def Unclaimed (key : TargetKey) (deployment : Deployment) : Prop :=
  ∀ claim ∈ presentClaims deployment.store.selected, isWithin (claimedKey claim) key = false

theorem MalmStep.untouched {key : TargetKey} (hstep : MalmStep codec uid deployment after)
    (hbefore : Unclaimed key deployment) (hafter : Unclaimed key after) :
    after.system.entry key = deployment.system.entry key := by
  cases hstep with
  | commit accepted =>
    obtain ⟨prepared, prior, blobs, objects, hcommits, -, -, happlied⟩ := commitPlan_ok accepted
    obtain ⟨_, _, _, _, _, hadmitted, hcases⟩ := hcommits.cases
    refine applyTargets_frame happlied fun op hop hasserts => ?_
    rcases operation_claimed hadmitted hop hasserts with
      ⟨claim, hclaim, hkey⟩ | ⟨henabled, target, htarget, hpresent, hkey⟩
    · exact hkey ▸ hbefore claim hclaim
    · rcases hcases with ⟨hremoval, -, -, rfl⟩ | ⟨gen, -, hder, hpub⟩
      · -- a removal declares nothing
        have hkind := (validatePreparedTransition_ok hadmitted.lifecycle).kind
        cases htransition : prepared.transition with
        | namespaceRemoval =>
          simp only [validatePreparedTransitionKind, htransition, bind_ok, reject_ok, not_or,
            not_not] at hkind
          obtain ⟨prev, -, -, hempty, -⟩ := hkind
          rw [desiredSnapshot_isEmpty hempty] at htarget
          cases htarget
        | _ =>
          rw [htransition] at hremoval
          cases hremoval
      · have hgeneration := (fromPrepared_builtFrom hder.built).generation_eq
        have hselected : (prepared.namespaceName, gen) ∈ StoreState.selected _ :=
          mem_selected.2 ⟨⟨_, _⟩, updateHead_heads hder.catalog ▸ StateCatalog.self_mem_upsert _,
            rfl, (publishImmutable_ok hpub).1⟩
        have hclaim := claim_mem hselected (hgeneration ▸ henabled) (hgeneration ▸ htarget) hpresent
        exact hkey ▸ hafter _ hclaim
  | prune machine request => rfl
  | store keeps => rfl

/-- **Nothing unclaimed is touched.** In a run of the program an entry is not created, changed or
removed while no selected generation claims a path at or above it. -/
theorem unclaimed_untouched {key : TargetKey} (hstart : Unclaimed key deployment)
    (h : ReflTransGen (fun before after => MalmStep codec uid before after ∧
      Unclaimed key after) deployment after) :
    after.system.entry key = deployment.system.entry key := by
  suffices hboth : Unclaimed key after ∧
      after.system.entry key = deployment.system.entry key from hboth.2
  induction h with
  | refl => exact ⟨hstart, rfl⟩
  | tail _ hstep ih => exact ⟨hstep.2, (hstep.1.untouched ih.1 hstep.2).trans ih.2⟩

def quietHome : TargetSystem where
  entries := (SortedMap.empty.insert (toLex (['h'], [])) privateDirectory).insert
    (toLex (['h'], ['d'])) privateDirectory
  resolved := fun _ => .failed
  readThrough := fun _ => none
  closed := by decide

theorem unmanagedKey_below : unmanagedKey.2 ≠ [] := by decide

/-- An empty store and a home with a file in a directory. -/
def quietDeployment : Deployment :=
  ⟨⟨.empty, .empty⟩, quietHome.replace unmanagedKey unmanagedFile unmanagedKey_below (by decide)⟩

/-- The file beside the claimed one. -/
theorem unclaimed_untouched_sample :
    ∃ start after : Deployment, MalmStep samplePlanCodec.toObjectCodec 1000 start after ∧
      presentClaims start.store.selected = [] ∧
      (presentClaims after.store.selected).map claimedKey = [claimedFile] ∧
      start.system.entry unmanagedKey = some unmanagedFile ∧
      after.system.entry unmanagedKey = start.system.entry unmanagedKey := by
  have hcheck : okAnd (reconcile samplePlanCodec sampleMachine homeConfig placingRequest
      quietDeployment) (fun placed =>
        (presentClaims placed.store.selected).map claimedKey = [claimedFile]) = true := by
    decide +kernel
  obtain ⟨placed, hplaced, hclaims⟩ := okAnd_iff.1 hcheck
  obtain ⟨store, hselected, hstep⟩ := reconcile_commit hplaced
  have hstart : presentClaims store.selected = [] := by rw [hselected]; rfl
  have hclaims := of_decide_eq_true hclaims
  have hafter : Unclaimed unmanagedKey placed := by
    intro claim hclaim
    have hkey := mem_map_of_mem (f := claimedKey) hclaim
    rw [hclaims, mem_singleton] at hkey
    rw [hkey]
    decide
  have hentry : quietDeployment.system.entry unmanagedKey = some unmanagedFile := rfl
  refine ⟨_, placed, hstep, hstart, hclaims, hentry,
    unclaimed_untouched ?_ (.single ⟨hstep, hafter⟩)⟩
  intro claim hclaim
  simp [hstart] at hclaim

/-! ## 5. Isolated namespaces -/

/-- The change of the store is a commit for the namespace. -/
def CommitsFor (codec : ObjectCodec) (name : NamespaceName) (store next : StoreState) : Prop :=
  ∃ prepared, prepared.namespaceName = name ∧ Commits codec store prepared next

theorem CommitsFor.of_new {name : NamespaceName} {next : StoreState}
    (h : CommitsFor codec name store next) (hentry : entry ∈ next.selected)
    (hnew : entry ∉ store.selected) : entry.1 = name := by
  obtain ⟨prepared, rfl, hcommits⟩ := h
  obtain ⟨_, _, _, _, _, hadmitted, hcases⟩ := hcommits.cases
  rcases hcases with ⟨-, -, -, rfl⟩ | ⟨gen, -, hder, hpub⟩
  · exact absurd (mem_selected_removed hentry).1 hnew
  · rcases hadmitted.mem_selected_published hder.catalog hpub hentry with rfl | ⟨hmem, -⟩
    · rfl
    · exact absurd hmem hnew

/-- The generation is selected after as before, and all at or below its claims is unchanged. -/
def Keeps (entry : NamespaceName × StateGeneration) (before after : Deployment) : Prop :=
  entry ∈ after.store.selected ∧ ∀ claim ∈ generationClaims entry.1 entry.2,
    SameWithin after.system before.system (claimedKey claim)

theorem MalmStep.keeps (hstep : MalmStep codec uid deployment after)
    (hforeign : ¬ CommitsFor codec entry.1 deployment.store after.store)
    (hentry : entry ∈ deployment.store.selected) : Keeps entry deployment after := by
  cases hstep with
  | commit accepted =>
    obtain ⟨prepared, prior, blobs, objects, hcommits, -, -, happlied⟩ := commitPlan_ok accepted
    obtain ⟨_, _, _, _, _, hadmitted, -⟩ := hcommits.cases
    have hne : entry.1 ≠ prepared.namespaceName := fun hsame =>
      hforeign ⟨prepared, hsame.symm, hcommits⟩
    refine ⟨hcommits.other_selected hne hentry, fun claim hclaim => ?_⟩
    refine commit_spares hadmitted happlied (mem_flatMap.2 ⟨entry, hentry, hclaim⟩) ?_
    rw [generationClaims_namespaceName claim hclaim]
    exact hne
  | prune machine request =>
    exact ⟨(attemptPrune_selected ..).symm ▸ hentry, fun _ _ _ _ => rfl⟩
  | store keeps => exact ⟨keeps ▸ hentry, fun _ _ _ _ => rfl⟩

/-- **Namespaces are isolated.** Through steps that commit nothing for a namespace, its generation
stays selected and nothing at or below its claims changes, declared or not. -/
theorem isolated_over_runs (hstart : entry ∈ deployment.store.selected)
    (h : ReflTransGen (fun before after => MalmStep codec uid before after ∧
      ¬ CommitsFor codec entry.1 before.store after.store) deployment after) :
    Keeps entry deployment after := by
  induction h with
  | refl => exact ⟨hstart, fun _ _ _ _ => rfl⟩
  | tail _ hstep ih =>
    obtain ⟨hkept, hsame⟩ := hstep.1.keeps hstep.2 ih.1
    exact ⟨hkept, fun claim hclaim cand hcand =>
      (hsame claim hclaim cand hcand).trans (ih.2 claim hclaim cand hcand)⟩

/-- A second namespace places a file beside the claimed directory. -/
def secondRequest : ReconcileInput :=
  let input := requestOn none [.placeFile ['h'] ['y'] ['a'] 0o600 false]
  { input with request := { input.request with namespaceName := ['v'] } }

theorem isolated_over_runs_sample :
    ∃ entry after, entry.1 = ['w'] ∧
      claimedFile ∈ (generationClaims entry.1 entry.2).map claimedKey ∧
      after.store.selected.map Prod.fst = [['v'], ['w']] ∧ Keeps entry placedDeployment after := by
  have hcheck : okAnd (reconcile samplePlanCodec sampleMachine homeConfig secondRequest
      placedDeployment) (fun next => next.store.selected.map Prod.fst = [['v'], ['w']] ∧
        (∃ new ∈ next.store.selected, new ∉ placedDeployment.store.selected ∧ new.1 = ['v']) ∧
        ∃ entry ∈ placedDeployment.store.selected, entry.1 = ['w'] ∧
          claimedFile ∈ (generationClaims entry.1 entry.2).map claimedKey) = true := by
    decide +kernel
  obtain ⟨after, hafter, hnext⟩ := okAnd_iff.1 hcheck
  obtain ⟨hnames, ⟨new, hmem, hnew, hv⟩, entry, hentry, hw, hclaims⟩ := of_decide_eq_true hnext
  obtain ⟨store, hselected, hstep⟩ := reconcile_commit hafter
  refine ⟨entry, after, hw, hclaims, hnames, ?_⟩
  have hforeign : ¬ CommitsFor samplePlanCodec.toObjectCodec entry.1 store after.store := by
    intro hcommits
    have hsame := hcommits.of_new hmem (hselected ▸ hnew)
    rw [hv, hw] at hsame
    exact absurd hsame (by decide)
  have hstart : entry ∈ store.selected := hselected ▸ hentry
  have hkept := isolated_over_runs hstart (.single ⟨hstep, hforeign⟩)
  exact ⟨hkept.1, hkept.2⟩

end Malm.Engine
