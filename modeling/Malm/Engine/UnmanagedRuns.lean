/-
Malm.Engine.UnmanagedRuns — runs of reconciliations beside unmanaged files.

Two deployments take the same requests, and on one of them files appear that the
other does not have. As long as no file is in the way of a step (`Spares`) the two
stay in lockstep and the files are left as they are.
-/
import Malm.Engine.UnmanagedPlans
import Malm.Commit.LineageBudget

namespace Malm.Engine

open Store Commit Target Checks List Option Lockstep

variable {codec : PlanCodec} {machine : Machine} {config : EngineConfig} {extras : Extras}
  {bare full : TargetSystem} {claimed : TargetKey → Prop}

/-! ## 1. The published plan -/

variable {objects next : ObjectStore}

variable {file : Entry} {prep record : PreparedRecord} {prev : Option StateGeneration}

theorem publishBlob_areas {art : PreparedArtifact}
    (h : publishBlob objects art = .ok next) :
    next.generations = objects.generations ∧ next.prepared = objects.prepared := by
  unfold publishBlob at h
  split at h
  · split at h
    · cases h
      exact ⟨rfl, rfl⟩
    · cases h
  · cases h
    exact ⟨rfl, rfl⟩

theorem publishBlobs_areas {arts : List PreparedArtifact}
    (h : arts.foldlM publishBlob objects = .ok next) :
    next.generations = objects.generations ∧ next.prepared = objects.prepared := by
  induction arts generalizing objects with
  | nil =>
    rw [foldlM_nil, pure_ok] at h
    subst h
    exact ⟨rfl, rfl⟩
  | cons art arts ih =>
    rw [foldlM_cons, bind_ok] at h
    obtain ⟨mid, hfirst, hrest⟩ := h
    obtain ⟨hgens, hprep⟩ := publishBlob_areas hfirst
    obtain ⟨hgens', hprep'⟩ := ih hrest
    exact ⟨hgens'.trans hgens, hprep'.trans hprep⟩

theorem publishPlan_ok (h : publishPlan codec.toObjectCodec objects record = .ok next) :
    next.generations = objects.generations ∧
      ∃ file, next.prepared.get? (codec.preparedId record) = some file ∧
        file.bytes = .canonical record := by
  unfold publishPlan at h
  rw [bind_ok] at h
  obtain ⟨mid, hblobs, hrec⟩ := h
  obtain ⟨hgens, -⟩ := publishBlobs_areas hblobs
  unfold publishRecord at hrec
  split at hrec
  · rename_i file hfile
    split at hrec
    · rename_i hsame
      cases hrec
      simp only [Bool.and_eq_true, decide_eq_true_eq] at hsame
      exact ⟨hgens, file, hfile, hsame.2⟩
    · cases hrec
  · cases hrec
    exact ⟨hgens, ⟨true, true, true, .canonical record⟩, by simp, rfl⟩

theorem loadPrepared_of_published (h : publishPlan codec.toObjectCodec objects record = .ok next)
    (hload : loadPrepared codec.toObjectCodec next (codec.preparedId record) = .ok prep) :
    prep = record := by
  obtain ⟨-, file, hfile, hbytes⟩ := publishPlan_ok h
  obtain ⟨hloaded, -⟩ := loadPrepared_ok hload
  rw [hfile] at hloaded
  rw [some.inj hloaded] at hbytes
  injection hbytes

/-! ## 2. The ledger -/

def StructuralLedger (codec : PlanCodec) (claimed : TargetKey → Prop) (store : ObjectStore) :
    Prop :=
  ∀ digest generation, loadGeneration codec.toObjectCodec store digest = .ok generation →
    Structural claimed generation.targets

theorem StructuralLedger.congr {store : ObjectStore} (h : StructuralLedger codec claimed store)
    (hsame : next.generations = store.generations) : StructuralLedger codec claimed next := by
  intro digest gen hload
  have hkept : loadGeneration codec.toObjectCodec next digest =
      loadGeneration codec.toObjectCodec store digest := loadGeneration_congr (by rw [hsame])
  exact h digest gen (hkept ▸ hload)

theorem StructuralLedger.commit {s next : StoreState}
    (h : StructuralLedger codec claimed s.objects)
    (hcommit : Commits codec.toObjectCodec s prep next)
    (hplan : Structural claimed prep.desiredSnapshot.targets) :
    StructuralLedger codec claimed next.objects := by
  obtain ⟨machine, planId, tr, ownership, budget, -, hcases⟩ := hcommit.cases
  rcases hcases with ⟨-, -, -, rfl⟩ | ⟨gen, -, hder, hpub⟩
  · exact h
  · obtain ⟨hfile, -, -, hothers⟩ := publishImmutable_file hpub
    intro digest found hload
    by_cases hnew : digest = codec.generationDigest gen
    · have hrec := (loadGeneration_ok hload).record
      rw [hnew, ObjectStore.record, hfile] at hrec
      obtain rfl : gen = found := some.inj hrec
      rw [(fromPrepared_ok hder.built).1]
      exact hplan
    · have hkept : loadGeneration codec.toObjectCodec next.objects digest =
          loadGeneration codec.toObjectCodec s.objects digest :=
        loadGeneration_congr (hothers digest hnew)
      exact h digest found (hkept ▸ hload)

/-! ## 3. One request on both deployments -/

/-- Two deployments that differ in additional files. -/
structure Alike (codec : PlanCodec) (claimed : TargetKey → Prop) (extras : Extras)
    (bare full : Deployment) : Prop where
  store : full.store = bare.store
  system : Target.Extends extras bare.system full.system
  apart : ApartFrom claimed extras
  ledger : StructuralLedger codec claimed bare.store.objects

/-- A request that declares claimed files, symbolic links and trees. -/
def ClaimsLeaves (claimed : TargetKey → Prop) (input : ReconcileInput) : Prop :=
  ∀ operation ∈ input.request.operations, declaresLeaf operation = true ∧ claimed operation.key

def SparesRequest (codec : PlanCodec) (extras : Extras) (deployment : Deployment)
    (input : ReconcileInput) : Prop :=
  ∀ previous, loadExpectedGeneration codec (input.store deployment.store)
      input.request.namespaceName input.request.expectedHead = .ok previous →
    Spares extras (input.system deployment.system) previous input.request.operations

theorem extends_input (h : Target.Extends extras bare full) (input : ReconcileInput) :
    Target.Extends extras (input.system bare) (input.system full) where
  entry := h.entry
  fresh := h.fresh
  below := h.below
  regular := h.regular
  resolved := rfl
  readThrough := rfl

theorem loadExpectedGeneration_ok {s : StoreState} {ns : NamespaceName}
    {expectedHead : Option Digest} (h : loadExpectedGeneration codec s ns expectedHead = .ok prev)
    {gen : StateGeneration} (hprevious : prev = some gen) :
    ∃ d, loadGeneration codec.toObjectCodec s.objects d = .ok gen := by
  subst hprevious
  unfold loadExpectedGeneration at h
  simp only [bind_ok, exists_unit, asCommitError, mapError_ok] at h
  obtain ⟨actual, -, -, h⟩ := h
  cases expectedHead with
  | none => cases h
  | some d =>
    simp only [bind_ok, pure_ok, mapError_ok] at h
    obtain ⟨found, hfound, hsome⟩ := h
    obtain rfl := some.inj hsome
    exact ⟨d, inspectGeneration_ok hfound⟩

section Step

variable {bare full : Deployment} {input : ReconcileInput}

section

variable (h : Alike codec claimed extras bare full) (hclaims : ClaimsLeaves claimed input)
  (hspares : SparesRequest codec extras bare input)
include h hclaims hspares

theorem Alike.setting (hprevious : loadExpectedGeneration codec (input.store bare.store)
      input.request.namespaceName input.request.expectedHead = .ok prev) :
    Setting claimed extras (input.system bare.system) (input.system full.system) prev
      input.request.operations where
  related := extends_input h.system input
  apart := h.apart
  leaves := hclaims
  structural := by
    intro gen hsome
    obtain ⟨d, hload⟩ := loadExpectedGeneration_ok hprevious hsome
    have hledger : StructuralLedger codec claimed (input.store bare.store).objects :=
      h.ledger.congr rfl
    exact hledger d gen hload
  spares := hspares prev hprevious

theorem Alike.prepareInner_eq :
    prepareInner codec machine (input.store bare.store) config (input.system full.system)
        input.objects input.cache none input.trackedRoot input.request =
      prepareInner codec machine (input.store bare.store) config (input.system bare.system)
        input.objects input.cache none input.trackedRoot input.request := by
  unfold prepareInner
  refine bind_congr_ok fun _ _ => ?_
  refine bind_congr_ok fun prev hprevious => ?_
  refine bind_congr_ok fun _ _ => ?_
  refine bind_congr_ok fun _ _ => ?_
  have hderive : derivePlan config (input.system full.system) input.objects prev input.cache none
      input.request =
    derivePlan config (input.system bare.system) input.objects prev input.cache none
      input.request :=
    (h.setting hclaims hspares hprevious).deriveReconciliation_eq input.objects
      input.request.findings
  rw [hderive]

end

theorem Alike.plan_apart (h : Alike codec claimed extras bare full)
    (hclaims : ClaimsLeaves claimed input) (hspares : SparesRequest codec extras bare input)
    {plan : PreparedPlan} (hplan : prepareInner codec machine (input.store bare.store) config
      (input.system bare.system) input.objects input.cache none input.trackedRoot
      input.request = .ok plan) :
    (∀ op ∈ plan.record.operations,
      Apart extras (createdKeys plan.record.operations) op) ∧
      Structural claimed plan.record.desiredSnapshot.targets := by
  obtain ⟨prev, hprevious⟩ : ∃ prev, loadExpectedGeneration codec
      (input.store bare.store) input.request.namespaceName input.request.expectedHead =
        .ok prev := by
    have hparts := hplan
    unfold prepareInner at hparts
    simp only [bind_ok, exists_unit] at hparts
    obtain ⟨-, prev, hprevious, -⟩ := hparts
    exact ⟨prev, hprevious⟩
  have hsetting := h.setting hclaims hspares hprevious
  obtain ⟨derived, hder, hops, -, hsnap, -⟩ := prepareInner_ok hplan hprevious
  rw [hops, hsnap]
  refine ⟨hsetting.operations_apart (derivedManifest_of_plan hder), ?_⟩
  unfold derivePlan deriveReconciliation at hder
  simp only [bind_ok] at hder
  obtain ⟨synthesized, hsynthesized, desired, hdesired, completed, -, hfinished⟩ := hder
  have hkept : derived.desiredSnapshot = desired := by
    unfold finishPlan at hfinished
    simp only [bind_ok, exists_unit, pure_ok] at hfinished
    obtain ⟨reconciled, -, -, ops, -, -, findings, -, appended, -, rfl⟩ := hfinished
    rfl
  rw [hkept]
  exact Derived.structural ⟨hsynthesized, hdesired⟩ hclaims hsetting.structural

theorem commitStore_of_parts {store next : StoreState} {req : CommitRequest}
    {tr : OwnedTransition}
    (hadm : admitCommit codec.toObjectCodec machine store req = .ok (prep, tr))
    (hpub : publishGenerationAndCatalog codec.toObjectCodec store tr = .ok next) :
    Commits codec.toObjectCodec store prep next := by
  refine ⟨machine, req, ?_⟩
  unfold commitStore
  simp only [bind_ok, pure_ok]
  exact ⟨(prep, tr), hadm, next, hpub, rfl⟩

section

variable (h : Alike codec claimed extras bare full) (hclaims : ClaimsLeaves claimed input)
  (hspares : SparesRequest codec extras bare input)

include h hclaims hspares

/-- **One request on both deployments** is refused on both, or carried out on both. -/
theorem Alike.reconcile_lockstep :
    Lockstep (Alike codec claimed extras) (reconcile codec machine config input bare)
      (reconcile codec machine config input full) := by
  unfold reconcile
  dsimp only
  rw [h.store, h.prepareInner_eq hclaims hspares]
  refine bind_eq rfl fun plan hplan => ?_
  refine bind_eq rfl fun objects hobjs => ?_
  obtain ⟨hapart, hstruct⟩ := h.plan_apart hclaims hspares hplan
  obtain ⟨hgens, -⟩ := publishPlan_ok hobjs
  have hledger : StructuralLedger codec claimed
      (StoreState.mk objects (input.store bare.store).catalog).objects :=
    h.ledger.congr hgens
  have hcommit : Lockstep (fun first snd => snd.1 = first.1 ∧
      Target.Extends extras first.2 snd.2 ∧ StructuralLedger codec claimed first.1.objects)
    (commitPlan codec.toObjectCodec machine config.effectiveUserId input.stamps
      ⟨objects, (input.store bare.store).catalog⟩ (input.system bare.system)
      ⟨codec.preparedId plan.record, codec.preparedId plan.record, plan.record.approvalDigest⟩)
    (commitPlan codec.toObjectCodec machine config.effectiveUserId input.stamps
      ⟨objects, (input.store bare.store).catalog⟩ (input.system full.system)
      ⟨codec.preparedId plan.record, codec.preparedId plan.record,
        plan.record.approvalDigest⟩) := by
    unfold commitPlan
    refine bind_eq rfl fun admitted hadm => ?_
    obtain ⟨prep, tr⟩ := admitted
    have hsame : prep = plan.record := by
      have hparts := hadm
      unfold admitCommit at hparts
      simp only [bind_ok, exists_unit, pure_ok] at hparts
      obtain ⟨-, loaded, hload, -, -, catalog, -, derived, -, hpair⟩ := hparts
      obtain ⟨rfl, -⟩ := Prod.mk.injEq .. ▸ hpair
      exact loadPrepared_of_published hobjs hload
    subst hsame
    refine bind_eq rfl fun prev _ => ?_
    refine bind_eq rfl fun blobs _ => ?_
    refine bind_eq rfl fun canonical _ => ?_
    refine bind (applyTargets_lockstep (extends_input h.system input) hapart prev
      blobs) ?_
    intro bareSystem fullSystem hsystem
    refine bind_eq rfl fun next hpub => .ok ⟨rfl, hsystem, ?_⟩
    exact hledger.commit (commitStore_of_parts hadm hpub) hstruct
  refine bind (hcommit.mapError EngineError.commit) ?_
  rintro ⟨bareStore, bareSystem⟩ ⟨fullStore, fullSystem⟩ ⟨hstore, hsystem, hkept⟩
  exact .ok ⟨hstore, hsystem, h.apart, hkept⟩

theorem Alike.advance :
    Alike codec claimed extras (Engine.advance codec machine config bare input)
      (Engine.advance codec machine config full input) := by
  have hstep : Lockstep (Alike codec claimed extras) (reconcile codec machine config input bare)
      (reconcile codec machine config input full) := h.reconcile_lockstep hclaims hspares
  unfold Engine.advance
  generalize reconcile codec machine config input bare = first at hstep
  generalize reconcile codec machine config input full = second at hstep
  cases hstep with
  | ok related => exact related
  | error reason => exact h

end

end Step

/-! ## 4. Runs -/

/-- Two deployments and the files that the second has on top of the first. -/
structure Pair where
  bare : Deployment
  full : Deployment
  extras : Extras

/-- Requests on a pair. Between them unmanaged files appear apart from all claimed paths. -/
inductive PairRun (codec : PlanCodec) (machine : Machine) (config : EngineConfig)
    (claimed : TargetKey → Prop) (start : Pair) : Pair → Prop
  | start : PairRun codec machine config claimed start start
  | reconcile {pair : Pair} (before : PairRun codec machine config claimed start pair)
      (input : ReconcileInput) (claims : ClaimsLeaves claimed input)
      (spares : SparesRequest codec pair.extras pair.bare input) :
      PairRun codec machine config claimed start
        ⟨advance codec machine config pair.bare input, advance codec machine config pair.full input,
          pair.extras⟩
  | appear {pair : Pair} (before : PairRun codec machine config claimed start pair)
      (extras : Extras) (system : TargetSystem)
      (keeps : ∀ key entry, pair.extras key = some entry → extras key = some entry)
      (apart : ApartFrom claimed extras) (related : Target.Extends extras pair.bare.system system) :
      PairRun codec machine config claimed start ⟨pair.bare, ⟨pair.full.store, system⟩, extras⟩

theorem PairRun.alike {start pair : Pair} (h : PairRun codec machine config claimed start pair)
    (hstart : Alike codec claimed start.extras start.bare start.full) :
    Alike codec claimed pair.extras pair.bare pair.full := by
  induction h with
  | start => exact hstart
  | reconcile before input claims spares ih => exact ih.advance claims spares
  | appear before extras system keeps apart hext ih =>
    exact ⟨ih.store, hext, apart, ih.ledger⟩

def fileAt (key : TargetKey) (file : Entry) : Extras :=
  fun candidate => if candidate = key then some file else none

theorem fileAt_isSome {key cand : TargetKey} :
    (fileAt key file cand).isSome = true ↔ cand = key := by
  unfold fileAt
  by_cases h : cand = key <;> simp [h]

theorem extends_replace {system : TargetSystem} {key : TargetKey} (hkey : key.2 ≠ [])
    (hparents : system.hasParents key = true) (hfree : system.entry key = none)
    (hfile : file.kind.fileType = .regularFile) :
    Target.Extends (fileAt key file) system (system.replace key file hkey hparents) where
  entry := by
    intro cand
    rw [TargetSystem.entry_replace, fileAt]
    by_cases hsame : cand = key
    · rw [if_pos hsame, if_pos hsame]
      rfl
    · rw [if_neg hsame, if_neg hsame]
      show _ = system.entry cand
      split
      · rename_i hwithin
        cases hfound : system.entry cand with
        | none => rfl
        | some found =>
          simp only [isWithin, isBelow, hsame, Bool.or_eq_true, Bool.and_eq_true,
            decide_eq_true_eq, false_or] at hwithin
          obtain ⟨dir, hdir, -⟩ := TargetSystem.directory_above hfound
            (isAncestor_ne_nil hwithin.2)
            (mem_cons_of_mem _ (mem_ancestorPaths_iff.2 hwithin.2))
          rw [hwithin.1, hfree] at hdir
          cases hdir
      · rfl
  fresh := by
    intro cand hcand
    rw [fileAt_isSome.1 hcand]
    exact hfree
  below := by
    intro cand hcand
    rw [fileAt_isSome.1 hcand]
    exact hkey
  regular := by
    intro cand found hfound
    unfold fileAt at hfound
    split at hfound
    · cases hfound
      exact hfile
    · cases hfound
  resolved := rfl
  readThrough := rfl

theorem extends_refl (system : TargetSystem) :
    Target.Extends (fun _ => none) system system where
  entry := fun _ => rfl
  fresh := fun _ h => by cases h
  below := fun _ h => by cases h
  regular := fun _ _ h => by cases h
  resolved := rfl
  readThrough := rfl

theorem apartFrom_fileAt {leaf key : TargetKey} (habove : isWithin key leaf = false)
    (hbelow : isWithin leaf key = false) :
    ApartFrom (· = leaf) (fileAt key file) := by
  rintro _ rfl
  refine ⟨?_, ?_⟩
  · intro cand hcand
    rw [fileAt_isSome.1 hcand]
    exact habove
  · intro cand hcand
    rw [fileAt_isSome.1 hcand]
    exact hbelow

/-! ## 5. A directory that keeps a file -/

def samplePlanCodec : PlanCodec :=
  { sampleCodec with
    approvalDigest := fun findings =>
      ⟨(findings.map fun finding => finding.message.length).sum⟩ }

theorem homeConfig_named : ∀ auth ∈ [['h']], ':' ∉ auth := by decide

def homeConfig : EngineConfig :=
  ⟨[['h']], 1000, fun _ => false, fun _ => false, fun _ => false, homeConfig_named⟩

/-- The only path that the sample requests claim. -/
def claimedFile : TargetKey := (['h'], ['d', '/', 'x'])

def unmanagedKey : TargetKey := (['h'], ['d', '/', 'e'])

def unmanagedFile : Entry := readableFile ⟨⟨9⟩, 4⟩

def emptyHome : TargetSystem where
  entries := SortedMap.empty.insert (toLex (['h'], [])) privateDirectory
  resolved := fun _ => .failed
  readThrough := fun _ => none
  closed := by decide

def requestOn (head : Option Digest) (operations : List PrepareOperation) : ReconcileInput where
  request := ⟨['w'], head, ⟨0⟩, [], [⟨['a'], ⟨7⟩, 3, ['t']⟩], [], [], operations⟩
  trackedRoot := none
  objects := .empty
  areas := id
  cache := fun _ => none
  stamps := fun key => ⟨1, 10 + key.2.length, 1000, 0, 0, 0, 0⟩
  resolved := fun _ => .failed
  readThrough := fun _ => none

def placingRequest : ReconcileInput :=
  requestOn none [.placeFile ['h'] ['d', '/', 'x'] ['a'] 0o600 false]

theorem placingRequest_claims : ClaimsLeaves (· = claimedFile) placingRequest := by
  intro op hop
  rw [mem_singleton.1 hop]
  exact ⟨rfl, rfl⟩

theorem structuralLedger_empty (claimed : TargetKey → Prop) :
    StructuralLedger samplePlanCodec claimed ObjectStore.empty := by
  intro d gen hload
  have hfile := (loadGeneration_ok hload).record
  simp [ObjectStore.record, ObjectStore.empty] at hfile

def emptyDeployment : Deployment := ⟨⟨.empty, .empty⟩, emptyHome⟩

/-- The deployment after the claimed file was placed in a directory made for it. -/
def placedDeployment : Deployment :=
  advance samplePlanCodec sampleMachine homeConfig emptyDeployment placingRequest

theorem placed_hasParents : placedDeployment.system.hasParents unmanagedKey = true := by
  decide +kernel

/-- The same with a file that appeared in that directory. -/
def crowdedDeployment : Deployment where
  store := placedDeployment.store
  system := placedDeployment.system.replace unmanagedKey unmanagedFile (by decide)
    placed_hasParents

def releasingRequest : ReconcileInput :=
  requestOn (placedDeployment.store.catalog.generation ['w']) []

def removingRequest : ReconcileInput :=
  requestOn ((advance samplePlanCodec sampleMachine homeConfig placedDeployment
    releasingRequest).store.catalog.generation ['w']) []

def recordedTargets : List StateTarget :=
  [⟨['h'], ['d'], .directory (some ⟨0o755⟩)⟩,
    ⟨['h'], ['d', '/', 'x'], .file (some ⟨⟨7⟩, 3, 0o600⟩)⟩]

theorem placed_targets {prev : Option StateGeneration}
    (h : loadExpectedGeneration samplePlanCodec placedDeployment.store ['w']
      (placedDeployment.store.catalog.generation ['w']) = .ok prev) :
    ∃ gen, prev = some gen ∧ gen.targets = recordedTargets := by
  have hcheck : okAnd (loadExpectedGeneration samplePlanCodec placedDeployment.store ['w']
      (placedDeployment.store.catalog.generation ['w']))
      (fun found => found.any fun gen => gen.targets = recordedTargets) = true := by
    decide +kernel
  obtain ⟨found, hfound, htargets⟩ := okAnd_iff.1 hcheck
  rw [h] at hfound
  cases hfound
  obtain ⟨gen, hsome, hsame⟩ := (Option.any_eq_true _ _).1 htargets
  exact ⟨gen, hsome, of_decide_eq_true hsame⟩

/-- The recorded directory stays for now, and the removed file has its directory. -/
theorem releasing_spares :
    SparesRequest samplePlanCodec (fileAt unmanagedKey unmanagedFile) placedDeployment
      releasingRequest := by
  intro prev hprevious
  obtain ⟨gen, rfl, htargets⟩ := placed_targets hprevious
  constructor
  · rintro _ ⟨⟩ target hremoved hdir -
    have hrecorded := hremoved.recorded
    have hx : (⟨['h'], ['d', '/', 'x'], .file (some ⟨⟨7⟩, 3, 0o600⟩)⟩ : StateTarget) ∈
        gen.targets := by
      rw [htargets]
      exact mem_cons_of_mem _ mem_cons_self
    have hbelow := (hremoved.alone hdir).1 _ hx rfl
    rw [htargets, recordedTargets, mem_cons, mem_singleton] at hrecorded
    rcases hrecorded with rfl | rfl
    · exact absurd hbelow (by decide)
    · cases hdir
  · rintro _ ⟨⟩ target hremoved missing hmissing -
    have hrecorded := hremoved.recorded
    have hthere : ∀ target ∈ recordedTargets,
        firstMissing (releasingRequest.system placedDeployment.system) target.key = none := by
      decide +kernel
    rw [hthere target (htargets ▸ hrecorded)] at hmissing
    cases hmissing

end Malm.Engine
