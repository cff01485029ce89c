/-
Malm.Engine.Profiles — which profile a reconcile evaluates, and what
becomes of it over a run of transitions.

A static plan records its profile as the input `static-profile:…`, and the next
reconcile without an explicit profile looks it up in the plan of the enabled head. A
run carries along the profile that the targets of every generation came from.
-/
import Malm.Commit.LineageBudget
import Malm.Engine.Lifecycle

namespace Malm.Engine

open Store Commit Pack Checks List Option Function Bool Except StateCatalog

variable {inputs : List PreparedInput} {staticCodec : StaticCodec}

/-! ## 1. Selection -/

/-- The profile a plan records: the first `static-profile:` input. -/
def recordedProfile (record : PreparedRecord) : Option Text :=
  record.inputs.findSome? fun input => stripName staticProfileName input.name

/-- `deployed_static_profile`. Every failure on the way is an absent profile. -/
def deployedStaticProfile (codec : ObjectCodec) (state : StoreState)
    (namespaceName : NamespaceName) : Option ContributionName := do
  let lineage ← (inspectLineage codec state namespaceName 1).toOption
  let (_, generation) ← lineage.head?
  if generation.lifecycle.isEnabled then
    let record ← (loadPrepared codec state.objects generation.planId).toOption
    let name ← recordedProfile record
    contributionName name
  else
    none

/-- The explicit profile, else the deployed one, else the default of the source. -/
def evaluatedProfile (explicit deployed : Option ContributionName) (sourceDefault : Option Text) :
    Option Text :=
  ((explicit.or deployed).map Subtype.val).or sourceDefault

/-! ## 2. Runs -/

/-- The inputs of the engine's own plans. -/
inductive EngineInputs (staticCodec : StaticCodec) (lockCodec : LockCodec) :
    List PreparedInput → Prop
  | static (capture : StaticCapture lockCodec) :
      EngineInputs staticCodec lockCodec (sortInputs (staticInputs staticCodec capture))
  | lifecycle (description : TransitionDescription) (currentHead : Digest)
      (retained : Option PreparedRecord)
      (known : ∀ record, retained = some record →
        EngineInputs staticCodec lockCodec record.inputs) :
      EngineInputs staticCodec lockCodec
        (sortInputs (lifecycleInputs description currentHead retained))

/-- The profile of the reconcile that the targets of each generation came from. -/
abbrev Origins := Digest → Option Text

/-- The origin of the selected state; a disabled namespace has no targets. -/
def lifecycleOrigin (origins : Origins) (current : Option Digest) : PreparedTransition → Option Text
  | .enable restorePoint => origins restorePoint.generation
  | .checkout sourceGeneration => origins sourceGeneration
  | .retentionAuthority => current.bind origins
  | .disable => none
  | .reconcile => none
  | .namespaceRemoval => none

def TransitionDescription.describes : TransitionDescription → PreparedTransition → Bool
  | disable, .disable => true
  | enable, .enable _ => true
  | checkout target, .checkout sourceGeneration => target = sourceGeneration
  | retentionAuthority _, .retentionAuthority => true
  | namespaceRemoval, .namespaceRemoval => true
  | _, _ => false

/-- The committed transitions of one namespace: static plans of a reconcile or a switch, and
lifecycle plans prepared against some earlier store `seen`. In between, other namespaces commit,
and objects come and go beside the selected generation and its plan. -/
inductive ProfileRun (codec : ObjectCodec) (staticCodec : StaticCodec) (lockCodec : LockCodec)
    (namespaceName : NamespaceName) : StoreState → Origins → Prop
  | initial {state : StoreState} (fresh : state.catalog.generation namespaceName = none) :
      ProfileRun codec staticCodec lockCodec namespaceName state fun _ => none
  | reconcile {state next : StoreState} {origins : Origins}
      (before : ProfileRun codec staticCodec lockCodec namespaceName state origins)
      (prepared : PreparedRecord) (accepted : Commits codec state prepared next)
      (name : prepared.namespaceName = namespaceName)
      (kind : prepared.transition = .reconcile) (capture : StaticCapture lockCodec)
      (inputs : prepared.inputs = sortInputs (staticInputs staticCodec capture))
      (head : Digest) (selected : next.catalog.generation namespaceName = some head) :
      ProfileRun codec staticCodec lockCodec namespaceName next
        (Function.update origins head (some capture.profile))
  | lifecycle {state next : StoreState} {origins : Origins}
      (before : ProfileRun codec staticCodec lockCodec namespaceName state origins)
      (prepared : PreparedRecord) (accepted : Commits codec state prepared next)
      (name : prepared.namespaceName = namespaceName) (description : TransitionDescription)
      (kind : description.describes prepared.transition = true)
      (seen : ObjectStore)
      (published : ∀ planId record, loadPrepared codec seen planId = .ok record →
        EngineInputs staticCodec lockCodec record.inputs)
      (graphAuthority : StateGeneration) (retained : Option PreparedRecord)
      (graph : loadRetainedGraphRecord codec seen graphAuthority = .ok retained)
      (currentHead : Digest)
      (inputs : prepared.inputs = sortInputs (lifecycleInputs description currentHead retained))
      (head : Digest) (selected : next.catalog.generation namespaceName = some head) :
      ProfileRun codec staticCodec lockCodec namespaceName next
        (Function.update origins head (lifecycleOrigin origins
          (state.catalog.generation namespaceName) prepared.transition))
  | other {state next : StoreState} {origins : Origins}
      (before : ProfileRun codec staticCodec lockCodec namespaceName state origins)
      (prepared : PreparedRecord) (accepted : Commits codec state prepared next)
      (name : prepared.namespaceName ≠ namespaceName) :
      ProfileRun codec staticCodec lockCodec namespaceName next origins
  | objects {state : StoreState} {origins : Origins}
      (before : ProfileRun codec staticCodec lockCodec namespaceName state origins)
      (objects : ObjectStore)
      (keeps : ∀ head, state.catalog.generation namespaceName = some head →
        objects.generations.get? head = state.objects.generations.get? head ∧
          ∀ generation, loadGeneration codec state.objects head = .ok generation →
            objects.prepared.get? generation.planId =
              state.objects.prepared.get? generation.planId) :
      ProfileRun codec staticCodec lockCodec namespaceName ⟨objects, state.catalog⟩ origins

/-! ## 3. The inputs of plans -/

def NamesNoProfile (inputs : List PreparedInput) : Prop :=
  ∀ input ∈ inputs, stripName staticProfileName input.name = none

theorem mem_sortInputs {input : PreparedInput} :
    input ∈ sortInputs inputs ↔ input ∈ inputs :=
  (perm_insertionSort _ inputs).mem_iff

variable {record : PreparedRecord} {lockCodec : LockCodec}

theorem recordedProfile_none (h : NamesNoProfile record.inputs) :
    recordedProfile record = none := by
  unfold recordedProfile
  rw [List.findSome?_eq_none_iff]
  exact h

theorem stripName_staticProfileInput (staticCodec : StaticCodec) (profile : Text) :
    stripName staticProfileName (staticProfileInput staticCodec profile).name = some profile :=
  stripName_append staticProfileName profile

theorem recordedProfile_some {profile : Text} {rest : List PreparedInput}
    (hinputs : record.inputs = sortInputs (staticProfileInput staticCodec profile :: rest))
    (hrest : NamesNoProfile rest) : recordedProfile record = some profile := by
  have hmem : staticProfileInput staticCodec profile ∈ record.inputs := by
    rw [hinputs, mem_sortInputs]
    exact mem_cons_self
  cases hfound : recordedProfile record with
  | none =>
    have hnone := List.findSome?_eq_none_iff.1 hfound _ hmem
    rw [stripName_staticProfileInput] at hnone
    cases hnone
  | some found =>
    obtain ⟨input, hinput, hname⟩ := List.exists_of_findSome?_eq_some hfound
    rw [hinputs, mem_sortInputs, mem_cons] at hinput
    rcases hinput with rfl | hinput
    · rw [stripName_staticProfileInput] at hname
      exact hname.symm
    · rw [hrest input hinput] at hname
      cases hname

theorem stripName_eq_none_of_start {start : Text}
    (hstart : ∀ rest, stripName staticProfileName (start ++ rest) = none) {name : Text}
    (h : startsWith start name = true) : stripName staticProfileName name = none := by
  obtain ⟨rest, hrest⟩ := isSome_iff_exists.1 h
  rw [stripName_eq_some.1 hrest]
  exact hstart rest

theorem staticConfigEntry_start (rest : Text) :
    stripName staticProfileName (staticConfigEntryName ++ rest) = none := rfl

theorem staticTargetAuthority_start (rest : Text) :
    stripName staticProfileName (staticTargetAuthorityName ++ rest) = none := rfl

theorem lockedComponentProfile_start (rest : Text) :
    stripName staticProfileName (lockedComponentProfileName ++ rest) = none := rfl

theorem packInput_start (rest : Text) :
    stripName staticProfileName (packInputName ++ rest) = none := rfl

theorem inputFamily_start (family : InputFamily) (rest : Text) :
    stripName staticProfileName (family.name ++ rest) = none := by
  cases family <;> rfl

theorem description_start (description : TransitionDescription) :
    stripName staticProfileName description.inputName = none := by
  cases description <;> rfl

theorem lockedComponentProfileInputs_noProfile (inputCodec : InputCodec)
    (graph : AssembledLockedGraph lockCodec) :
    NamesNoProfile (lockedComponentProfileInputs inputCodec graph) := by
  intro input hinput
  simp only [lockedComponentProfileInputs, mem_append, List.mem_map, mem_singleton] at hinput
  rcases hinput with ⟨entry, ⟨comp, -, rfl⟩, rfl⟩ | rfl
  · exact lockedComponentProfile_start _
  · rfl

theorem lockInput_noProfile : stripName staticProfileName lockInputName = none := rfl

theorem graphInputs_noProfile (inputCodec : InputCodec) (graph : AssembledLockedGraph lockCodec) :
    NamesNoProfile (graphInputs inputCodec graph) := by
  intro input hinput
  simp only [graphInputs, packInputs, mem_cons, mem_append, mem_filterMap,
    map_eq_some_iff] at hinput
  rcases hinput with (rfl | ⟨nodeId, -, node, -, rfl⟩) | hinput
  · exact lockInput_noProfile
  · exact packInput_start _
  · exact lockedComponentProfileInputs_noProfile inputCodec graph input hinput

theorem authoringGraphInputs_noProfile (inputCodec : InputCodec)
    (graph : AssembledLockedGraph lockCodec) :
    NamesNoProfile (authoringGraphInputs inputCodec graph) := by
  intro input hinput
  simp only [authoringGraphInputs, mem_cons, mem_append, mem_toList, map_eq_some_iff] at hinput
  rcases hinput with (rfl | ⟨node, -, rfl⟩) | hinput
  · exact lockInput_noProfile
  · exact packInput_start _
  · exact lockedComponentProfileInputs_noProfile inputCodec graph input hinput

theorem staticInputs_profile (staticCodec : StaticCodec) (capture : StaticCapture lockCodec) :
    ∃ rest, staticInputs staticCodec capture =
        staticProfileInput staticCodec capture.profile :: rest ∧ NamesNoProfile rest := by
  refine ⟨_, rfl, ?_⟩
  intro input hinput
  simp only [mem_cons, mem_append, List.mem_map] at hinput
  rcases hinput with rfl | rfl | hinput | ⟨family, -, rfl⟩
  · exact staticConfigEntry_start _
  · exact staticTargetAuthority_start _
  · cases hdialect : capture.dialect with
    | rich =>
      rw [hdialect] at hinput
      exact graphInputs_noProfile _ _ input hinput
    | authoring =>
      rw [hdialect] at hinput
      exact authoringGraphInputs_noProfile _ _ input hinput
  · exact inputFamily_start _ _

theorem EngineInputs.kind (h : EngineInputs staticCodec lockCodec inputs) :
    ∀ input ∈ inputs, input.kind ≠ .other → stripName staticProfileName input.name = none := by
  induction h with
  | static capture =>
    obtain ⟨rest, hrest, hnone⟩ := staticInputs_profile staticCodec capture
    intro input hinput hkind
    rw [mem_sortInputs, hrest, mem_cons] at hinput
    rcases hinput with rfl | hinput
    · exact absurd rfl hkind
    · exact hnone input hinput
  | lifecycle description currentHead retained known ih =>
    intro input hinput hkind
    rw [mem_sortInputs, lifecycleInputs, mem_cons] at hinput
    rcases hinput with rfl | hinput
    · exact absurd rfl hkind
    · cases retained with
      | none => simp at hinput
      | some record => exact ih record rfl input (mem_filter.1 hinput).1 hkind

/-- **A lifecycle plan records no profile**: of kind `Other` it has the entry, the authority and
the component profiles. -/
theorem lifecycleInputs_noProfile {retained : Option PreparedRecord}
    (hknown : ∀ record, retained = some record → ∀ input ∈ record.inputs,
      input.kind ≠ .other → stripName staticProfileName input.name = none)
    (description : TransitionDescription) (currentHead : Digest) :
    NamesNoProfile (lifecycleInputs description currentHead retained) := by
  intro input hinput
  rw [lifecycleInputs, mem_cons] at hinput
  rcases hinput with rfl | hinput
  · exact description_start description
  · cases retained with
    | none => simp at hinput
    | some record =>
      obtain ⟨hmem, hcarried⟩ := mem_filter.1 hinput
      by_cases hkind : input.kind = .other
      · simp only [carriesInput, hkind, or_eq_true, decide_eq_true_eq] at hcarried
        rcases hcarried with ((hname | hname) | hname) | hname
        · exact stripName_eq_none_of_start staticConfigEntry_start hname
        · exact stripName_eq_none_of_start staticTargetAuthority_start hname
        · rw [hname]
          rfl
        · exact stripName_eq_none_of_start lockedComponentProfile_start hname
      · exact hknown record rfl input hmem hkind

theorem searchGraphRecord_loaded {codec : ObjectCodec} {store : ObjectStore}
    {ns : NamespaceName} :
    ∀ {turns : Nat} {visited : List PreparedId} {gen : StateGeneration},
      searchGraphRecord codec store ns turns visited gen = .ok (some record) →
        ∃ planId, loadPrepared codec store planId = .ok record
  | 0, _, _, h => by cases h
  | turns + 1, visited, gen, h => by
    rw [searchGraphRecord] at h
    simp only [bind_ok, exists_unit, reject_ok, asCommitError, mapError_ok] at h
    obtain ⟨-, loaded, hloaded, found, -, h⟩ := h
    split at h
    · cases h
      exact ⟨_, hloaded⟩
    · split at h
      · cases h
      · cases h
      · split at h
        · cases h
        · simp only [bind_ok, exists_unit, reject_ok] at h
          exact searchGraphRecord_loaded h.2

/-! ## 4. The plan of the head -/

section Run

variable {codec : ObjectCodec} {staticCodec : StaticCodec} {lockCodec : LockCodec}
  {ns : NamespaceName}

/-- **The invariant of a run.** The head's plan records the origin of its targets if it is a
reconcile, and no profile otherwise. -/
def HeadRecorded (codec : ObjectCodec) (namespaceName : NamespaceName) (state : StoreState)
    (origins : Origins) : Prop :=
  ∀ head, state.catalog.generation namespaceName = some head →
    ∃ generation prepared,
      loadGeneration codec state.objects head = .ok generation ∧
      loadPrepared codec state.objects generation.planId = .ok prepared ∧
      recordedProfile prepared = if generation.transition = .reconcile then origins head else none

variable {state : StoreState} {prepared : PreparedRecord}

theorem Commits.selects {next : StoreState} (h : Commits codec state prepared next)
    {head : Digest} (hselected : next.catalog.generation prepared.namespaceName = some head) :
    ∃ gen, loadGeneration codec next.objects head = .ok gen ∧
      loadPrepared codec next.objects gen.planId = .ok prepared ∧
      gen.transition = prepared.transition := by
  rcases h.accepted with ⟨-, rfl⟩ | ⟨-, gen, haccepted⟩
  · have hmem := generation_eq_some.1 hselected
    simp [removeHead] at hmem
  · have hmem : (⟨prepared.namespaceName, head⟩ : NamespaceHead) ∈ next.catalog.heads :=
      generation_eq_some.1 hselected
    rw [haccepted.heads] at hmem
    have hhead : head = codec.generationDigest gen := by
      rcases mem_upsert_of_sorted state.catalog.sorted hmem with hsame | ⟨-, hne⟩
      · exact congrArg NamespaceHead.generation hsame
      · exact absurd rfl hne
    have hbuilt := haccepted.built
    refine ⟨gen, hhead ▸ haccepted.loads, ?_, ?_⟩
    · rw [haccepted.publishes.loadPrepared, hbuilt]
      exact haccepted.plan
    · rw [hbuilt]
      rfl

theorem HeadRecorded.other {next : StoreState} {origins : Origins}
    (hrecorded : HeadRecorded codec ns state origins)
    (h : Commits codec state prepared next) (hname : prepared.namespaceName ≠ ns) :
    HeadRecorded codec ns next origins := by
  intro head hselected
  have hmem := generation_eq_some.1 hselected
  rcases h.accepted with ⟨-, rfl⟩ | ⟨-, gen, haccepted⟩
  · exact hrecorded head (generation_eq_some.2 (mem_filter.1 hmem).1)
  · rw [haccepted.heads] at hmem
    rcases mem_upsert hmem with hsame | hmem
    · exact absurd (congrArg NamespaceHead.namespaceName hsame).symm hname
    · obtain ⟨loaded, plan, hload, hplan, hprofile⟩ :=
        hrecorded head (generation_eq_some.2 hmem)
      refine ⟨loaded, plan, haccepted.publishes.loadGeneration hload, ?_, hprofile⟩
      rw [haccepted.publishes.loadPrepared, hplan]

theorem ProfileRun.headRecorded {origins : Origins}
    (h : ProfileRun codec staticCodec lockCodec ns state origins) :
    HeadRecorded codec ns state origins := by
  induction h with
  | initial fresh =>
    intro head hselected
    rw [fresh] at hselected
    cases hselected
  | reconcile before prepared accepted name kind capture inputs head sel ih =>
    intro found hfound
    obtain rfl : head = found := some.inj (sel.symm.trans hfound)
    obtain ⟨gen, hload, hplan, htrans⟩ := Commits.selects accepted (name ▸ sel)
    obtain ⟨rest, hrest, hnone⟩ := staticInputs_profile staticCodec capture
    refine ⟨gen, prepared, hload, hplan, ?_⟩
    rw [if_pos (htrans.trans kind), update_self]
    exact recordedProfile_some (inputs.trans (congrArg sortInputs hrest)) hnone
  | lifecycle before prepared accepted name description kind seen published graphAuthority
      retained graph currentHead inputs head sel ih =>
    intro found hfound
    obtain rfl : head = found := some.inj (sel.symm.trans hfound)
    obtain ⟨gen, hload, hplan, htrans⟩ := Commits.selects accepted (name ▸ sel)
    have hkind : prepared.transition ≠ .reconcile := by
      intro hreconcile
      rw [hreconcile] at kind
      cases description <;> cases kind
    have hnone : NamesNoProfile (lifecycleInputs description currentHead retained) := by
      refine lifecycleInputs_noProfile ?_ description currentHead
      rintro record rfl
      obtain ⟨planId, hloaded⟩ := searchGraphRecord_loaded graph
      exact (published planId record hloaded).kind
    refine ⟨gen, prepared, hload, hplan, ?_⟩
    rw [if_neg (htrans ▸ hkind)]
    refine recordedProfile_none ?_
    intro input hinput
    rw [inputs, mem_sortInputs] at hinput
    exact hnone input hinput
  | other before prepared accepted name ih => exact ih.other accepted name
  | objects before objects keeps ih =>
    intro head hselected
    obtain ⟨gen, plan, hload, hplan, hprofile⟩ := ih head hselected
    obtain ⟨hfile, hplans⟩ := keeps head hselected
    refine ⟨gen, plan, ?_, ?_, hprofile⟩
    · rw [loadGeneration_congr hfile, hload]
    · rw [loadPrepared_congr (hplans gen hload), hplan]

theorem deployedStaticProfile_eq {head : Digest} {gen : StateGeneration}
    {rest : List (Digest × StateGeneration)}
    (hinspected : inspectLineage codec state ns 1 = .ok ((head, gen) :: rest))
    (henabled : gen.lifecycle = .enabled)
    (hplan : loadPrepared codec state.objects gen.planId = .ok prepared) :
    deployedStaticProfile codec state ns =
      (recordedProfile prepared).bind contributionName := by
  simp [deployedStaticProfile, hinspected, henabled, hplan, Except.toOption,
    LifecycleState.isEnabled]

/-- **Which profile a reconcile evaluates.** Where the enabled head holds targets of a profile, a
reconcile without an explicit one evaluates it exactly if the head is a reconcile and the name a
contribution name, or if it is the default anyway. -/
theorem deployed_profile_kept_iff {state : StoreState} {origins : Origins}
    (hrun : ProfileRun codec staticCodec lockCodec ns state origins)
    {head : Digest} {gen : StateGeneration} {rest : List (Digest × StateGeneration)}
    (hinspected : inspectLineage codec state ns 1 = .ok ((head, gen) :: rest))
    (henabled : gen.lifecycle = .enabled) {profile : Text}
    (horigin : origins head = some profile) (sourceDefault : Option Text) :
    evaluatedProfile none (deployedStaticProfile codec state ns) sourceDefault =
        some profile ↔
      gen.transition = .reconcile ∧ contributionNameShape profile = true ∨
        sourceDefault = some profile := by
  obtain ⟨hselected, hload⟩ := inspectLineage_head hinspected
  obtain ⟨found, prepared, hfound, hplan, hprofile⟩ := hrun.headRecorded head hselected
  obtain rfl : gen = found := ok.inj (hload.symm.trans hfound)
  rw [deployedStaticProfile_eq hinspected henabled hplan, hprofile]
  by_cases hreconcile : gen.transition = .reconcile
  · rw [if_pos hreconcile, horigin, bind_some, contributionName]
    by_cases hshape : contributionNameShape profile = true
    · simp [evaluatedProfile, hshape, hreconcile]
    · simp [evaluatedProfile, hshape]
  · rw [if_neg hreconcile]
    simp [evaluatedProfile, hreconcile]

end Run

/-! ## 5. A small run -/

/-- Identities that tell the packs of the small run apart. -/
def profileLockCodec : LockCodec where
  nodeId _ _ digest := digest
  graphDigest rootNodeId _ := rootNodeId

def profileStaticCodec : StaticCodec where
  profilesDigest entries := ⟨entries.length⟩
  selectionDigest _ value := ⟨value.length⟩

def profileLock : Lock profileLockCodec where
  rootNodeId := ⟨8⟩
  nodes := [{
    nodeId := ⟨8⟩, packageId := ['a', '.', 'b'], source := .root, contentDigest := ⟨8⟩
    dependencies := [], components := []
    nodeId_eq := rfl
    dependencies_bounded := by decide
    components_bounded := by decide
    aliases_sorted := by decide
    names_sorted := by decide }]
  sorted := by simp
  valid := by decide +kernel

def profileGraph : AssembledLockedGraph profileLockCodec where
  graphDigest := ⟨8⟩
  rootNodeId := ⟨8⟩
  lock := profileLock
  packs := .empty
  dependencyOrder := [⟨8⟩]

def profileCapture : StaticCapture profileLockCodec :=
  ⟨.authoring, profileGraph, ['e'], ['d'], ['b'], [⟨.authoringEvaluator, [], ⟨1⟩⟩]⟩

/-- Reconciles a new namespace with profile `b`. -/
def profilePlan : PreparedRecord :=
  { samplePlan ['w'] 1 with
    graphDigest := ⟨8⟩
    inputs := sortInputs (staticInputs profileStaticCodec profileCapture) }

def profileAuthorityPlan : PreparedRecord :=
  { samplePlan ['w'] 2 with
    expectedHead := some ⟨101⟩
    transition := .retentionAuthority
    retention := ⟨16, [], []⟩
    graphDigest := ⟨8⟩
    inputs := sortInputs (lifecycleInputs (.retentionAuthority "history-policy".toList) ⟨101⟩
      (some profilePlan)) }

def profileObjects (plans : List PreparedRecord) : ObjectStore :=
  { sampleObjects plans with packs := SortedMap.empty.insert ⟨8⟩ (publishedFile ⟨⟨8⟩, 3⟩) }

def profileGeneration : StateGeneration := generationOf ⟨1⟩ none profilePlan

theorem profile_published {planId : PreparedId}
    (h : loadPrepared sampleCodec (profileObjects [profilePlan]) planId = .ok record) :
    EngineInputs profileStaticCodec profileLockCodec record.inputs := by
  have hfile := (loadPrepared_ok h).1
  have hmap : (profileObjects [profilePlan]).prepared =
      SortedMap.empty.insert ⟨1⟩ (publishedFile (.canonical profilePlan)) := rfl
  rw [hmap] at hfile
  rcases SortedMap.of_get?_insert hfile with ⟨-, hfile⟩ | hfile
  · cases hfile
    exact .static profileCapture
  · cases hfile

/-- Two plans are committed, and after each the enabled head holds targets of profile `b`. -/
theorem profile_run : ∃ first snd : StoreState, ∃ origins origins' : Origins,
    ProfileRun sampleCodec profileStaticCodec profileLockCodec ['w'] first origins ∧
      ProfileRun sampleCodec profileStaticCodec profileLockCodec ['w'] snd origins' ∧
      origins ⟨101⟩ = some ['b'] ∧ origins' ⟨102⟩ = some ['b'] ∧
      inspectLineage sampleCodec first ['w'] 1 = .ok [(⟨101⟩, profileGeneration)] ∧
      inspectLineage sampleCodec snd ['w'] 1 =
        .ok [(⟨102⟩, generationOf ⟨2⟩ (some ⟨101⟩) profileAuthorityPlan)] := by
  have hcheck : okAnd (commitStore sampleCodec sampleMachine
        ⟨profileObjects [profilePlan, profileAuthorityPlan], .empty⟩ (sampleRequest 1))
      (fun first => first.1 = profilePlan &&
        okAnd (inspectLineage sampleCodec first.2 ['w'] 1)
          (fun lineage => lineage = [(⟨101⟩, profileGeneration)]) &&
        okAnd (commitStore sampleCodec sampleMachine first.2 (sampleRequest 2))
          fun snd => snd.1 = profileAuthorityPlan &&
            okAnd (inspectLineage sampleCodec snd.2 ['w'] 1)
              fun lineage =>
                lineage = [(⟨102⟩, generationOf ⟨2⟩ (some ⟨101⟩) profileAuthorityPlan)]) = true := by
    decide +kernel
  obtain ⟨⟨plan, first⟩, hfirst, hrest⟩ := okAnd_iff.1 hcheck
  simp only [and_eq_true, decide_eq_true_eq] at hrest
  obtain ⟨⟨rfl, hinspected⟩, hsecond⟩ := hrest
  obtain ⟨lineage, hlineage, hhead⟩ := okAnd_iff.1 hinspected
  obtain rfl := of_decide_eq_true hhead
  obtain ⟨⟨plan, snd⟩, hsecond, hrest⟩ := okAnd_iff.1 hsecond
  simp only [and_eq_true, decide_eq_true_eq] at hrest
  obtain ⟨rfl, hinspected⟩ := hrest
  obtain ⟨lineage, hlineage', hhead⟩ := okAnd_iff.1 hinspected
  obtain rfl := of_decide_eq_true hhead
  have hseen : loadRetainedGraphRecord sampleCodec (profileObjects [profilePlan])
      profileGeneration = .ok (some profilePlan) := by
    decide +kernel
  have hselected : first.catalog.generation ['w'] = some ⟨101⟩ := (inspectLineage_head hlineage).1
  have hrun : ProfileRun sampleCodec profileStaticCodec profileLockCodec ['w'] first _ :=
    .reconcile (.initial rfl) profilePlan ⟨_, _, hfirst⟩ rfl rfl profileCapture rfl ⟨101⟩ hselected
  have hrun' := hrun.lifecycle profileAuthorityPlan ⟨_, _, hsecond⟩ rfl
    (.retentionAuthority "history-policy".toList) rfl _ (fun _ _ => profile_published) _ _ hseen
    ⟨101⟩ rfl ⟨102⟩ (inspectLineage_head hlineage').1
  refine ⟨first, snd, _, _, hrun, hrun', ?_, ?_, hlineage, hlineage'⟩
  · rw [update_self]
    rfl
  · rw [update_self, hselected]
    rfl

/-- Right after the reconcile the profile is kept. -/
theorem deployed_profile_kept_iff_sample : ∃ (state : StoreState) (origins : Origins),
    ProfileRun sampleCodec profileStaticCodec profileLockCodec ['w'] state origins ∧
      origins ⟨101⟩ = some ['b'] ∧
      evaluatedProfile none (deployedStaticProfile sampleCodec state ['w']) (some ['a']) =
        some ['b'] := by
  obtain ⟨first, -, origins, -, hrun, -, horigin, -, hinspected, -⟩ := profile_run
  refine ⟨first, origins, hrun, horigin, ?_⟩
  exact (deployed_profile_kept_iff hrun hinspected rfl horigin (some ['a'])).2
    (Or.inl ⟨rfl, by decide⟩)

/-- A change of the retention authority loses it: the default `a` is evaluated. -/
theorem authority_change_loses_profile :
    ¬ ∀ (codec : ObjectCodec) (staticCodec : StaticCodec) (lockCodec : LockCodec)
        (ns : NamespaceName) (state : StoreState) (origins : Origins)
        (head : Digest) (gen : StateGeneration) (profile : Text)
        (sourceDefault : Option Text),
        ProfileRun codec staticCodec lockCodec ns state origins →
        inspectLineage codec state ns 1 = .ok [(head, gen)] →
        gen.lifecycle = .enabled → origins head = some profile →
          evaluatedProfile none (deployedStaticProfile codec state ns) sourceDefault =
            some profile := by
  intro h
  obtain ⟨-, second, -, origins, -, hrun, -, horigin, -, hinspected⟩ := profile_run
  have hkept := h _ _ _ _ _ _ _ _ _ (some ['a']) hrun hinspected rfl horigin
  have hlost : deployedStaticProfile sampleCodec second ['w'] = none := by
    obtain ⟨found, prepared, hload, hplan, hprofile⟩ :=
      hrun.headRecorded _ (inspectLineage_head hinspected).1
    obtain rfl := ok.inj ((inspectLineage_head hinspected).2.symm.trans hload)
    rw [deployedStaticProfile_eq hinspected rfl hplan, hprofile]
    rfl
  rw [hlost] at hkept
  revert hkept
  decide

end Malm.Engine
