/-
Malm.Commit.Checkout — the generations that a checkout may use
(`inspect_checkout_generations_v1`, `inspect_generation_inventory_v1`).

They read what the head, its restore points and its pins retain, so no prune changes an
answer (`checkout_sources_survive_prune`).
-/
import Malm.Commit.Inspection
import Malm.Commit.PruneTheorems
import Malm.Lib.Lockstep

namespace Malm.Commit

open Store Checks List Option Except Nat

variable {decodedBytes : Nat} {gen : StateGeneration}

/-! ## 1. Inspection -/

/-- `charge_inspection_bytes`, of a `u64`. -/
def chargeInspectionBytes (total bytes maximum : Nat) : Except CommitError Nat := do
  reject (2 ^ 64 ≤ total + bytes) (.invalidStore "inspection byte budget overflowed")
  reject (maximum < total + bytes) (.invalidStore
    s!"inspection decoded bytes exceed the requested {maximum} byte limit")
  return total + bytes

section Checkout

variable (codec : ObjectCodec) (store : ObjectStore) (namespaceName : NamespaceName)

def inspectPredecessor (maximum : Nat) : Option Digest → Nat →
    Except CommitError (Option StateGeneration × Nat)
  | none, decodedBytes => .ok (none, decodedBytes)
  | some digest, decodedBytes => do
    let (previous, bytes) ← loadGenerationWithEncodedLen codec store digest
    let decodedBytes ← chargeInspectionBytes decodedBytes bytes maximum
    return (some previous, decodedBytes)

/-- The loop of `inspect_lineage`, with the records its limit leaves. -/
def inspectRecords (maximum : Nat) : Nat → List Digest → Digest → Nat →
    Except CommitError (List (Digest × StateGeneration) × Nat)
  | 0, _, _, decodedBytes => .ok ([], decodedBytes)
  | left + 1, seen, digest, decodedBytes => do
    reject (digest ∈ seen) (.invalidStore
      s!"namespace {String.ofList namespaceName} generation history contains a cycle")
    let (generation, bytes) ← loadGenerationWithEncodedLen codec store digest
    let decodedBytes ← chargeInspectionBytes decodedBytes bytes maximum
    reject (generation.namespaceName ≠ namespaceName) (.invalidStore
      s!"namespace {String.ofList namespaceName} history enters a generation for another namespace")
    let (prepared, bytes) ←
      asGenerationValidation (loadPreparedWithEncodedLen codec store generation.planId)
    let decodedBytes ← chargeInspectionBytes decodedBytes bytes maximum
    let following := if left = 0 then none else generation.previousGeneration
    let (previous, decodedBytes) ←
      inspectPredecessor codec store maximum following decodedBytes
    let rebuilt ← asInvalidStore
      (if left = 0 ∧ generation.previousGeneration.isSome then
        fromRetainedPrepared codec.toCodec generation.planId generation.previousGeneration prepared
      else
        fromPrepared codec.toCodec generation.planId generation.previousGeneration previous
          prepared)
    reject (rebuilt ≠ generation)
      (.invalidStore "state generation does not match its prepared transition")
    match following with
    | none => return ([(digest, generation)], decodedBytes)
    | some previous => do
      let (rest, decodedBytes) ←
        inspectRecords maximum left (digest :: seen) previous decodedBytes
      return ((digest, generation) :: rest, decodedBytes)

/-- The loop over the history of `load_effectively_retained_generation`: the generation and
its validation depth. -/
def retainedInHistory (target : Digest) : Nat → Digest → StateGeneration →
    Except CommitError (Option (StateGeneration × Nat))
  | 0, _, _ => .ok none
  | left + 1, digest, generation =>
    if digest = target then .ok (some (generation, left + 1))
    else
      match if left = 0 then none else generation.previousGeneration with
      | none => .ok none
      | some previous => do
        let generation ← loadGeneration codec store previous
        reject (generation.namespaceName ≠ namespaceName)
          (.invalidStore "selected generation history changes namespace")
        retainedInHistory target left previous generation

def loadEffectivelyRetainedGeneration (currentDigest : Digest) (current : StateGeneration)
    (target : Digest) : Except CommitError (StateGeneration × Nat) := do
  reject (current.namespaceName ≠ namespaceName)
    (.invalidStore "selected generation belongs to another namespace")
  match ← retainedInHistory codec store namespaceName target current.retention.history
      currentDigest current with
  | some authorized => return authorized
  | none => do
    let restorePoint := current.retention.restorePoints.find? (·.generation = target)
    reject (restorePoint.isNone ∧ .stateGeneration target ∉ current.retention.explicitPins)
      (.invalidStore "generation is not retained by the current namespace authority")
    let generation ← loadGeneration codec store target
    reject (generation.namespaceName ≠ namespaceName)
      (.invalidStore "retained generation belongs to another namespace")
    restorePoint.toList.forM fun point =>
      (validateRestorePointReference point target generation).mapError fun _ =>
        .invalidStore "restore point differs from its retained generation"
    return (generation, 1)

/-- `inspect_checkout_generations_v1`: the head, its generation and that of the target. -/
def inspectCheckoutGenerations (state : StoreState) (target : Digest) :
    Except CommitError (Digest × StateGeneration × StateGeneration) := do
  let catalog ← readCatalog codec state
  let currentDigest ← require (catalog.generation namespaceName) (.invalidStore
    s!"checkout requires a head for namespace {String.ofList namespaceName}")
  let current ← loadGeneration codec state.objects currentDigest
  reject (current.namespaceName ≠ namespaceName)
    (.invalidStore "checkout head belongs to another namespace")
  let (generation, validationDepth) ← loadEffectivelyRetainedGeneration codec state.objects
    namespaceName currentDigest current target
  let _ ← inspectRecords codec state.objects namespaceName maxLineageValidationBytes
    validationDepth [] target 0
  return (currentDigest, current, generation)

structure GenerationInventoryRequest where
  namespaceName : NamespaceName
  maxGenerations : Nat
  maxDecodedBytes : Nat

/-- The restore points and the pinned generations of an authority. -/
def directGenerations (authority : RetentionAuthority) : List Digest :=
  authority.restorePoints.map RestorePoint.generation ++
    authority.explicitPins.filterMap fun
      | .stateGeneration digest => some digest
      | _ => none

/-- One generation of the loop over `direct`. -/
def inspectDirect (current : StateGeneration) (directBytes : Nat) (digest : Digest) :
    Except CommitError Nat := do
  let (generation, directBytes) ←
    validateDirectlyRetainedGeneration codec store digest directBytes
  reject (generation.namespaceName ≠ namespaceName)
    (.invalidStore "retained generation belongs to another namespace")
  (current.retention.restorePoints.find? (·.generation = digest)).toList.forM fun point =>
    (validateRestorePointReference point digest generation).mapError fun _ =>
      .invalidStore "restore point differs from its retained generation"
  return directBytes

/-- `inspect_generation_inventory_v1`: the generations and the bytes decoded for them. -/
def inspectGenerationInventory (state : StoreState) (request : GenerationInventoryRequest) :
    Except CommitError (List Digest × Nat) := do
  let name := request.namespaceName
  let head ← require (state.catalog.generation name) (.invalidStore
    s!"generation inventory requires a head for namespace {String.ofList name}")
  let current ← loadGeneration codec state.objects head
  reject (current.namespaceName ≠ name)
    (.invalidStore "selected generation belongs to another namespace")
  let (history, historyBytes) ← inspectRecords codec state.objects name request.maxDecodedBytes
    current.retention.history [] head 0
  let generations := history.map Prod.fst
  let direct := (sortedSet (directGenerations current.retention)).filter (· ∉ generations)
  reject (request.maxGenerations < (sortedSet generations).length + direct.length)
    (.invalidStore "generation inventory exceeds its requested item limit")
  let directBytes ← direct.foldlM (inspectDirect codec state.objects name current) 0
  reject (2 ^ 64 ≤ historyBytes + directBytes)
    (.invalidStore "generation inventory byte accounting overflowed")
  reject (request.maxDecodedBytes < historyBytes + directBytes)
    (.invalidStore "generation inventory exceeds its requested decoded-byte limit")
  return (sortedSet (generations ++ direct), historyBytes + directBytes)

end Checkout

/-! ## 2. Records that two stores share -/

variable {codec : ObjectCodec} {machine : Machine} {namespaceName : NamespaceName}

section Agree

variable {store next : ObjectStore} {digest : Digest}

theorem loadGenerationWithEncodedLen_congr
    (h : next.generations.get? digest = store.generations.get? digest) :
    loadGenerationWithEncodedLen codec next digest =
      loadGenerationWithEncodedLen codec store digest := by
  unfold loadGenerationWithEncodedLen
  rw [h]

theorem loadPreparedWithEncodedLen_congr {planId : PreparedId}
    (h : next.prepared.get? planId = store.prepared.get? planId) :
    loadPreparedWithEncodedLen codec next planId = loadPreparedWithEncodedLen codec store planId := by
  unfold loadPreparedWithEncodedLen
  rw [h]

theorem AgreeOn.plan {ds : List Digest} {gen : StateGeneration}
    (h : AgreeOn store next ds) (hmem : digest ∈ ds)
    (hload : loadGeneration codec store digest = .ok gen) :
    next.prepared.get? gen.planId = store.prepared.get? gen.planId :=
  (h digest hmem).2 gen (loadGeneration_ok hload).record

theorem AgreeOn.below {left : Nat} {prev : Digest}
    (h : AgreeOn store next (chain store (left + 1) digest))
    (hload : loadGeneration codec store digest = .ok gen)
    (hprev : gen.previousGeneration = some prev) :
    AgreeOn store next (chain store left prev) := by
  rw [chain_predecessor (by rw [predecessor_of_load hload, hprev])] at h
  exact h.tail

theorem inspectPredecessor_congr {maximum : Nat} {following : Option Digest}
    (h : ∀ prev, following = some prev → next.generations.get? prev = store.generations.get? prev) :
    inspectPredecessor codec next maximum following decodedBytes =
      inspectPredecessor codec store maximum following decodedBytes := by
  cases following with
  | none => rfl
  | some prev =>
    simp only [inspectPredecessor, loadGenerationWithEncodedLen_congr (h prev rfl)]

theorem inspectRecords_congr {maximum : Nat} : ∀ {left : Nat} {seen : List Digest}
    {digest : Digest} {decodedBytes : Nat}, AgreeOn store next (chain store left digest) →
      inspectRecords codec next namespaceName maximum left seen digest decodedBytes =
        inspectRecords codec store namespaceName maximum left seen digest decodedBytes
  | 0, _, _, _, _ => rfl
  | left + 1, seen, digest, decodedBytes, h => by
    have hmem := self_mem_chain store left digest
    simp only [inspectRecords]
    refine bind_congr_ok fun _ _ => ?_
    rw [loadGenerationWithEncodedLen_congr (h digest hmem).1]
    refine bind_congr_ok fun loaded hloaded => ?_
    obtain ⟨gen, bytes⟩ := loaded
    have hload := (loadGenerationWithEncodedLen_iff.1 hloaded).1
    have hfollowing : ∀ prev,
        (if left = 0 then none else gen.previousGeneration) = some prev →
          AgreeOn store next (chain store left prev) ∧ left ≠ 0 := by
      intro prev hprev
      by_cases hfloor : left = 0
      · simp [hfloor] at hprev
      · rw [if_neg hfloor] at hprev
        exact ⟨h.below hload hprev, hfloor⟩
    refine bind_congr_ok fun _ _ => bind_congr_ok fun _ _ => ?_
    rw [loadPreparedWithEncodedLen_congr (h.plan hmem hload)]
    refine bind_congr_ok fun _ _ => bind_congr_ok fun _ _ => ?_
    rw [inspectPredecessor_congr]
    · refine bind_congr_ok fun _ _ => bind_congr_ok fun _ _ => bind_congr_ok fun _ _ => ?_
      cases hnext : (if left = 0 then none else gen.previousGeneration) with
      | none => rfl
      | some prev => simp only [inspectRecords_congr (hfollowing prev hnext).1]
    · intro prev hprev
      obtain ⟨hbelow, hfloor⟩ := hfollowing prev hprev
      obtain ⟨below, rfl⟩ := exists_eq_succ_of_ne_zero hfloor
      exact (hbelow prev (self_mem_chain store below prev)).1

theorem retainedInHistory_congr {t : Digest} : ∀ {left : Nat} {digest : Digest}
    {gen : StateGeneration}, loadGeneration codec store digest = .ok gen →
      AgreeOn store next (chain store left digest) →
      retainedInHistory codec next namespaceName t left digest gen =
          retainedInHistory codec store namespaceName t left digest gen ∧
        ∀ found depth, retainedInHistory codec store namespaceName t left digest gen =
          .ok (some (found, depth)) → AgreeOn store next (chain store depth t)
  | 0, _, _, _, _ => ⟨rfl, fun _ _ h => by simp [retainedInHistory] at h⟩
  | left + 1, digest, gen, hload, h => by
    simp only [retainedInHistory]
    by_cases hsame : digest = t
    · simp only [hsame, if_true, ok.injEq, some.injEq, Prod.mk.injEq, true_and]
      rintro found depth ⟨-, rfl⟩
      exact hsame ▸ h
    · simp only [hsame, if_false]
      cases hnext : (if left = 0 then none else gen.previousGeneration) with
      | none => exact ⟨rfl, fun _ _ h => by simp at h⟩
      | some prev =>
        have hfloor : left ≠ 0 := fun hfloor => by simp [hfloor] at hnext
        rw [if_neg hfloor] at hnext
        have hbelow := h.below hload hnext
        obtain ⟨below, rfl⟩ := exists_eq_succ_of_ne_zero hfloor
        have hget := (hbelow prev (self_mem_chain store below prev)).1
        simp only [loadGeneration_congr hget]
        refine ⟨bind_congr_ok fun other hother => ?_, fun found depth hfound => ?_⟩
        · simp only [(retainedInHistory_congr hother hbelow).1]
        · simp only [bind_ok, exists_unit] at hfound
          obtain ⟨other, hother, -, hfound⟩ := hfound
          exact (retainedInHistory_congr hother hbelow).2 found depth hfound

theorem validateVisited_congr {retainedFloor : Bool}
    (hplan : next.prepared.get? gen.planId = store.prepared.get? gen.planId)
    (hprev : retainedFloor = false → ∀ prev, gen.previousGeneration = some prev →
      next.generations.get? prev = store.generations.get? prev) :
    validateVisited codec next none digest gen retainedFloor decodedBytes =
      validateVisited codec store none digest gen retainedFloor decodedBytes := by
  simp only [validateVisited, selectedCandidate, filter_none]
  cases retainedFloor with
  | true =>
    simp only [if_true, validateRetainedGenerationTransitionWithBudget,
      loadPreparedWithEncodedLen_congr hplan]
  | false =>
    have hpred : ∀ decodedBytes, loadPredecessor codec next gen.previousGeneration
        decodedBytes = loadPredecessor codec store gen.previousGeneration decodedBytes := by
      intro decodedBytes
      cases hsome : gen.previousGeneration with
      | none => rfl
      | some prev =>
        simp only [loadPredecessor, loadGenerationWithEncodedLen_congr (hprev rfl prev hsome)]
    simp only [Bool.false_eq_true, if_false, validateGenerationTransitionWithBudget,
      loadPreparedWithEncodedLen_congr hplan, hpred]

/-- The records that a walk may still read, once it has read this one. -/
def WalkAgrees (codec : ObjectCodec) (store next : ObjectStore) (walk : LineageWalk)
    (digest : Digest) : Prop :=
  next.generations.get? digest = store.generations.get? digest ∧
    ∀ generation, loadGeneration codec store digest = .ok generation →
      ∃ left, walk.retainedLimit.getD generation.retention.history =
          walk.retainedCount + left + 1 ∧
        AgreeOn store next (chain store (left + 1) digest)

theorem visitGeneration_congr {depth : LineageDepth} {state : LineageState} {walk : LineageWalk}
    (h : WalkAgrees codec store next walk digest) :
    visitGeneration codec next none depth namespaceName state walk digest =
        visitGeneration codec store none depth namespaceName state walk digest ∧
      ∀ after walkAfter prev, visitGeneration codec store none depth namespaceName state walk
        digest = .ok (after, walkAfter, some prev) →
          WalkAgrees codec store next walkAfter prev := by
  obtain ⟨hget, hagrees⟩ := h
  constructor
  · simp only [visitGeneration, lineageRecord, selectedCandidate, filter_none]
    refine bind_congr_ok fun _ _ => ?_
    rw [loadGenerationWithEncodedLen_congr hget]
    refine bind_congr_ok fun loaded hloaded => ?_
    obtain ⟨gen, bytes⟩ := loaded
    have hload := (loadGenerationWithEncodedLen_iff.1 hloaded).1
    obtain ⟨left, hbound, hagree⟩ := hagrees gen hload
    refine bind_congr_ok fun _ _ => bind_congr_ok fun _ _ => bind_congr_ok fun _ _ => ?_
    split
    · rfl
    · rw [validateVisited_congr (hagree.plan (self_mem_chain store left digest) hload)]
      intro hfloor prev hprev
      have hleft : left ≠ 0 := by
        rintro rfl
        simp [hbound] at hfloor
      obtain ⟨below, rfl⟩ := exists_eq_succ_of_ne_zero hleft
      exact (hagree.below hload hprev prev (self_mem_chain store below prev)).1
  · intro after walkAfter prev hvisit
    simp only [visitGeneration, bind_ok, exists_unit] at hvisit
    obtain ⟨-, ⟨gen, length⟩, hrec, decoded, -, selected, -, -, hvisit⟩ := hvisit
    have hloaded : loadGenerationWithEncodedLen codec store digest = .ok (gen, length) :=
      hrec
    have hload := (loadGenerationWithEncodedLen_iff.1 hloaded).1
    obtain ⟨left, hbound, hagree⟩ := hagrees gen hload
    rw [hbound] at hvisit
    split at hvisit
    · simp only [bind_ok, pure_ok, Prod.mk.injEq] at hvisit
      obtain ⟨-, -, -, -, hnone⟩ := hvisit
      cases hnone
    · simp only [bind_ok, pure_ok, Prod.mk.injEq] at hvisit
      obtain ⟨-, -, -, rfl, hfollowing⟩ := hvisit
      by_cases hfloor : left = 0
      · simp [hfloor] at hfollowing
      · rw [if_neg (by omega)] at hfollowing
        obtain ⟨below, rfl⟩ := exists_eq_succ_of_ne_zero hfloor
        have hbelow := hagree.below hload hfollowing
        refine ⟨(hbelow prev (self_mem_chain store below prev)).1, fun _ _ => ⟨below, ?_,
          hbelow⟩⟩
        simp only [getD_some]
        omega

theorem walkLineage_congr {depth : LineageDepth} : ∀ {fuel : Nat} {state : LineageState}
    {walk : LineageWalk} {start : Option Digest},
      (∀ digest, start = some digest → WalkAgrees codec store next walk digest) →
      walkLineage codec next none depth namespaceName fuel state walk start =
        walkLineage codec store none depth namespaceName fuel state walk start
  | _, _, _, none, _ => by simp only [walkLineage]
  | 0, _, _, some _, _ => by simp only [walkLineage]
  | left + 1, state, walk, some digest, h => by
    obtain ⟨hvisit, hafter⟩ := @visitGeneration_congr codec namespaceName store next digest depth
      state walk (h digest rfl)
    simp only [walkLineage, hvisit]
    split
    · rfl
    · split
      · rfl
      · refine bind_congr_ok fun visited hvisited => ?_
        obtain ⟨after, walkAfter, following⟩ := visited
        exact walkLineage_congr fun prev hprev =>
          hafter after walkAfter prev (hprev ▸ hvisited)

theorem validateDirectlyRetainedGeneration_congr (h : AgreeOn store next [digest]) :
    validateDirectlyRetainedGeneration codec next digest decodedBytes =
      validateDirectlyRetainedGeneration codec store digest decodedBytes := by
  have hmem : digest ∈ [digest] := mem_singleton_self digest
  simp only [validateDirectlyRetainedGeneration, loadGenerationWithEncodedLen_congr (h digest hmem).1]
  refine bind_congr_ok fun loaded hloaded => ?_
  obtain ⟨gen, bytes⟩ := loaded
  have hload := (loadGenerationWithEncodedLen_iff.1 hloaded).1
  simp only [validateRetainedGenerationTransitionWithBudget,
    loadPreparedWithEncodedLen_congr (h.plan hmem hload)]

theorem loadGeneration_kept_head {cur : StateGeneration}
    (h : AgreeOn store next (chain store cur.retention.history digest))
    (hload : loadGeneration codec store digest = .ok cur) :
    loadGeneration codec next digest = loadGeneration codec store digest := by
  obtain ⟨left, hleft⟩ := exists_eq_succ_of_ne_zero (Nat.ne_of_gt (history_pos hload))
  rw [hleft] at h
  exact loadGeneration_congr (h digest (self_mem_chain store left digest)).1

theorem mem_directGenerations {target : Digest} {auth : RetentionAuthority}
    (h : ¬ ((auth.restorePoints.find? (·.generation = target)).isNone ∧
      .stateGeneration target ∉ auth.explicitPins)) :
    target ∈ directGenerations auth := by
  by_cases hpin : .stateGeneration target ∈ auth.explicitPins
  · exact mem_append_right _ (mem_filterMap.2 ⟨_, hpin, rfl⟩)
  · cases hfind : auth.restorePoints.find? (·.generation = target) with
    | none => exact absurd ⟨by rw [hfind]; rfl, hpin⟩ h
    | some point =>
      have hsame : point.generation = target := by simpa using List.find?_some hfind
      exact mem_append_left _
        (List.mem_map.2 ⟨point, List.mem_of_find?_eq_some hfind, hsame⟩)

theorem loadEffectivelyRetained_congr {cur : StateGeneration} {target : Digest}
    (hload : loadGeneration codec store digest = .ok cur)
    (hchain : AgreeOn store next (chain store cur.retention.history digest))
    (hdirect : ∀ digest ∈ directGenerations cur.retention, AgreeOn store next [digest]) :
    loadEffectivelyRetainedGeneration codec next namespaceName digest cur target =
        loadEffectivelyRetainedGeneration codec store namespaceName digest cur target ∧
      ∀ found depth, loadEffectivelyRetainedGeneration codec store namespaceName digest cur
        target = .ok (found, depth) → AgreeOn store next (chain store depth target) := by
  obtain ⟨hsame, hdepth⟩ := @retainedInHistory_congr codec namespaceName store next target _ _ _
    hload hchain
  unfold loadEffectivelyRetainedGeneration
  constructor
  · refine bind_congr_ok fun _ _ => ?_
    rw [hsame]
    refine bind_congr_ok fun authorized _ => ?_
    cases authorized with
    | some authorized => rfl
    | none =>
      refine bind_congr_ok fun _ hretained => ?_
      have hagree := hdirect target (mem_directGenerations (reject_ok.1 hretained))
      simp only [loadGeneration_congr (hagree target (mem_singleton_self target)).1]
  · intro found depth h
    simp only [bind_ok, exists_unit] at h
    obtain ⟨-, authorized, hauthorized, h⟩ := h
    cases authorized with
    | some authorized =>
      obtain rfl := ok.inj h
      exact hdepth found depth hauthorized
    | none =>
      simp only [bind_ok, exists_unit, reject_ok, pure_ok, Prod.mk.injEq] at h
      obtain ⟨hretained, gen, -, -, -, -, rfl⟩ := h
      intro digest hmem
      obtain rfl : digest = target := by
        cases hprev : predecessor store target <;> simpa [chain, hprev] using hmem
      exact hdirect digest (mem_directGenerations hretained) digest
        (mem_singleton_self digest)

end Agree

/-! ## 3. Prunes -/

section Prune

variable {state next : StoreState} {request : PruneRequest}

theorem planPrune_heads {plan : PrunePlan} (h : planPrune codec machine state request = .ok plan) :
    ∀ head ∈ state.catalog.heads, ∃ gen,
      loadGeneration codec state.objects head.generation = .ok gen := by
  unfold planPrune reachRetained collectRoots at h
  simp only [bind_ok, exists_unit] at h
  obtain ⟨loaded, hload, -, _, ⟨_, ⟨_, hheads, -⟩, -⟩, -⟩ := h
  intro head hmem
  obtain ⟨before, after, hstep⟩ := foldlM_ok_of_mem hheads hmem
  simp only [collectHeadRoots, bind_ok, require_ok] at hstep
  obtain ⟨gen, hget, -⟩ := hstep
  exact ⟨gen, ((loadWholeStore_ok hload).1.generations _ _).1 hget⟩

variable (hprune : pruneStore codec machine state request = .ok next)

include hprune

theorem prune_agrees {digest : Digest} {limit : Nat}
    (hroot : PruneRoot codec state request (.generation digest limit)) :
    AgreeOn state.objects next.objects (chain state.objects limit digest) := by
  intro found hmem
  have hretains : Retains codec state.objects (PruneRoot codec state request)
      (Unswept codec state.objects request) (.generation found) := .lineage hroot hmem
  refine ⟨pruneStore_same hprune hretains, fun gen hrec => ?_⟩
  -- every stored record loads, or the prune had failed
  obtain ⟨plan, hplan, -⟩ := pruneStore_ok hprune
  obtain ⟨⟨loaded, hloaded, -⟩, -⟩ := planPrune_ok hplan
  have hkey : found ∈ loaded.generations.keys := by
    rw [hloaded.generationKeys, SortedMap.mem_keys]
    cases hget : state.objects.generations.get? found with
    | none => simp [ObjectStore.record, hget] at hrec
    | some file => exact ⟨file, rfl⟩
  obtain ⟨known, hknown⟩ := SortedMap.mem_keys.1 hkey
  have hload := (hloaded.generations found known).1 hknown
  obtain rfl := some.inj ((loadGeneration_ok hload).record.symm.trans hrec)
  exact pruneStore_same hprune (.source hretains hload)

theorem prune_catalog : next.catalog = state.catalog := by
  obtain ⟨plan, -, rfl⟩ := pruneStore_ok hprune
  rfl

/-- The head of a namespace with its generation, and what its authority names. -/
theorem prune_agrees_head {head : NamespaceHead} (hmem : head ∈ state.catalog.heads)
    (hload : loadGeneration codec state.objects head.generation = .ok gen) :
    AgreeOn state.objects next.objects
        (chain state.objects gen.retention.history head.generation) ∧
      ∀ digest ∈ directGenerations gen.retention,
        AgreeOn state.objects next.objects [digest] := by
  refine ⟨prune_agrees hprune (.inl ⟨head, hmem, gen, hload, .inl rfl⟩),
    fun digest hdigest => ?_⟩
  have hroot : .generation digest 1 ∈
      recordRoots gen.restorePoint gen.retention := by
    rcases mem_append.1 hdigest with hpoint | hpin
    · obtain ⟨point, hmem, rfl⟩ := List.mem_map.1 hpoint
      exact mem_append_left _ (List.mem_map.2 ⟨point, mem_append_right _ hmem, rfl⟩)
    · obtain ⟨pin, hpin, hsome⟩ := mem_filterMap.1 hpin
      refine mem_append_right _ (List.mem_map.2 ⟨pin, hpin, ?_⟩)
      cases pin <;> simp_all [pinRoot]
  have hagree := prune_agrees hprune (.inl ⟨head, hmem, gen, hload, .inr hroot⟩)
  intro found hfound
  rw [mem_singleton.1 hfound]
  exact hagree digest (self_mem_chain _ 0 digest)

theorem readCatalog_pruned : readCatalog codec next = readCatalog codec state := by
  obtain ⟨plan, hplan, -⟩ := pruneStore_ok hprune
  unfold readCatalog validateCatalogLineages
  rw [prune_catalog hprune, foldlM_congr]
  intro head hmem _
  unfold walkHead
  refine walkLineage_congr fun digest hdigest => ?_
  obtain rfl := some.inj hdigest
  obtain ⟨gen, hload⟩ := planPrune_heads hplan head hmem
  have hagree := (prune_agrees_head hprune hmem hload).1
  have hpos := history_pos hload
  obtain ⟨left, hleft⟩ := exists_eq_succ_of_ne_zero (Nat.ne_of_gt hpos)
  refine ⟨(hagree _ ?_).1, fun known hknown => ⟨left, ?_, ?_⟩⟩
  · rw [hleft]
    exact self_mem_chain _ left _
  · obtain rfl := ok.inj (hload.symm.trans hknown)
    simp only [getD_none]
    omega
  · rwa [← succ_eq_add_one, ← hleft]

/-- **Prunes keep every checkout source.** A prune changes neither what a checkout finds nor
the generations that an inventory lists. -/
theorem checkout_sources_survive_prune :
    (∀ (namespaceName : NamespaceName) (target : Digest),
      inspectCheckoutGenerations codec namespaceName next target =
        inspectCheckoutGenerations codec namespaceName state target) ∧
      ∀ inventory, inspectGenerationInventory codec next inventory =
        inspectGenerationInventory codec state inventory := by
  obtain ⟨plan, hplan, -⟩ := pruneStore_ok hprune
  have hheads : ∀ {namespaceName : NamespaceName} {digest : Digest},
      state.catalog.generation namespaceName = some digest →
        ∃ head ∈ state.catalog.heads, head.generation = digest := by
    intro namespaceName digest h
    obtain ⟨head, hfind, hdigest⟩ := map_eq_some_iff.1 h
    exact ⟨head, List.mem_of_find?_eq_some hfind, hdigest⟩
  constructor
  · intro namespaceName target
    unfold inspectCheckoutGenerations
    rw [readCatalog_pruned hprune]
    refine bind_congr_ok fun catalog hcatalog => bind_congr_ok fun digest hdigest => ?_
    obtain rfl := readCatalog_ok hcatalog
    obtain ⟨head, hmem, rfl⟩ := hheads (require_ok.1 hdigest)
    obtain ⟨current, hload⟩ := planPrune_heads hplan head hmem
    obtain ⟨hchain, hdirect⟩ := prune_agrees_head hprune hmem hload
    obtain ⟨hsame, hdepth⟩ := @loadEffectivelyRetained_congr codec namespaceName _ _ _ current
      target hload hchain hdirect
    rw [loadGeneration_kept_head hchain hload]
    refine bind_congr_ok fun found hfound => bind_congr_ok fun _ _ => ?_
    obtain rfl := ok.inj (hload.symm.trans hfound)
    rw [hsame]
    refine bind_congr_ok fun authorized hauthorized => ?_
    obtain ⟨gen, validationDepth⟩ := authorized
    simp only [inspectRecords_congr (hdepth gen validationDepth hauthorized)]
  · intro inventory
    unfold inspectGenerationInventory
    rw [prune_catalog hprune]
    refine bind_congr_ok fun digest hdigest => ?_
    obtain ⟨head, hmem, rfl⟩ := hheads (require_ok.1 hdigest)
    obtain ⟨current, hload⟩ := planPrune_heads hplan head hmem
    obtain ⟨hchain, hdirect⟩ := prune_agrees_head hprune hmem hload
    rw [loadGeneration_kept_head hchain hload]
    refine bind_congr_ok fun found hfound => bind_congr_ok fun _ _ => ?_
    obtain rfl := ok.inj (hload.symm.trans hfound)
    rw [inspectRecords_congr hchain]
    refine bind_congr_ok fun history _ => bind_congr_ok fun _ _ => ?_
    rw [foldlM_congr]
    intro digest hmem before
    have hagree := hdirect digest (mem_sortedSet.1 (mem_filter.1 hmem).1)
    simp only [inspectDirect, validateDirectlyRetainedGeneration_congr hagree]

end Prune

/-- After the sweep of the small store its head is checked out as before. -/
theorem checkout_sources_survive_prune_sample :
    ∃ next found, pruneStore sampleCodec sampleMachine sweepState .sweep = .ok next ∧
      next.objects.prepared.keys = [⟨1⟩] ∧
      inspectCheckoutGenerations sampleCodec ['w'] next ⟨101⟩ = .ok found := by
  have hcheck : okAnd (pruneStore sampleCodec sampleMachine sweepState .sweep) (fun next =>
      next.objects.prepared.keys = [⟨1⟩] ∧
        okAnd (inspectCheckoutGenerations sampleCodec ['w'] sweepState ⟨101⟩) fun _ => true) =
          true := by
    decide +kernel
  obtain ⟨next, hprune, hrest⟩ := okAnd_iff.1 hcheck
  obtain ⟨hkeys, hfound⟩ := of_decide_eq_true hrest
  obtain ⟨found, hfound, -⟩ := okAnd_iff.1 hfound
  exact ⟨next, found, hprune, hkeys,
    ((checkout_sources_survive_prune hprune).1 ['w'] ⟨101⟩).trans hfound⟩

end Malm.Commit
