/-
Malm.Commit.LineageTheorems — what full lineage validation accepts, and
which accepted commits keep it.

Full validation is a condition per head (`HeadOk`) and three totals over the catalog.
An accepted commit keeps the condition per head and the selected bytes; the other two
totals are the condition `LineageFits` on the state before the commit.
-/
import Malm.Commit.LifecycleTheorems

namespace Malm.Commit

open Store Checks List Option Except

variable {retainedFloor : Bool} {prev : Digest}

variable {codec : ObjectCodec}

/-! ## 1. Loads and their sizes -/

variable {store : ObjectStore} {digest : Digest} {gen : StateGeneration} {bytes : Nat}
  {planId : PreparedId} {prepared : PreparedRecord} {total r : Nat}

variable {following : Option Digest} {fuel start : Nat} {walkAfter : LineageWalk}

theorem loadGenerationWithEncodedLen_iff :
    loadGenerationWithEncodedLen codec store digest = .ok (gen, bytes) ↔
      loadGeneration codec store digest = .ok gen ∧
        bytes = codec.generationBytes gen := by
  unfold loadGeneration
  simp only [bind_ok, pure_ok]
  constructor
  · intro h
    exact ⟨⟨_, h, rfl⟩, (loadGenerationWithEncodedLen_ok h).2⟩
  · rintro ⟨⟨⟨loaded, length⟩, h, rfl⟩, rfl⟩
    rw [h, (loadGenerationWithEncodedLen_ok h).2]

theorem loadPreparedWithEncodedLen_ok
    (h : loadPreparedWithEncodedLen codec store planId = .ok (prepared, bytes)) :
    store.prepared.get? planId = some ⟨true, true, true, .canonical prepared⟩ ∧
      codec.preparedId prepared = planId ∧ validateDecoded codec.toCodec prepared = .ok () ∧
      bytes = codec.preparedBytes prepared := by
  unfold loadPreparedWithEncodedLen at h
  simp only [bind_ok, require_ok, pure_ok] at h
  obtain ⟨found, hread, content, rfl, loaded, hdecode, hpair⟩ := h
  obtain ⟨rfl, rfl⟩ := Prod.mk.injEq .. ▸ hpair
  obtain ⟨hfile, -⟩ := readImmutable_ok hread
  unfold decodePreparedRecord at hdecode
  split at hdecode
  · cases hdecode
  · split at hdecode
    · cases hdecode
    · rename_i hid
      split at hdecode
      · cases hdecode
      · rename_i hvalid
        cases hdecode
        exact ⟨hfile, not_not.1 hid, hvalid, rfl⟩

theorem loadPreparedWithEncodedLen_iff :
    loadPreparedWithEncodedLen codec store planId = .ok (prepared, bytes) ↔
      loadPrepared codec store planId = .ok prepared ∧
        bytes = codec.preparedBytes prepared := by
  unfold loadPrepared
  simp only [bind_ok, pure_ok]
  constructor
  · intro h
    exact ⟨⟨_, h, rfl⟩, (loadPreparedWithEncodedLen_ok h).2.2.2⟩
  · rintro ⟨⟨⟨loaded, length⟩, h, rfl⟩, rfl⟩
    rw [h, (loadPreparedWithEncodedLen_ok h).2.2.2]

theorem loadPrepared_ok (h : loadPrepared codec store planId = .ok prepared) :
    store.prepared.get? planId = some ⟨true, true, true, .canonical prepared⟩ ∧
      codec.preparedId prepared = planId ∧ validateDecoded codec.toCodec prepared = .ok () := by
  obtain ⟨hfile, hid, hvalid, -⟩ :=
    loadPreparedWithEncodedLen_ok (loadPreparedWithEncodedLen_iff.2 ⟨h, rfl⟩)
  exact ⟨hfile, hid, hvalid⟩

theorem loadGeneration_congr {left right : ObjectStore}
    (h : right.generations.get? digest = left.generations.get? digest) :
    loadGeneration codec right digest = loadGeneration codec left digest := by
  unfold loadGeneration loadGenerationWithEncodedLen
  rw [h]

theorem loadPrepared_congr {left right : ObjectStore}
    (h : right.prepared.get? planId = left.prepared.get? planId) :
    loadPrepared codec right planId = loadPrepared codec left planId := by
  unfold loadPrepared loadPreparedWithEncodedLen
  rw [h]

theorem chargeLineageValidationBytes_ok :
    chargeLineageValidationBytes total bytes = .ok r ↔
      total + bytes ≤ maxLineageValidationBytes ∧ r = total + bytes := by
  unfold chargeLineageValidationBytes
  split
  · rename_i h
    simp only [reduceCtorEq, false_iff, not_and]
    omega
  · rename_i h
    rw [ok.injEq]
    omega

theorem chargeSelectedGenerationBytes_ok :
    chargeSelectedGenerationBytes total bytes = .ok r ↔
      total + bytes ≤ maxSelectedGenerationBytes ∧ r = total + bytes := by
  unfold chargeSelectedGenerationBytes
  split
  · rename_i h
    simp only [reduceCtorEq, false_iff, not_and]
    omega
  · rename_i h
    rw [ok.injEq]
    omega

theorem chargeSelectedHead_ok {selectedHead : Bool} :
    chargeSelectedHead selectedHead total bytes = .ok r ↔
      (selectedHead = true → total + bytes ≤ maxSelectedGenerationBytes) ∧
        r = total + if selectedHead then bytes else 0 := by
  cases selectedHead with
  | true => simp [chargeSelectedHead, chargeSelectedGenerationBytes_ok]
  | false =>
    simp only [chargeSelectedHead, Bool.false_eq_true, if_false, ok.injEq, false_imp_iff,
      true_and, Nat.add_zero]
    exact eq_comm

/-! ## 2. One record against its plan -/

/-- The size of a stored generation. -/
def recordBytes (codec : ObjectCodec) (store : ObjectStore) (digest : Digest) : Nat :=
  match store.record digest with
  | some gen => codec.generationBytes gen
  | none => 0

def planBytes (codec : ObjectCodec) (store : ObjectStore) (planId : PreparedId) : Nat :=
  match store.prepared.get? planId with
  | some file => file.bytes.byteLen codec.preparedBytes
  | none => 0

/-- The predecessor that a transition check loads: none at a retained floor. -/
def loadedPredecessor (retainedFloor : Bool) (generation : StateGeneration) : Option Digest :=
  if retainedFloor then none else generation.previousGeneration

/-- The bytes that the transition check of a generation decodes. -/
def transitionBytes (codec : ObjectCodec) (store : ObjectStore) (retainedFloor : Bool)
    (generation : StateGeneration) : Nat :=
  planBytes codec store generation.planId +
    ((loadedPredecessor retainedFloor generation).map (recordBytes codec store)).getD 0

/-- The record that an optional digest names is loadable. -/
def LoadsPrevious (codec : ObjectCodec) (store : ObjectStore) (digest : Option Digest)
    (previous : Option StateGeneration) : Prop :=
  match digest with
  | none => previous = none
  | some digest => ∃ record, previous = some record ∧
      loadGeneration codec store digest = .ok record

/-- A generation follows from its plan, above a retained floor with its predecessor. -/
def TransitionOk (codec : ObjectCodec) (store : ObjectStore) (retainedFloor : Bool)
    (generation : StateGeneration) : Prop :=
  ∃ prepared, loadPrepared codec store generation.planId = .ok prepared ∧
    if retainedFloor then
      fromRetainedPrepared codec.toCodec generation.planId generation.previousGeneration
        prepared = .ok generation
    else
      ∃ prev, LoadsPrevious codec store generation.previousGeneration prev ∧
        fromPrepared codec.toCodec generation.planId generation.previousGeneration prev
          prepared = .ok generation

theorem planBytes_of_load (h : loadPrepared codec store planId = .ok prepared) :
    planBytes codec store planId = codec.preparedBytes prepared := by
  simp [planBytes, (loadPrepared_ok h).1, Encoded.byteLen]

theorem recordBytes_of_load (h : loadGeneration codec store digest = .ok gen) :
    recordBytes codec store digest = codec.generationBytes gen := by
  simp [recordBytes, (loadGeneration_ok h).record]

theorem loadPredecessor_ok {digest : Option Digest} {prev : Option StateGeneration}
    (hstart : start ≤ maxLineageValidationBytes) :
    loadPredecessor codec store digest start = .ok (prev, bytes) ↔
      LoadsPrevious codec store digest prev ∧ bytes ≤ maxLineageValidationBytes ∧
        bytes = start + (digest.map (recordBytes codec store)).getD 0 := by
  cases digest with
  | none =>
    simp only [loadPredecessor, LoadsPrevious, ok.injEq, Prod.mk.injEq, map_none,
      getD_none, Nat.add_zero]
    constructor
    · rintro ⟨rfl, rfl⟩
      exact ⟨rfl, hstart, rfl⟩
    · rintro ⟨rfl, -, rfl⟩
      exact ⟨rfl, rfl⟩
  | some digest =>
    simp only [loadPredecessor, LoadsPrevious, bind_ok, pure_ok, Prod.exists,
      loadGenerationWithEncodedLen_iff, chargeLineageValidationBytes_ok, Prod.mk.injEq,
      map_some, getD_some]
    constructor
    · rintro ⟨rec, length, ⟨hload, rfl⟩, total, ⟨hbound, rfl⟩, rfl, rfl⟩
      rw [recordBytes_of_load hload]
      exact ⟨⟨rec, rfl, hload⟩, hbound, rfl⟩
    · rintro ⟨⟨rec, rfl, hload⟩, hbound, rfl⟩
      rw [recordBytes_of_load hload] at hbound ⊢
      exact ⟨rec, _, ⟨hload, rfl⟩, _, ⟨hbound, rfl⟩, rfl, rfl⟩

theorem validateVisited_none_ok :
    validateVisited codec store none digest gen retainedFloor start = .ok bytes ↔
      TransitionOk codec store retainedFloor gen ∧ bytes ≤ maxLineageValidationBytes ∧
        bytes = start + transitionBytes codec store retainedFloor gen := by
  simp only [validateVisited, selectedCandidate, filter_none, asGenerationValidation,
    mapError_ok, TransitionOk, transitionBytes, loadedPredecessor]
  cases retainedFloor with
  | true =>
    simp only [if_true, validateRetainedGenerationTransitionWithBudget, asInvalidStore, bind_ok,
      exists_unit, pure_ok, reject_ok, mapError_ok, Prod.exists, loadPreparedWithEncodedLen_iff,
      chargeLineageValidationBytes_ok, not_not, map_none, getD_none, Nat.add_zero]
    constructor
    · rintro ⟨prepared, length, ⟨hload, rfl⟩, total, ⟨hbound, rfl⟩, rebuilt, hrebuilt, rfl, rfl⟩
      rw [planBytes_of_load hload]
      exact ⟨⟨prepared, hload, hrebuilt⟩, hbound, rfl⟩
    · rintro ⟨⟨prepared, hload, hrebuilt⟩, hbound, rfl⟩
      rw [planBytes_of_load hload] at hbound ⊢
      exact ⟨prepared, _, ⟨hload, rfl⟩, _, ⟨hbound, rfl⟩, gen, hrebuilt, rfl, rfl⟩
  | false =>
    simp only [Bool.false_eq_true, if_false, validateGenerationTransitionWithBudget, asInvalidStore,
      bind_ok, exists_unit, pure_ok, reject_ok, mapError_ok, Prod.exists,
      loadPreparedWithEncodedLen_iff, chargeLineageValidationBytes_ok, not_not]
    constructor
    · rintro ⟨prepared, length, ⟨hload, rfl⟩, total, ⟨hbound, rfl⟩, prev, r, hprev,
        rebuilt, hrebuilt, rfl, rfl⟩
      obtain ⟨hloads, hres, rfl⟩ := (loadPredecessor_ok hbound).1 hprev
      rw [planBytes_of_load hload]
      exact ⟨⟨prepared, hload, prev, hloads, hrebuilt⟩, hres, by omega⟩
    · rintro ⟨⟨prepared, hload, prev, hloads, hrebuilt⟩, hbound, rfl⟩
      rw [planBytes_of_load hload] at hbound ⊢
      refine ⟨prepared, _, ⟨hload, rfl⟩, _, ⟨by omega, rfl⟩, prev, _,
        (loadPredecessor_ok (by omega)).2 ⟨hloads, hbound, by omega⟩, gen, hrebuilt, rfl, ?_⟩
      omega

/-- A commit keeps every generation file and plan, and the candidate is loadable. -/
structure Publishes (codec : ObjectCodec) (store next : ObjectStore)
    (candidate : Option CandidateGeneration) : Prop where
  kept : ∀ digest file, store.generations.get? digest = some file →
    next.generations.get? digest = some file
  plans : next.prepared = store.prepared
  stored : ∀ published, candidate = some published →
    loadGeneration codec next published.digest = .ok published.generation ∧
      loadPrepared codec store published.generation.planId = .ok published.prepared ∧
      published.encodedBytes = codec.generationBytes published.generation

theorem Publishes.refl (store : ObjectStore) : Publishes codec store store none where
  kept _ _ h := h
  plans := rfl
  stored _ h := by cases h

variable {next : ObjectStore} {cand : Option CandidateGeneration}

section Published

variable (hpub : Publishes codec store next cand)

include hpub

theorem Publishes.loadGeneration (h : loadGeneration codec store digest = .ok gen) :
    loadGeneration codec next digest = .ok gen := by
  obtain ⟨file, hfile⟩ := file_of_record (loadGeneration_ok h).record
  rw [loadGeneration_congr ((hpub.kept _ _ hfile).trans hfile.symm), h]

theorem Publishes.loadPrepared :
    loadPrepared codec next planId = loadPrepared codec store planId :=
  loadPrepared_congr (by rw [hpub.plans])

theorem Publishes.planBytes (planId : PreparedId) :
    Commit.planBytes codec next planId = Commit.planBytes codec store planId := by
  unfold Commit.planBytes
  rw [hpub.plans]

theorem Publishes.loadsPrevious {digest : Option Digest} {prev : Option StateGeneration}
    (h : LoadsPrevious codec store digest prev) :
    LoadsPrevious codec next digest prev ∧
      (digest.map (recordBytes codec next)).getD 0 =
        (digest.map (recordBytes codec store)).getD 0 := by
  cases digest with
  | none => exact ⟨h, rfl⟩
  | some digest =>
    obtain ⟨rec, hprev, hload⟩ := h
    have hnext := hpub.loadGeneration hload
    refine ⟨⟨rec, hprev, hnext⟩, ?_⟩
    simp [recordBytes_of_load hload, recordBytes_of_load hnext]

theorem Publishes.transitionOk (h : TransitionOk codec store retainedFloor gen) :
    TransitionOk codec next retainedFloor gen ∧
      transitionBytes codec next retainedFloor gen =
        transitionBytes codec store retainedFloor gen := by
  obtain ⟨prepared, hload, hrebuilt⟩ := h
  rw [← hpub.loadPrepared] at hload
  unfold transitionBytes
  rw [hpub.planBytes]
  cases retainedFloor with
  | true => exact ⟨⟨prepared, hload, hrebuilt⟩, rfl⟩
  | false =>
    rw [if_neg (by decide)] at hrebuilt
    obtain ⟨prev, hprev, hrebuilt⟩ := hrebuilt
    obtain ⟨hnext, hbytes⟩ := hpub.loadsPrevious hprev
    refine ⟨⟨prepared, hload, ?_⟩, ?_⟩
    · rw [if_neg (by decide)]
      exact ⟨prev, hnext, hrebuilt⟩
    · simp only [loadedPredecessor, Bool.false_eq_true, if_false, hbytes]

theorem Publishes.lineageRecord
    (h : Commit.lineageRecord codec store cand digest = .ok (gen, bytes)) :
    Commit.loadGeneration codec next digest = .ok gen ∧
      bytes = codec.generationBytes gen := by
  unfold Commit.lineageRecord at h
  split at h
  · rename_i published hsel
    obtain ⟨hcand, hdigest⟩ := filter_eq_some_iff.1 hsel
    obtain ⟨hload, -, hbytes⟩ := hpub.stored published hcand
    rw [decide_eq_true_eq] at hdigest
    cases h
    exact ⟨hdigest ▸ hload, hbytes⟩
  · rw [loadGenerationWithEncodedLen_iff] at h
    exact ⟨hpub.loadGeneration h.1, h.2⟩

theorem Publishes.validateVisited {length : Nat}
    (hrec : Commit.lineageRecord codec store cand digest = .ok (gen, length))
    (h : Commit.validateVisited codec store cand digest gen retainedFloor start =
      .ok bytes) :
    TransitionOk codec next retainedFloor gen ∧ bytes ≤ maxLineageValidationBytes ∧
      bytes = start + transitionBytes codec next retainedFloor gen := by
  cases hsel : selectedCandidate cand digest with
  | none =>
    have hnone : Commit.validateVisited codec store none digest gen retainedFloor start =
        .ok bytes := by
      have hnone : selectedCandidate none digest = none := rfl
      simpa only [Commit.validateVisited, hsel, hnone] using h
    obtain ⟨htrans, hbound, hbytes⟩ := validateVisited_none_ok.1 hnone
    obtain ⟨hnext, hcost⟩ := hpub.transitionOk htrans
    exact ⟨hnext, hbound, by rw [hcost, hbytes]⟩
  | some published =>
    obtain ⟨hcand, -⟩ := filter_eq_some_iff.1 hsel
    obtain ⟨-, hplan, -⟩ := hpub.stored published hcand
    simp only [Commit.lineageRecord, hsel, ok.injEq, Prod.mk.injEq] at hrec
    obtain ⟨rfl, -⟩ := hrec
    have hcost := (planBytes_of_load hplan).symm.trans (hpub.planBytes _).symm
    rw [← hpub.loadPrepared] at hplan
    simp only [validateVisited, hsel, asGenerationValidation, mapError_ok,
      validateCandidateGenerationTransitionWithBudget, bind_ok,
      chargeLineageValidationBytes_ok, hcost] at h
    obtain ⟨total, ⟨hbound, rfl⟩, h⟩ := h
    unfold TransitionOk transitionBytes loadedPredecessor
    cases retainedFloor with
    | true =>
      simp only [if_true, asInvalidStore, bind_ok, exists_unit, pure_ok,
        reject_ok, mapError_ok, not_not] at h
      obtain ⟨rebuilt, hrebuilt, pair, rfl, rfl, rfl⟩ := h
      exact ⟨⟨_, hplan, hrebuilt⟩, hbound, rfl⟩
    | false =>
      simp only [Bool.false_eq_true, if_false, asInvalidStore, bind_ok,
        exists_unit, pure_ok, reject_ok, mapError_ok, not_not] at h
      obtain ⟨⟨prev, length⟩, hprev, rebuilt, hrebuilt, pair, rfl, rfl, rfl⟩ := h
      obtain ⟨hloads, hres, hbytes⟩ := (loadPredecessor_ok hbound).1 hprev
      obtain ⟨hnext, hsize⟩ := hpub.loadsPrevious hloads
      refine ⟨⟨_, hplan, prev, hnext, hrebuilt⟩, hres, ?_⟩
      rw [if_neg (by decide), hbytes, hsize, Nat.add_assoc]

end Published

/-! ## 3. Chains -/

/-- The predecessor that a stored record names. -/
def predecessor (store : ObjectStore) (digest : Digest) : Option Digest :=
  (store.record digest).bind StateGeneration.previousGeneration

/-- The records of a predecessor chain, at most `left` of them. -/
def chain (store : ObjectStore) : Nat → Digest → List Digest
  | 0, _ => []
  | left + 1, digest => digest ::
    match predecessor store digest with
    | some prev => chain store left prev
    | none => []

/-- The bytes that full validation decodes for one record. -/
def visitBytes (codec : ObjectCodec) (store : ObjectStore) (retainedFloor : Bool)
    (digest : Digest) : Nat :=
  match store.record digest with
  | some gen =>
    codec.generationBytes gen + transitionBytes codec store retainedFloor gen
  | none => 0

/-- The bytes that full validation decodes for a chain, down to its retained floor. -/
def chainBytes (codec : ObjectCodec) (store : ObjectStore) : Nat → Digest → Nat
  | 0, _ => 0
  | left + 1, digest => visitBytes codec store (left = 0) digest +
    match predecessor store digest with
    | some prev => chainBytes codec store left prev
    | none => 0

/-- A stored record of a namespace that follows from its plan. -/
def RecordOk (codec : ObjectCodec) (store : ObjectStore) (namespaceName : NamespaceName)
    (retainedFloor : Bool) (digest : Digest) : Prop :=
  ∃ gen, loadGeneration codec store digest = .ok gen ∧
    gen.namespaceName = namespaceName ∧ TransitionOk codec store retainedFloor gen

/-- A chain of stored records of a namespace that follow from their plans. -/
def ChainOk (codec : ObjectCodec) (store : ObjectStore) (namespaceName : NamespaceName) :
    Nat → Digest → Prop
  | 0, _ => True
  | left + 1, digest => RecordOk codec store namespaceName (left = 0) digest ∧
    ∀ prev, predecessor store digest = some prev →
      ChainOk codec store namespaceName left prev

theorem predecessor_of_load (h : loadGeneration codec store digest = .ok gen) :
    predecessor store digest = gen.previousGeneration := by
  simp [predecessor, (loadGeneration_ok h).record]

theorem visitBytes_of_load (h : loadGeneration codec store digest = .ok gen) :
    visitBytes codec store retainedFloor digest = codec.generationBytes gen +
      transitionBytes codec store retainedFloor gen := by
  simp [visitBytes, (loadGeneration_ok h).record]

theorem self_mem_chain (store : ObjectStore) (left : Nat) (digest : Digest) :
    digest ∈ chain store (left + 1) digest := by
  simp [chain]

theorem chain_predecessor {left : Nat} (h : predecessor store digest = some prev) :
    chain store (left + 1) digest = digest :: chain store left prev := by
  simp [chain, h]

theorem predecessor_mem_chain (h : predecessor store digest = some prev) :
    ∀ {left : Nat} {start : Digest}, digest ∈ chain store left start →
      prev ∈ (chain store (left + 1) start).tail
  | left + 1, start, hmem => by
    rw [chain] at hmem ⊢
    rw [tail_cons]
    rcases mem_cons.1 hmem with rfl | hmem
    · rw [h]
      exact self_mem_chain store left prev
    · cases hstart : predecessor store start with
      | none => simp [hstart] at hmem
      | some next =>
        rw [hstart] at hmem
        exact mem_of_mem_tail (predecessor_mem_chain h hmem)

theorem ChainOk.loads {ns : NamespaceName} :
    ∀ {left : Nat} {start : Digest}, ChainOk codec store ns left start →
      ∀ digest ∈ chain store left start, ∃ gen,
        loadGeneration codec store digest = .ok gen ∧
          gen.namespaceName = ns ∧
          ∃ prepared, loadPrepared codec store gen.planId = .ok prepared
  | left + 1, start, ⟨⟨gen, hload, hname, prepared, hplan, _⟩, hrest⟩, digest, hmem => by
    rw [chain] at hmem
    rcases mem_cons.1 hmem with rfl | hmem
    · exact ⟨gen, hload, hname, prepared, hplan⟩
    · cases hprev : predecessor store start with
      | none => simp [hprev] at hmem
      | some prev =>
        rw [hprev] at hmem
        exact (hrest prev hprev).loads digest hmem

/-! Two stores that agree on the records of a chain have the same chain. -/

/-- Two stores agree on some records and their plans. -/
def AgreeOn (left right : ObjectStore) (digests : List Digest) : Prop :=
  ∀ digest ∈ digests, right.generations.get? digest = left.generations.get? digest ∧
    ∀ gen, left.record digest = some gen →
      right.prepared.get? gen.planId = left.prepared.get? gen.planId

theorem AgreeOn.tail {left right : ObjectStore} {digests : List Digest}
    (h : AgreeOn left right (digest :: digests)) : AgreeOn left right digests :=
  fun other hother => h other (mem_cons_of_mem _ hother)

variable {ns : NamespaceName}

section Agree

theorem chain_congr : ∀ {left : Nat} {start : Digest},
    AgreeOn store next (chain store left start) → chain next left start = chain store left start
  | 0, _, _ => rfl
  | left + 1, start, h => by
    rw [chain] at h
    have hrec := record_of_get? (h start mem_cons_self).1
    have hprev : predecessor next start = predecessor store start := by
      simp only [predecessor, hrec]
    rw [chain, chain, hprev]
    cases hsome : predecessor store start with
    | none => rfl
    | some prev =>
      rw [hsome] at h
      simp only [chain_congr h.tail]

theorem visit_congr {left : Nat} {start : Digest}
    (h : AgreeOn store next (chain store (left + 1) start)) :
    visitBytes codec next (left = 0) start = visitBytes codec store (left = 0) start ∧
      (RecordOk codec store ns (left = 0) start →
        RecordOk codec next ns (left = 0) start) := by
  obtain ⟨hget, hplan⟩ := h start (self_mem_chain store left start)
  have hrec := record_of_get? hget
  -- the predecessor is read only above the floor, where the chain contains it
  have hprev : ∀ gen, store.record start = some gen → left ≠ 0 →
      ∀ prev, gen.previousGeneration = some prev →
        next.generations.get? prev = store.generations.get? prev := by
    intro gen hgen hleft prev hsome
    have hpred : predecessor store start = some prev := by
      simp [predecessor, hgen, hsome]
    rw [chain_predecessor hpred] at h
    obtain ⟨below, rfl⟩ := Nat.exists_eq_succ_of_ne_zero hleft
    exact (h.tail prev (self_mem_chain store below prev)).1
  constructor
  · unfold visitBytes
    rw [hrec]
    cases hgen : store.record start with
    | none => rfl
    | some gen =>
      dsimp only
      congr 1
      unfold transitionBytes
      congr 1
      · simp only [planBytes, hplan gen hgen]
      · by_cases hleft : left = 0
        · simp [loadedPredecessor, hleft]
        · cases hsome : gen.previousGeneration with
          | none => simp [loadedPredecessor, hleft, hsome]
          | some prev =>
            have hsame := record_of_get? (hprev gen hgen hleft prev hsome)
            simp [loadedPredecessor, hleft, hsome, recordBytes, hsame]
  · rintro ⟨gen, hload, hname, prepared, hprep, hrebuilt⟩
    have hgen := (loadGeneration_ok hload).record
    refine ⟨gen, (loadGeneration_congr hget).trans hload, hname, prepared,
      (loadPrepared_congr (hplan gen hgen)).trans hprep, ?_⟩
    by_cases hleft : left = 0
    · simpa [hleft] using hrebuilt
    · simp only [hleft, decide_false, Bool.false_eq_true, if_false] at hrebuilt ⊢
      obtain ⟨prev, hloads, hrebuilt⟩ := hrebuilt
      refine ⟨prev, ?_, hrebuilt⟩
      cases hsome : gen.previousGeneration with
      | none => rwa [hsome] at hloads
      | some digest =>
        rw [hsome] at hloads
        obtain ⟨rec, hrec, hread⟩ := hloads
        exact ⟨rec, hrec, (loadGeneration_congr
          (hprev gen hgen hleft digest hsome)).trans hread⟩

theorem chainOk_congr : ∀ {left : Nat} {start : Digest},
    AgreeOn store next (chain store left start) →
      chainBytes codec next left start = chainBytes codec store left start ∧
        (ChainOk codec store ns left start →
          ChainOk codec next ns left start)
  | 0, _, _ => ⟨rfl, fun h => h⟩
  | left + 1, start, h => by
    obtain ⟨hbytes, hrec⟩ := @visit_congr codec store next ns _ _ h
    have hget := record_of_get? (h start (self_mem_chain store left start)).1
    have hprev : predecessor next start = predecessor store start := by
      simp only [predecessor, hget]
    unfold chainBytes ChainOk
    rw [hprev, hbytes]
    cases hsome : predecessor store start with
    | none => exact ⟨rfl, fun ⟨hok, _⟩ => ⟨hrec hok, fun _ hnone => by cases hnone⟩⟩
    | some prev =>
      rw [chain_predecessor hsome] at h
      obtain ⟨hrest, hchain⟩ := chainOk_congr h.tail
      refine ⟨by simp only [hrest], ?_⟩
      rintro ⟨hok, hbelow⟩
      refine ⟨hrec hok, ?_⟩
      rintro found hfound
      cases hfound
      exact hchain (hbelow prev rfl)

end Agree

/-! ## 4. The walk of one head -/

def WalkOwns (namespaceName : NamespaceName) (validated : SortedMap Digest NamespaceName)
    (lineage : List Digest) : Prop :=
  ∀ digest, validated.get? digest = some namespaceName → digest ∈ lineage

/-- What one visit does when routine validation does not stop there. -/
structure VisitOk (codec : ObjectCodec) (next : ObjectStore) (namespaceName : NamespaceName)
    (state : LineageState) (walk : LineageWalk) (digest : Digest) (limit : Nat)
    (generation : StateGeneration) : Prop where
  loads : loadGeneration codec next digest = .ok generation
  name : generation.namespaceName = namespaceName
  bound : limit = walk.retainedLimit.getD generation.retention.history
  transition : TransitionOk codec next (walk.retainedCount + 1 = limit) generation
  traversed : state.traversed ≠ maxSelectedGenerationLineage
  decoded : state.decodedBytes + visitBytes codec next (walk.retainedCount + 1 = limit) digest ≤
    maxLineageValidationBytes
  selected : walk.selectedHead = true →
    state.selectedBytes + recordBytes codec next digest ≤ maxSelectedGenerationBytes

def visitedState (codec : ObjectCodec) (next : ObjectStore) (namespaceName : NamespaceName)
    (state : LineageState) (walk : LineageWalk) (digest : Digest) (limit : Nat) : LineageState where
  validated := state.validated.insert digest namespaceName
  traversed := state.traversed + 1
  decodedBytes := state.decodedBytes +
    visitBytes codec next (walk.retainedCount + 1 = limit) digest
  selectedBytes := state.selectedBytes +
    if walk.selectedHead then recordBytes codec next digest else 0

def visitedWalk (walk : LineageWalk) (digest : Digest) (limit : Nat) : LineageWalk :=
  ⟨digest :: walk.lineage, false, some limit, walk.retainedCount + 1⟩

variable {state : LineageState}

section Walk

variable {depth : LineageDepth}

variable {after : LineageState} {walk : LineageWalk} {limit : Nat} {left : Nat}

theorem visitGeneration_ok (hpub : Publishes codec store next cand)
    (h : visitGeneration codec store cand depth ns state walk digest =
      .ok (after, walkAfter, following)) :
    ∃ gen limit length,
      lineageRecord codec store cand digest = .ok (gen, length) ∧
      ((depth = .routine ∧ walk.retainedCount = 1 ∧ gen.retention.history = limit ∧
          limit = walk.retainedLimit.getD gen.retention.history) ∨
        VisitOk codec next ns state walk digest limit gen ∧
          after = visitedState codec next ns state walk digest limit ∧
          walkAfter = visitedWalk walk digest limit ∧
          following = if walk.retainedCount + 1 = limit then none
            else gen.previousGeneration) := by
  unfold visitGeneration at h
  simp only [bind_ok, exists_unit, reject_ok, not_not] at h
  obtain ⟨htrav, ⟨gen, length⟩, hrec, decoded, hdecoded, selected, hsel, hname,
    h⟩ := h
  refine ⟨gen, walk.retainedLimit.getD gen.retention.history, length, hrec, ?_⟩
  obtain ⟨hload, rfl⟩ := hpub.lineageRecord hrec
  rw [chargeLineageValidationBytes_ok] at hdecoded
  obtain ⟨-, rfl⟩ := hdecoded
  split at h
  · rename_i hstop
    exact .inl ⟨hstop.1, by omega, hstop.2.2, rfl⟩
  · right
    simp only [bind_ok, pure_ok] at h
    obtain ⟨total, hvisited, hres⟩ := h
    obtain ⟨htrans, hbound, rfl⟩ := hpub.validateVisited hrec hvisited
    obtain ⟨hcharge, rfl⟩ := chargeSelectedHead_ok.1 hsel
    simp only [Prod.mk.injEq] at hres
    obtain ⟨rfl, rfl, rfl⟩ := hres
    refine ⟨⟨hload, hname, rfl, htrans, htrav, ?_, ?_⟩, ?_, rfl, rfl⟩
    · rw [visitBytes_of_load hload]
      omega
    · rw [recordBytes_of_load hload]
      exact hcharge
    · simp only [visitedState, visitBytes_of_load hload, recordBytes_of_load hload, Nat.add_assoc]

theorem visitGeneration_of_visitOk
    (h : VisitOk codec store ns state walk digest limit gen) :
    visitGeneration codec store none .full ns state walk digest =
      .ok (visitedState codec store ns state walk digest limit,
        visitedWalk walk digest limit,
        if walk.retainedCount + 1 = limit then none else gen.previousGeneration) := by
  obtain ⟨hload, hname, hlimit, htrans, htrav, hdecoded, hsel⟩ := h
  rw [visitBytes_of_load hload] at hdecoded
  rw [recordBytes_of_load hload] at hsel
  unfold visitGeneration
  simp only [bind_ok, exists_unit, reject_ok, not_not]
  refine ⟨htrav, (gen, codec.generationBytes gen),
    loadGenerationWithEncodedLen_iff.2 ⟨hload, rfl⟩, _,
    chargeLineageValidationBytes_ok.2 ⟨by omega, rfl⟩, _,
    chargeSelectedHead_ok.2 ⟨hsel, rfl⟩, hname, ?_⟩
  rw [if_neg (by simp), ← hlimit]
  simp only [bind_ok, pure_ok]
  refine ⟨_, validateVisited_none_ok.2 ⟨htrans, ?_, rfl⟩, ?_⟩
  · omega
  · simp only [visitedState, visitedWalk, visitBytes_of_load hload, recordBytes_of_load hload,
      Nat.add_assoc]

theorem walkLineage_some_ok (howns : WalkOwns ns state.validated walk.lineage)
    (h : walkLineage codec store cand depth ns fuel state walk (some digest) =
      .ok after) :
    ∃ left mid walkAfter following, fuel = left + 1 ∧ digest ∉ walk.lineage ∧
      state.validated.get? digest = none ∧
      visitGeneration codec store cand depth ns state walk digest =
        .ok (mid, walkAfter, following) ∧
      walkLineage codec store cand depth ns left mid walkAfter following =
        .ok after := by
  cases fuel with
  | zero => simp [walkLineage] at h
  | succ left =>
    rw [walkLineage] at h
    split at h
    · cases h
    · rename_i hnew
      cases hvalidated : state.validated.get? digest with
      | some owner =>
        simp only [hvalidated] at h
        split at h
        · cases h
        · rename_i howner
          rw [not_not] at howner
          exact absurd (howns digest (howner ▸ hvalidated)) hnew
      | none =>
        simp only [hvalidated, bind_ok] at h
        obtain ⟨⟨mid, walkAfter, following⟩, hvisit, hrest⟩ := h
        exact ⟨left, mid, walkAfter, following, rfl, hnew, rfl, hvisit, hrest⟩

theorem WalkOwns.insert {validated : SortedMap Digest NamespaceName} {lineage : List Digest}
    (h : WalkOwns ns validated lineage) (digest : Digest) :
    WalkOwns ns (validated.insert digest ns) (digest :: lineage) := by
  intro other hother
  rcases SortedMap.of_get?_insert hother with ⟨rfl, -⟩ | hother
  · exact mem_cons_self
  · exact mem_cons_of_mem _ (h other hother)

/-- The state after the walk of a chain. -/
structure Walked (codec : ObjectCodec) (next : ObjectStore) (namespaceName : NamespaceName)
    (state : LineageState) (visited : List Digest) (bytes selected : Nat)
    (after : LineageState) : Prop where
  traversed : after.traversed = state.traversed + visited.length
  decoded : after.decodedBytes = state.decodedBytes + bytes
  selected : after.selectedBytes = state.selectedBytes + selected
  validated : ∀ digest, after.validated.get? digest =
    if digest ∈ visited then some namespaceName else state.validated.get? digest

theorem Walked.refl (state : LineageState) :
    Walked codec next ns state [] 0 0 state where
  traversed := rfl
  decoded := rfl
  selected := rfl
  validated _ := by simp

theorem Walked.visit {visited : List Digest} (h : Walked codec next ns
      (visitedState codec next ns state walk digest limit) visited bytes 0 after) :
    Walked codec next ns state (digest :: visited)
      (visitBytes codec next (walk.retainedCount + 1 = limit) digest + bytes)
      (if walk.selectedHead then recordBytes codec next digest else 0) after where
  traversed := by
    rw [h.traversed, length_cons]
    simp only [visitedState]
    omega
  decoded := by
    rw [h.decoded]
    simp only [visitedState]
    omega
  selected := by rw [h.selected]; rfl
  validated other := by
    rw [h.validated]
    simp only [visitedState, SortedMap.get?_insert, mem_cons]
    by_cases hother : other = digest <;> simp [hother]

/-- What the walk of a valid chain finds. -/
structure ChainWalk (codec : ObjectCodec) (next : ObjectStore) (namespaceName : NamespaceName)
    (state : LineageState) (walk : LineageWalk) (digest : Digest) (left : Nat) : Prop where
  valid : ChainOk codec next namespaceName left digest
  nodup : (chain next left digest).Nodup
  fresh : ∀ found ∈ chain next left digest, found ∉ walk.lineage
  traversed : state.traversed + (chain next left digest).length ≤
    maxSelectedGenerationLineage
  decoded : state.decodedBytes + chainBytes codec next left digest ≤ maxLineageValidationBytes
  selected : walk.selectedHead = true →
    state.selectedBytes + recordBytes codec next digest ≤ maxSelectedGenerationBytes

/-- The number of records that the bound of a walk leaves. -/
def Leaves (codec : ObjectCodec) (next : ObjectStore) (walk : LineageWalk) (digest : Digest)
    (left : Nat) : Prop :=
  ∀ gen, loadGeneration codec next digest = .ok gen →
    walk.retainedLimit.getD gen.retention.history = walk.retainedCount + left

theorem floor_eq (count left : Nat) :
    decide (count + 1 = count + (left + 1)) = decide (left = 0) := by
  congr 1
  exact propext ⟨fun h => by omega, fun h => by omega⟩

/-- Routine validation does not stop at a record. -/
def NotCut (codec : ObjectCodec) (next : ObjectStore) (depth : LineageDepth)
    (walk : LineageWalk) (digest : Digest) : Prop :=
  depth = .routine → walk.retainedCount = 1 → ∀ gen,
    loadGeneration codec next digest = .ok gen →
      gen.retention.history ≠ walk.retainedLimit.getD gen.retention.history

theorem NotCut.full : NotCut codec next .full walk digest := by
  intro h
  cases h

theorem NotCut.of_count (h : walk.retainedCount ≠ 1) : NotCut codec next depth walk digest :=
  fun _ hcount => absurd hcount h

theorem walkLineage_visit (hpub : Publishes codec store next cand)
    (hcut : NotCut codec next depth walk digest)
    (hleaves : Leaves codec next walk digest (left + 1))
    (howns : WalkOwns ns state.validated walk.lineage)
    (h : walkLineage codec store cand depth ns fuel state walk (some digest) =
      .ok after) :
    ∃ gen below,
      VisitOk codec next ns state walk digest (walk.retainedCount + (left + 1))
        gen ∧
      digest ∉ walk.lineage ∧
      walkLineage codec store cand depth ns below
        (visitedState codec next ns state walk digest
          (walk.retainedCount + (left + 1)))
        (visitedWalk walk digest (walk.retainedCount + (left + 1)))
        (if left = 0 then none else predecessor next digest) = .ok after := by
  obtain ⟨below, mid, walkAfter, following, -, hnew, -, hvisit, hrest⟩ :=
    walkLineage_some_ok howns h
  obtain ⟨gen, limit, length, hrec, hcases⟩ := visitGeneration_ok hpub hvisit
  rcases hcases with ⟨hroutine, hcount, hhistory, hbound⟩ | ⟨hok, rfl, rfl, rfl⟩
  · have hload := (hpub.lineageRecord hrec).1
    exact absurd (hhistory.trans hbound) (hcut hroutine hcount gen hload)
  · obtain rfl := hok.bound.trans (hleaves gen hok.loads)
    refine ⟨gen, below, hok, hnew, ?_⟩
    have hfloor : (walk.retainedCount + 1 = walk.retainedCount + (left + 1)) ↔ left = 0 := by
      omega
    rw [predecessor_of_load hok.loads]
    simpa only [hfloor] using hrest

theorem VisitOk.chainWalk_last
    (h : VisitOk codec next ns state walk digest (walk.retainedCount + (left + 1))
      gen) (hnew : digest ∉ walk.lineage)
    (htrav : state.traversed ≤ maxSelectedGenerationLineage)
    (hlast : left = 0 ∨ predecessor next digest = none) :
    chain next (left + 1) digest = [digest] ∧
      chainBytes codec next (left + 1) digest = visitBytes codec next (left = 0) digest ∧
      ChainWalk codec next ns state walk digest (left + 1) := by
  have hchain : chain next (left + 1) digest = [digest] := by
    rcases hlast with rfl | hnone
    · rw [chain]
      cases predecessor next digest <;> rfl
    · simp [chain, hnone]
  have hbytes : chainBytes codec next (left + 1) digest =
      visitBytes codec next (left = 0) digest := by
    rcases hlast with rfl | hnone
    · rw [chainBytes]
      cases predecessor next digest <;> rfl
    · simp [chainBytes, hnone]
  obtain ⟨hload, hname, -, htrans, hfull, hdecoded, hsel⟩ := h
  rw [floor_eq] at htrans hdecoded
  refine ⟨hchain, hbytes, ⟨⟨gen, hload, hname, htrans⟩, ?_⟩, ?_, ?_, ?_, ?_,
    hsel⟩
  · intro prev hprev
    rcases hlast with rfl | hnone
    · trivial
    · rw [hnone] at hprev
      cases hprev
  · simp [hchain]
  · simpa [hchain] using hnew
  · rw [hchain, length_singleton]
    omega
  · rw [hbytes]
    exact hdecoded

theorem VisitOk.chainWalk_cons
    (h : VisitOk codec next ns state walk digest (walk.retainedCount + (left + 2))
      gen) (hnew : digest ∉ walk.lineage) (hsome : predecessor next digest = some prev)
    (hrest : ChainWalk codec next ns
      (visitedState codec next ns state walk digest (walk.retainedCount + (left + 2)))
      (visitedWalk walk digest (walk.retainedCount + (left + 2))) prev (left + 1)) :
    chain next (left + 2) digest = digest :: chain next (left + 1) prev ∧
      chainBytes codec next (left + 2) digest =
        visitBytes codec next (left + 1 = 0) digest + chainBytes codec next (left + 1) prev ∧
      ChainWalk codec next ns state walk digest (left + 2) := by
  have hchain : chain next (left + 2) digest = digest :: chain next (left + 1) prev :=
    chain_predecessor hsome
  have hbytes : chainBytes codec next (left + 2) digest = visitBytes codec next (left + 1 = 0)
      digest + chainBytes codec next (left + 1) prev := by
    rw [chainBytes, hsome]
  obtain ⟨hload, hname, -, htrans, hfull, hdecoded, hsel⟩ := h
  have htrav := hrest.traversed
  have hbelow := hrest.decoded
  simp only [visitedState, floor_eq] at htrav hbelow
  rw [floor_eq] at htrans
  refine ⟨hchain, hbytes, ⟨⟨gen, hload, hname, htrans⟩, ?_⟩, ?_, ?_, ?_, ?_,
    hsel⟩
  · intro found hfound
    rw [hsome, some.injEq] at hfound
    exact hfound ▸ hrest.valid
  · rw [hchain, nodup_cons]
    refine ⟨fun hmem => hrest.fresh digest hmem mem_cons_self, hrest.nodup⟩
  · intro found hfound
    rw [hchain] at hfound
    rcases mem_cons.1 hfound with rfl | hfound
    · exact hnew
    · exact fun hmem => hrest.fresh found hfound (mem_cons_of_mem _ hmem)
  · rw [hchain, length_cons]
    omega
  · rw [hbytes]
    omega

/-- **A walk that is not cut short** succeeds only on a valid chain, and visits all of it. -/
theorem walkLineage_ok (hpub : Publishes codec store next cand) :
    ∀ {left fuel : Nat} {state after : LineageState} {walk : LineageWalk} {digest : Digest},
      NotCut codec next depth walk digest →
      depth = .full ∨ 1 ≤ walk.retainedCount →
      Leaves codec next walk digest (left + 1) →
      WalkOwns ns state.validated walk.lineage →
      state.traversed ≤ maxSelectedGenerationLineage →
      walkLineage codec store cand depth ns fuel state walk (some digest) =
        .ok after →
      ChainWalk codec next ns state walk digest (left + 1) ∧
        Walked codec next ns state (chain next (left + 1) digest)
          (chainBytes codec next (left + 1) digest)
          (if walk.selectedHead then recordBytes codec next digest else 0) after := by
  intro left
  induction left with
  | zero =>
    intro fuel state after walk digest hcut hdepth hleaves howns htrav h
    obtain ⟨gen, below, hok, hnew, hrest⟩ :=
      walkLineage_visit hpub hcut hleaves howns h
    obtain ⟨hchain, hbytes, hwalk⟩ := hok.chainWalk_last hnew htrav (.inl rfl)
    simp only [if_true, walkLineage, ok.injEq] at hrest
    subst hrest
    refine ⟨hwalk, ?_⟩
    rw [hchain, hbytes, ← floor_eq walk.retainedCount 0]
    exact (Walked.refl _).visit
  | succ left ih =>
    intro fuel state after walk digest hcut hdepth hleaves howns htrav h
    obtain ⟨gen, below, hok, hnew, hrest⟩ :=
      walkLineage_visit hpub hcut hleaves howns h
    rw [if_neg (Nat.succ_ne_zero left)] at hrest
    cases hsome : predecessor next digest with
    | none =>
      obtain ⟨hchain, hbytes, hwalk⟩ := hok.chainWalk_last hnew htrav (.inr hsome)
      simp only [hsome, walkLineage, ok.injEq] at hrest
      subst hrest
      refine ⟨hwalk, ?_⟩
      rw [hchain, hbytes, ← floor_eq walk.retainedCount (left + 1)]
      exact (Walked.refl _).visit
    | some prev =>
      rw [hsome] at hrest
      have htrav' : state.traversed + 1 ≤ maxSelectedGenerationLineage := by
        have := hok.traversed
        omega
      have hcut' : NotCut codec next depth
          (visitedWalk walk digest (walk.retainedCount + (left + 1 + 1))) prev := by
        rcases hdepth with rfl | hcount
        · exact NotCut.full
        · exact NotCut.of_count (by simp only [visitedWalk]; omega)
      obtain ⟨hwalk, hwalked⟩ := ih hcut' (.inr (by simp only [visitedWalk]; omega))
        (by intro rec _; simp only [visitedWalk, getD_some]; omega)
        (howns.insert digest) htrav' hrest
      obtain ⟨hchain, hbytes, hall⟩ := hok.chainWalk_cons hnew hsome hwalk
      refine ⟨hall, ?_⟩
      rw [hchain, hbytes, ← floor_eq walk.retainedCount (left + 1)]
      exact Walked.visit hwalked

theorem ChainWalk.visitOk (h : ChainWalk codec store ns state walk digest (left + 1))
    (hleaves : Leaves codec store walk digest (left + 1)) :
    ∃ gen, VisitOk codec store ns state walk digest
      (walk.retainedCount + (left + 1)) gen := by
  obtain ⟨⟨gen, hload, hname, htrans⟩, -⟩ := h.valid
  have htrav := h.traversed
  have hdecoded := h.decoded
  rw [chain, length_cons] at htrav
  rw [chainBytes] at hdecoded
  refine ⟨gen, hload, hname, (hleaves gen hload).symm, ?_, by omega, ?_,
    h.selected⟩
  · rw [floor_eq]
    exact htrans
  · rw [floor_eq]
    omega

theorem ChainWalk.rest (h : ChainWalk codec store ns state walk digest (left + 2))
    (hsome : predecessor store digest = some prev)
    (hlimit : limit = walk.retainedCount + (left + 2)) :
    ChainWalk codec store ns
      (visitedState codec store ns state walk digest limit)
      (visitedWalk walk digest limit) prev (left + 1) := by
  obtain ⟨⟨-, hchain⟩, hnodup, hfresh, htrav, hdecoded, -⟩ := h
  have hlist : chain store (left + 2) digest = digest :: chain store (left + 1) prev :=
    chain_predecessor hsome
  have hbytes : chainBytes codec store (left + 2) digest = visitBytes codec store (left + 1 = 0)
      digest + chainBytes codec store (left + 1) prev := by
    rw [chainBytes, hsome]
  rw [hlist] at hnodup hfresh htrav
  rw [hbytes] at hdecoded
  rw [length_cons] at htrav
  obtain ⟨hnot, hnodup⟩ := nodup_cons.1 hnodup
  refine ⟨hchain prev hsome, hnodup, ?_, ?_, ?_, ?_⟩
  · intro found hfound hmem
    rcases mem_cons.1 hmem with rfl | hmem
    · exact hnot hfound
    · exact hfresh found (mem_cons_of_mem _ hfound) hmem
  · simp only [visitedState]
    omega
  · simp only [visitedState, hlimit, floor_eq]
    omega
  · intro hsel
    cases hsel

/-- **The converse, for stored records at full depth.** -/
theorem walkLineage_of_chainWalk :
    ∀ {left fuel : Nat} {state : LineageState} {walk : LineageWalk} {digest : Digest},
      Leaves codec store walk digest (left + 1) →
      (∀ found ∈ chain store (left + 1) digest, state.validated.get? found = none) →
      fuel + state.traversed = maxSelectedGenerationLineage + 1 →
      ChainWalk codec store ns state walk digest (left + 1) →
      ∃ after, walkLineage codec store none .full ns fuel state walk (some digest) =
        .ok after := by
  intro left
  induction left with
  | zero =>
    intro fuel state walk digest hleaves hvalidated hfuel h
    obtain ⟨gen, hok⟩ := h.visitOk hleaves
    obtain ⟨below, rfl⟩ : ∃ below, fuel = below + 1 := ⟨fuel - 1, by
      have := h.traversed
      omega⟩
    have hself := self_mem_chain store 0 digest
    rw [walkLineage, if_neg (h.fresh digest hself), hvalidated digest hself]
    simp [visitGeneration_of_visitOk hok, ok_bind, walkLineage]
  | succ left ih =>
    intro fuel state walk digest hleaves hvalidated hfuel h
    obtain ⟨gen, hok⟩ := h.visitOk hleaves
    obtain ⟨below, rfl⟩ : ∃ below, fuel = below + 1 := ⟨fuel - 1, by
      have := h.traversed
      omega⟩
    have hself := self_mem_chain store (left + 1) digest
    rw [walkLineage, if_neg (h.fresh digest hself), hvalidated digest hself]
    simp only [visitGeneration_of_visitOk hok, ok_bind]
    rw [if_neg (by omega), ← predecessor_of_load hok.loads]
    cases hsome : predecessor store digest with
    | none => exact ⟨_, by rw [walkLineage]⟩
    | some prev =>
      refine ih ?_ ?_ ?_ (h.rest hsome rfl)
      · intro rec _
        simp only [visitedWalk, getD_some]
        omega
      · intro found hfound
        have hlist : chain store (left + 2) digest = digest :: chain store (left + 1) prev :=
          chain_predecessor hsome
        have hne : found ≠ digest := by
          rintro rfl
          have hnodup := h.nodup
          rw [hlist] at hnodup
          exact (nodup_cons.1 hnodup).1 hfound
        have hnone := hvalidated found (hlist ▸ mem_cons_of_mem _ hfound)
        simp [visitedState, hne, hnone]
      · simp only [visitedState]
        omega

theorem visitGeneration_keeps (hpub : Publishes codec store next cand)
    (h : visitGeneration codec store cand depth ns state walk digest =
      .ok (after, walkAfter, following)) :
    walkAfter.selectedHead = false ∧
      (walk.selectedHead = true →
        state.selectedBytes + recordBytes codec next digest ≤ maxSelectedGenerationBytes) ∧
      after.selectedBytes = state.selectedBytes +
        (if walk.selectedHead then recordBytes codec next digest else 0) ∧
      (state.traversed ≤ maxSelectedGenerationLineage →
        after.traversed ≤ maxSelectedGenerationLineage) ∧
      ∀ found owner, after.validated.get? found = some owner →
        state.validated.get? found = some owner ∨ owner = ns := by
  unfold visitGeneration at h
  simp only [bind_ok, exists_unit, reject_ok] at h
  obtain ⟨htrav, ⟨gen, length⟩, hrec, decoded, -, selected, hsel, -, h⟩ := h
  obtain ⟨hload, rfl⟩ := hpub.lineageRecord hrec
  rw [recordBytes_of_load hload]
  obtain ⟨hcharge, rfl⟩ := chargeSelectedHead_ok.1 hsel
  split at h
  · simp only [bind_ok, pure_ok, Prod.mk.injEq] at h
    obtain ⟨total, -, rfl, rfl, rfl⟩ := h
    exact ⟨rfl, hcharge, rfl, id, fun found owner hfound => .inl hfound⟩
  · simp only [bind_ok, pure_ok, Prod.mk.injEq] at h
    obtain ⟨total, -, rfl, rfl, rfl⟩ := h
    refine ⟨rfl, hcharge, rfl, fun _ => by dsimp only; omega, ?_⟩
    intro found owner hfound
    rcases SortedMap.of_get?_insert hfound with ⟨-, hown⟩ | hfound
    · exact .inr hown.symm
    · exact .inl hfound

theorem walkLineage_keeps (hpub : Publishes codec store next cand) :
    ∀ {fuel : Nat} {state after : LineageState} {walk : LineageWalk} {start : Option Digest},
      walk.selectedHead = false →
      walkLineage codec store cand depth ns fuel state walk start = .ok after →
      after.selectedBytes = state.selectedBytes ∧
        (state.traversed ≤ maxSelectedGenerationLineage →
          after.traversed ≤ maxSelectedGenerationLineage) ∧
        ∀ found owner, after.validated.get? found = some owner →
          state.validated.get? found = some owner ∨ owner = ns := by
  intro fuel
  induction fuel with
  | zero =>
    intro state after walk start hhead h
    cases start with
    | none =>
      rw [walkLineage, ok.injEq] at h
      subst h
      exact ⟨rfl, id, fun _ _ hfound => .inl hfound⟩
    | some digest => simp [walkLineage] at h
  | succ fuel ih =>
    intro state after walk start hhead h
    cases start with
    | none =>
      rw [walkLineage, ok.injEq] at h
      subst h
      exact ⟨rfl, id, fun _ _ hfound => .inl hfound⟩
    | some digest =>
      rw [walkLineage] at h
      split at h
      · cases h
      · split at h
        · split at h
          · cases h
          · cases h
            exact ⟨rfl, id, fun _ _ hfound => .inl hfound⟩
        · rw [bind_ok] at h
          obtain ⟨⟨mid, walkAfter, following⟩, hvisit, hrest⟩ := h
          obtain ⟨hhead', -, hsel, htrav, hvalidated⟩ :=
            visitGeneration_keeps hpub hvisit
          obtain ⟨hsel', htrav', hvalidated'⟩ := ih hhead' hrest
          rw [hhead, if_neg (by decide), Nat.add_zero] at hsel
          refine ⟨hsel'.trans hsel, fun h => htrav' (htrav h), ?_⟩
          intro found owner hfound
          rcases hvalidated' found owner hfound with hfound | howner
          · exact hvalidated found owner hfound
          · exact .inr howner

end Walk

/-! ## 5. Full validation of a catalog -/

def selectedHeadBytes (codec : ObjectCodec) (store : ObjectStore)
    (heads : List NamespaceHead) : Nat :=
  (heads.map fun head => recordBytes codec store head.generation).sum

/-- The history bound that the record of a head sets. -/
def historyBound (store : ObjectStore) (digest : Digest) : Nat :=
  match store.record digest with
  | some gen => gen.retention.history
  | none => 0

/-- The records that full validation visits for a head. -/
def headChain (store : ObjectStore) (head : NamespaceHead) : List Digest :=
  chain store (historyBound store head.generation) head.generation

/-- The bytes that full validation decodes for a head. -/
def headBytes (codec : ObjectCodec) (store : ObjectStore) (head : NamespaceHead) : Nat :=
  chainBytes codec store (historyBound store head.generation) head.generation

/-- The chain of a head is valid through its history bound. -/
structure HeadOk (codec : ObjectCodec) (store : ObjectStore) (head : NamespaceHead) : Prop where
  loads : ∃ gen, loadGeneration codec store head.generation = .ok gen
  chain : ChainOk codec store head.namespaceName (historyBound store head.generation)
    head.generation
  nodup : (headChain store head).Nodup

def lineageCount (store : ObjectStore) (heads : List NamespaceHead) : Nat :=
  (heads.map fun head => (headChain store head).length).sum

def lineageBytes (codec : ObjectCodec) (store : ObjectStore) (heads : List NamespaceHead) : Nat :=
  (heads.map (headBytes codec store)).sum

@[simp] theorem lineageCount_cons (store : ObjectStore) (head : NamespaceHead)
    (heads : List NamespaceHead) : lineageCount store (head :: heads) =
      (headChain store head).length + lineageCount store heads := by
  simp [lineageCount]

@[simp] theorem lineageBytes_cons (store : ObjectStore) (head : NamespaceHead)
    (heads : List NamespaceHead) : lineageBytes codec store (head :: heads) =
      headBytes codec store head + lineageBytes codec store heads := by
  simp [lineageBytes]

@[simp] theorem selectedHeadBytes_cons (store : ObjectStore) (head : NamespaceHead)
    (heads : List NamespaceHead) : selectedHeadBytes codec store (head :: heads) =
      recordBytes codec store head.generation + selectedHeadBytes codec store heads := by
  simp [selectedHeadBytes]

theorem historyBound_of_load (h : loadGeneration codec store digest = .ok gen) :
    historyBound store digest = gen.retention.history := by
  simp [historyBound, (loadGeneration_ok h).record]

theorem history_pos (h : loadGeneration codec store digest = .ok gen) :
    1 ≤ gen.retention.history := by
  have hvalid := (loadGeneration_ok h).valid
  unfold validateStateGeneration at hvalid
  simp only [bind_ok, exists_unit, asState, mapError_ok] at hvalid
  obtain ⟨-, -, hret, -⟩ := hvalid
  unfold validateRetentionAuthority at hret
  simp only [bind_ok, exists_unit, reject_ok] at hret
  obtain ⟨hhistory, -⟩ := hret
  omega

/-- What the heads before have validated: their own namespaces, and no head to come. -/
def Owners (codec : ObjectCodec) (store : ObjectStore)
    (validated : SortedMap Digest NamespaceName) (heads : List NamespaceHead) : Prop :=
  ∀ digest owner, validated.get? digest = some owner →
    (∃ gen, loadGeneration codec store digest = .ok gen ∧
      gen.namespaceName = owner) ∧
    ∀ head ∈ heads, head.namespaceName ≠ owner

section Catalog

variable {head : NamespaceHead} {heads : List NamespaceHead}

theorem Owners.walkOwns (h : Owners codec store state.validated (head :: heads)) :
    WalkOwns head.namespaceName state.validated [] :=
  fun digest hdigest => absurd rfl ((h digest _ hdigest).2 head mem_cons_self)

theorem head_names (hsorted : ((head :: heads).map NamespaceHead.namespaceName).Pairwise (· < ·)) :
    ∀ other ∈ heads, other.namespaceName ≠ head.namespaceName := by
  intro other hother
  rw [map_cons, pairwise_cons] at hsorted
  exact (hsorted.1 _ (mem_map_of_mem hother)).ne'

theorem Owners.walked {after : LineageState} {left sel : Nat}
    (h : Owners codec store state.validated (head :: heads))
    (hsorted : ((head :: heads).map NamespaceHead.namespaceName).Pairwise (· < ·))
    (hchain : ChainOk codec store head.namespaceName left head.generation)
    (hwalked : Walked codec store head.namespaceName state (chain store left head.generation)
      bytes sel after) : Owners codec store after.validated heads := by
  intro digest owner howner
  rw [hwalked.validated] at howner
  split at howner
  · rename_i hmem
    cases howner
    obtain ⟨gen, hload, hname, -⟩ := hchain.loads digest hmem
    exact ⟨⟨gen, hload, hname⟩, head_names hsorted⟩
  · obtain ⟨hrec, hnames⟩ := h digest owner howner
    exact ⟨hrec, fun other hother => hnames other (mem_cons_of_mem _ hother)⟩

theorem leaves_head {left : Nat} (hload : loadGeneration codec store digest = .ok gen)
    (hleft : gen.retention.history = left) :
    Leaves codec store ⟨[], true, none, 0⟩ digest left := by
  intro found hfound
  rw [hload] at hfound
  cases hfound
  simpa using hleft

theorem walkHead_full_ok {after : LineageState}
    (howners : Owners codec store state.validated (head :: heads))
    (htrav : state.traversed ≤ maxSelectedGenerationLineage)
    (h : walkHead codec store none .full state head = .ok after) :
    HeadOk codec store head ∧
      Walked codec store head.namespaceName state (headChain store head)
        (headBytes codec store head) (recordBytes codec store head.generation) after ∧
      after.traversed ≤ maxSelectedGenerationLineage ∧
      after.decodedBytes ≤ maxLineageValidationBytes ∧
      after.selectedBytes ≤ maxSelectedGenerationBytes := by
  unfold walkHead at h
  obtain ⟨below, mid, walkAfter, following, -, -, -, hvisit, -⟩ :=
    walkLineage_some_ok howners.walkOwns h
  obtain ⟨gen, limit, length, hrec, -⟩ :=
    visitGeneration_ok (Publishes.refl store) hvisit
  have hload := ((Publishes.refl store).lineageRecord hrec).1
  have hbound := historyBound_of_load hload
  obtain ⟨left, hleft⟩ := Nat.exists_eq_add_of_le' (history_pos hload)
  obtain ⟨hwalk, hwalked⟩ := walkLineage_ok (Publishes.refl store) NotCut.full (.inl rfl)
    (leaves_head hload hleft) howners.walkOwns htrav h
  rw [← hleft, ← hbound] at hwalk hwalked
  refine ⟨⟨⟨gen, hload⟩, hwalk.valid, hwalk.nodup⟩, hwalked, ?_, ?_, ?_⟩
  · rw [hwalked.traversed]
    exact hwalk.traversed
  · rw [hwalked.decoded]
    exact hwalk.decoded
  · rw [hwalked.selected]
    exact hwalk.selected rfl

theorem walkHead_of_headOk (howners : Owners codec store state.validated (head :: heads))
    (hhead : HeadOk codec store head)
    (htrav : state.traversed + (headChain store head).length ≤ maxSelectedGenerationLineage)
    (hdecoded : state.decodedBytes + headBytes codec store head ≤ maxLineageValidationBytes)
    (hsel : state.selectedBytes + recordBytes codec store head.generation ≤
      maxSelectedGenerationBytes) :
    ∃ after, walkHead codec store none .full state head = .ok after := by
  obtain ⟨⟨gen, hload⟩, hchain, hnodup⟩ := hhead
  have hbound := historyBound_of_load hload
  obtain ⟨left, hleft⟩ := Nat.exists_eq_add_of_le' (history_pos hload)
  unfold headChain at htrav hnodup
  unfold headBytes at hdecoded
  rw [hbound, hleft] at hchain hnodup htrav hdecoded
  refine walkLineage_of_chainWalk (leaves_head hload hleft) ?_ (by omega)
    ⟨hchain, hnodup, fun _ _ => not_mem_nil, htrav, hdecoded, fun _ => hsel⟩
  -- a rec that an earlier head validated belongs to another namespace
  intro found hfound
  cases hvalidated : state.validated.get? found with
  | none => rfl
  | some owner =>
    obtain ⟨⟨rec, hrec, howner⟩, hnames⟩ := howners found owner hvalidated
    obtain ⟨record', hrec', hname, -⟩ := hchain.loads found hfound
    rw [hrec] at hrec'
    cases hrec'
    exact absurd (hname.symm.trans howner) (hnames head mem_cons_self)

theorem foldHeads_full_ok : ∀ {heads : List NamespaceHead} {state after : LineageState},
    (heads.map NamespaceHead.namespaceName).Pairwise (· < ·) →
      Owners codec store state.validated heads →
      state.traversed ≤ maxSelectedGenerationLineage →
      state.decodedBytes ≤ maxLineageValidationBytes →
      state.selectedBytes ≤ maxSelectedGenerationBytes →
      heads.foldlM (walkHead codec store none .full) state = .ok after →
      (∀ head ∈ heads, HeadOk codec store head) ∧
        state.traversed + lineageCount store heads ≤ maxSelectedGenerationLineage ∧
        state.decodedBytes + lineageBytes codec store heads ≤ maxLineageValidationBytes ∧
        state.selectedBytes + selectedHeadBytes codec store heads ≤ maxSelectedGenerationBytes
  | [], state, after, _, _, htrav, hdecoded, hsel, _ =>
    ⟨by simp, htrav, hdecoded, hsel⟩
  | head :: heads, state, after, hsorted, howners, htrav, hdecoded, hsel, h => by
    rw [foldlM_cons, bind_ok] at h
    obtain ⟨mid, hhead, hrest⟩ := h
    obtain ⟨hok, hwalked, htrav', hdecoded', hsel'⟩ :=
      walkHead_full_ok howners htrav hhead
    have hsorted' := (pairwise_cons.1 (map_cons ▸ hsorted)).2
    obtain ⟨hall, hcount, hbytes, hsizes⟩ := foldHeads_full_ok hsorted'
      (howners.walked hsorted hok.chain hwalked) htrav' hdecoded' hsel' hrest
    rw [hwalked.traversed] at hcount
    rw [hwalked.decoded] at hbytes
    rw [hwalked.selected] at hsizes
    refine ⟨by simpa using ⟨hok, hall⟩, ?_, ?_, ?_⟩
    · rw [lineageCount_cons]
      omega
    · rw [lineageBytes_cons]
      omega
    · rw [selectedHeadBytes_cons]
      omega

theorem foldHeads_of_headOk : ∀ {heads : List NamespaceHead} {state : LineageState},
    (heads.map NamespaceHead.namespaceName).Pairwise (· < ·) →
      Owners codec store state.validated heads →
      (∀ head ∈ heads, HeadOk codec store head) →
      state.traversed + lineageCount store heads ≤ maxSelectedGenerationLineage →
      state.decodedBytes + lineageBytes codec store heads ≤ maxLineageValidationBytes →
      state.selectedBytes + selectedHeadBytes codec store heads ≤ maxSelectedGenerationBytes →
      ∃ after, heads.foldlM (walkHead codec store none .full) state = .ok after
  | [], state, _, _, _, _, _, _ => ⟨state, rfl⟩
  | head :: heads, state, hsorted, howners, hall, hcount, hbytes, hsizes => by
    rw [lineageCount_cons, ← Nat.add_assoc] at hcount
    rw [lineageBytes_cons, ← Nat.add_assoc] at hbytes
    rw [selectedHeadBytes_cons, ← Nat.add_assoc] at hsizes
    have hok := hall head mem_cons_self
    obtain ⟨mid, hhead⟩ := walkHead_of_headOk howners hok
      (by omega) (by omega) (by omega)
    obtain ⟨-, hwalked, -, -, -⟩ := walkHead_full_ok howners (by omega) hhead
    have hsorted' := (pairwise_cons.1 (map_cons ▸ hsorted)).2
    obtain ⟨after, hrest⟩ := foldHeads_of_headOk hsorted'
      (howners.walked hsorted hok.chain hwalked)
      (fun other hother => hall other (mem_cons_of_mem _ hother))
      (by rw [hwalked.traversed]; exact hcount) (by rw [hwalked.decoded]; exact hbytes)
      (by rw [hwalked.selected]; exact hsizes)
    refine ⟨after, ?_⟩
    rw [foldlM_cons, bind_ok]
    exact ⟨mid, hhead, hrest⟩

/-- **What full validation accepts**: a valid chain for every head, and three totals. -/
theorem validateCatalogLineages_full_iff {catalog : StateCatalog} :
    validateCatalogLineages codec store none .full catalog = .ok () ↔
      (∀ head ∈ catalog.heads, HeadOk codec store head) ∧
        lineageCount store catalog.heads ≤ maxSelectedGenerationLineage ∧
        lineageBytes codec store catalog.heads ≤ maxLineageValidationBytes ∧
        selectedHeadBytes codec store catalog.heads ≤ maxSelectedGenerationBytes := by
  have howners : Owners codec store SortedMap.empty catalog.heads := by
    intro digest owner h
    simp at h
  unfold validateCatalogLineages
  rw [bind_ok]
  constructor
  · rintro ⟨after, hfold, -⟩
    simpa using foldHeads_full_ok catalog.sorted howners (Nat.zero_le _) (Nat.zero_le _)
      (Nat.zero_le _) hfold
  · rintro ⟨hall, hcount, hbytes, hsizes⟩
    obtain ⟨after, hfold⟩ := @foldHeads_of_headOk codec store _ ⟨.empty, 0, 0, 0⟩ catalog.sorted
      howners hall (by simpa using hcount) (by simpa using hbytes) (by simpa using hsizes)
    exact ⟨after, hfold, rfl⟩

end Catalog

end Malm.Commit
