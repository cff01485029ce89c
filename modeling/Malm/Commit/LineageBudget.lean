/-
Malm.Commit.LineageBudget — commits and the budgets of full lineage
validation.

A commit is admitted by a routine walk, which is enough for the chains: the old chain was
valid, and the new head was checked (`Commits.headOk`). It is not enough for the totals,
which only full validation counts.
-/
import Malm.Commit.LineageTheorems

namespace Malm.Commit

open Store Checks List Except

variable {head : NamespaceHead}

variable {codec : ObjectCodec}

/-! ## 1. The published candidate -/

variable {gen : StateGeneration}

variable {d prev : Digest} {k left : Nat}

variable {next store : ObjectStore} {prepared : PreparedRecord}

theorem loadGeneration_of_file
    (hfile : store.generations.get? d = some ⟨true, true, true, .canonical gen⟩)
    (hsize : codec.generationBytes gen ≤ maxStateRecordBytes)
    (hdigest : codec.generationDigest gen = d)
    (hvalid : validateStateGeneration codec.toCodec gen = .ok ()) :
    loadGeneration codec store d = .ok gen := by
  have hread : readImmutable (Encoded.byteLen codec.generationBytes) maxStateRecordBytes
      (store.generations.get? d) = .ok (some (.canonical gen)) := by
    simp [readImmutable, hfile, Encoded.byteLen, not_lt.2 hsize]
  unfold loadGeneration loadGenerationWithEncodedLen
  simp only [hread, ok_bind, require, asInvalidStore, decodeStateGeneration,
    reject, hdigest, ne_eq, not_true, if_false, hvalid, pure_eq, Except.mapError]

theorem Commits.loadPrepared {state next : StoreState} (h : Commits codec state prepared next) :
    Commit.loadPrepared codec state.objects (codec.preparedId prepared) = .ok prepared := by
  obtain ⟨machine, req, h⟩ := h
  unfold commitStore at h
  simp only [bind_ok, pure_ok] at h
  obtain ⟨⟨loaded, tr⟩, hadm, published, -, hpair⟩ := h
  obtain ⟨rfl, rfl⟩ := Prod.mk.injEq .. ▸ hpair
  have hload := (admitCommit_ok hadm).1
  rwa [(loadPrepared_ok hload).2.1]

theorem Derived.publishes {catalog nextCatalog : StateCatalog} {planId : PreparedId}
    {sel : List (NamespaceName × StateGeneration)} {prev : Option StateGeneration}
    {budget : CanonicalLoadBudget}
    (hload : loadPrepared codec store (codec.preparedId prepared) = .ok prepared)
    (hder : Derived codec store catalog planId prepared sel prev budget gen nextCatalog)
    (hpublish : publishImmutable codec store (codec.generationDigest gen) gen =
      .ok next) :
    Publishes codec store next (some ⟨codec.generationDigest gen, gen, prepared,
      codec.generationBytes gen⟩) := by
  obtain ⟨hfile, hplans, hkept, -⟩ := publishImmutable_file hpublish
  have hbuilt := fromPrepared_builtFrom hder.built
  have hvalid := hbuilt.valid (planParts_of_decoded (loadPrepared_ok hload).2.2)
  refine ⟨hkept, hplans, ?_⟩
  rintro published hpublished
  cases hpublished
  refine ⟨loadGeneration_of_file hfile hbuilt.size rfl hvalid, ?_, rfl⟩
  have hplan : gen.planId = codec.preparedId prepared := by
    rw [hbuilt.generation_eq, ← hbuilt.plan]
    rfl
  dsimp only
  rw [hplan, hload]

/-! ## 2. Routine validation -/

section Routine

variable {cand : Option CandidateGeneration} {depth : LineageDepth}

theorem walkHead_keeps (hpub : Publishes codec store next cand) {state after : LineageState}
    (howns : WalkOwns head.namespaceName state.validated [])
    (h : walkHead codec store cand depth state head = .ok after) :
    after.selectedBytes = state.selectedBytes + recordBytes codec next head.generation ∧
      after.selectedBytes ≤ maxSelectedGenerationBytes ∧
      (state.traversed ≤ maxSelectedGenerationLineage →
        after.traversed ≤ maxSelectedGenerationLineage) ∧
      ∀ found owner, after.validated.get? found = some owner →
        state.validated.get? found = some owner ∨ owner = head.namespaceName := by
  unfold walkHead at h
  obtain ⟨below, mid, walkAfter, following, -, -, -, hvisit, hrest⟩ :=
    walkLineage_some_ok howns h
  obtain ⟨hhead, hcharge, hsel, htrav, hvalidated⟩ :=
    visitGeneration_keeps hpub hvisit
  obtain ⟨hsel', htrav', hvalidated'⟩ := walkLineage_keeps hpub hhead hrest
  have hsum := hsel'.trans hsel
  rw [if_pos rfl] at hsum
  refine ⟨hsum, hsum ▸ hcharge rfl, fun h => htrav' (htrav h), ?_⟩
  intro found owner hfound
  rcases hvalidated' found owner hfound with hfound | howner
  · exact hvalidated found owner hfound
  · exact .inr howner

/-- What a routine walk has checked of a head. -/
structure RoutineOk (codec : ObjectCodec) (next : ObjectStore) (head : NamespaceHead)
    (generation : StateGeneration) : Prop where
  loads : loadGeneration codec next head.generation = .ok generation
  name : generation.namespaceName = head.namespaceName
  transition : TransitionOk codec next (generation.retention.history - 1 = 0) generation
  rest : ∀ previous, generation.retention.history ≠ 1 →
    generation.previousGeneration = some previous →
      historyBound next previous = generation.retention.history ∨
        ChainOk codec next head.namespaceName (generation.retention.history - 1) previous ∧
          (head.generation ::
            chain next (generation.retention.history - 1) previous).Nodup

theorem walkHead_routine_ok (hpub : Publishes codec store next cand)
    {state after : LineageState} (howns : WalkOwns head.namespaceName state.validated [])
    (htrav : state.traversed ≤ maxSelectedGenerationLineage)
    (h : walkHead codec store cand .routine state head = .ok after) :
    ∃ gen, RoutineOk codec next head gen := by
  unfold walkHead at h
  obtain ⟨below, mid, walkAfter, following, -, -, -, hvisit, -⟩ := walkLineage_some_ok howns h
  obtain ⟨gen, limit, length, hrec, -⟩ := visitGeneration_ok hpub hvisit
  have hload := (hpub.lineageRecord hrec).1
  obtain ⟨left, hleft⟩ := Nat.exists_eq_add_of_le' (history_pos hload)
  obtain ⟨found, below', hok, -, hrest⟩ := walkLineage_visit hpub
    (NotCut.of_count (by decide)) (leaves_head hload hleft) howns h
  obtain rfl : gen = found := ok.inj (hload.symm.trans hok.loads)
  have hleft' : gen.retention.history - 1 = left := by omega
  have htrans := hok.transition
  rw [floor_eq] at htrans
  refine ⟨gen, hload, hok.name, by rwa [hleft'], ?_⟩
  intro prev hbound hprev
  rw [hleft']
  obtain ⟨below, rfl⟩ := Nat.exists_eq_succ_of_ne_zero (show left ≠ 0 by omega)
  rw [if_neg (Nat.succ_ne_zero below), predecessor_of_load hload, hprev] at hrest
  have howns' := howns.insert head.generation
  obtain ⟨fuel, state', walk', following', -, -, -, hvisit', -⟩ :=
    walkLineage_some_ok howns' hrest
  obtain ⟨rec, limit', length', hrec', -⟩ := visitGeneration_ok hpub hvisit'
  have hload' := (hpub.lineageRecord hrec').1
  by_cases hsame : historyBound next prev = gen.retention.history
  · exact .inl hsame
  · -- another bound: the walk goes on like a full one
    right
    have hcut : NotCut codec next .routine
        (visitedWalk ⟨[], true, none, 0⟩ head.generation (0 + (below + 1 + 1))) prev := by
      intro _ _ found hfound
      rw [hload'] at hfound
      cases hfound
      rw [historyBound_of_load hload', hleft] at hsame
      simp only [visitedWalk, Option.getD_some]
      omega
    have htrav' : state.traversed + 1 ≤ maxSelectedGenerationLineage := by
      have := hok.traversed
      omega
    have hleaves : Leaves codec next
        (visitedWalk ⟨[], true, none, 0⟩ head.generation (0 + (below + 1 + 1))) prev
        (below + 1) := by
      intro _ _
      simp only [visitedWalk, Option.getD_some]
      omega
    obtain ⟨hwalk, -⟩ := walkLineage_ok hpub hcut
      (.inr (by simp only [visitedWalk]; omega)) hleaves howns' htrav' hrest
    refine ⟨hwalk.valid, nodup_cons.2 ⟨?_, hwalk.nodup⟩⟩
    intro hmem
    exact hwalk.fresh head.generation hmem mem_cons_self

theorem foldHeads_keeps (hpub : Publishes codec store next cand) :
    ∀ {heads : List NamespaceHead} {state after : LineageState},
      (heads.map NamespaceHead.namespaceName).Pairwise (· < ·) →
      (∀ found owner, state.validated.get? found = some owner →
        ∀ head ∈ heads, head.namespaceName ≠ owner) →
      state.traversed ≤ maxSelectedGenerationLineage →
      state.selectedBytes ≤ maxSelectedGenerationBytes →
      heads.foldlM (walkHead codec store cand depth) state = .ok after →
      state.selectedBytes + selectedHeadBytes codec next heads ≤ maxSelectedGenerationBytes ∧
        ∀ head ∈ heads, ∃ before r, WalkOwns head.namespaceName before.validated [] ∧
          before.traversed ≤ maxSelectedGenerationLineage ∧
          walkHead codec store cand depth before head = .ok r
  | [], state, after, _, _, _, hsel, _ => ⟨hsel, by simp⟩
  | head :: heads, state, after, hsorted, howners, htrav, hsel, h => by
    rw [foldlM_cons, bind_ok] at h
    obtain ⟨mid, hhead, hrest⟩ := h
    have howns : WalkOwns head.namespaceName state.validated [] := fun found hfound =>
      absurd rfl (howners found _ hfound head mem_cons_self)
    obtain ⟨hsum, hbound, htrav', hvalidated⟩ := walkHead_keeps hpub howns hhead
    have howners' : ∀ found owner, mid.validated.get? found = some owner →
        ∀ other ∈ heads, other.namespaceName ≠ owner := by
      intro found owner hfound other hother
      rcases hvalidated found owner hfound with hfound | rfl
      · exact howners found owner hfound other (mem_cons_of_mem _ hother)
      · exact head_names hsorted other hother
    obtain ⟨hrestsum, hall⟩ := foldHeads_keeps hpub
      (pairwise_cons.1 (map_cons ▸ hsorted)).2 howners' (htrav' htrav) hbound
      hrest
    rw [hsum] at hrestsum
    refine ⟨by rw [selectedHeadBytes_cons]; omega, ?_⟩
    intro other hother
    rcases mem_cons.1 hother with rfl | hother
    · exact ⟨state, mid, howns, htrav, hhead⟩
    · exact hall other hother

theorem validateCatalogLineages_routine_ok (hpub : Publishes codec store next cand)
    {catalog : StateCatalog}
    (h : validateCatalogLineages codec store cand .routine catalog = .ok ()) :
    selectedHeadBytes codec next catalog.heads ≤ maxSelectedGenerationBytes ∧
      ∀ head ∈ catalog.heads, ∃ gen, RoutineOk codec next head gen := by
  unfold validateCatalogLineages at h
  rw [bind_ok] at h
  obtain ⟨after, hfold, -⟩ := h
  obtain ⟨hsum, hall⟩ := foldHeads_keeps hpub catalog.sorted
    (by intro found owner hfound; simp at hfound) (Nat.zero_le _) (Nat.zero_le _) hfold
  refine ⟨by simpa using hsum, ?_⟩
  intro head hhead
  obtain ⟨before, r, howns, htrav, hwalk⟩ := hall head hhead
  exact walkHead_routine_ok hpub howns htrav hwalk

end Routine

/-! ## 3. A commit -/

/-- What the bound of the plan leaves below its generation. -/
def keptChain (state : StoreState) (prepared : PreparedRecord) : List Digest :=
  match prepared.expectedHead with
  | some head => chain state.objects (prepared.retention.history - 1) head
  | none => []

/-- The bytes of the new generation, its plan, its predecessor and the kept chain. -/
def candidateBytes (codec : ObjectCodec) (state : StoreState) (prepared : PreparedRecord) : Nat :=
  codec.generationBytes
      (generationOf (codec.preparedId prepared) prepared.expectedHead prepared) +
    codec.preparedBytes prepared +
    match prepared.expectedHead with
    | some head =>
      (if prepared.retention.history = 1 then 0 else recordBytes codec state.objects head) +
        chainBytes codec state.objects (prepared.retention.history - 1) head
    | none => 0

/-- **The condition before a commit.** The other chains leave room for the new one; a removal
always fits. -/
def LineageFits (codec : ObjectCodec) (state : StoreState) (prepared : PreparedRecord) : Prop :=
  prepared.transition.isNamespaceRemoval = true ∨
    let others := state.catalog.heads.filter (·.namespaceName ≠ prepared.namespaceName)
    1 + (keptChain state prepared).length + lineageCount state.objects others ≤
        maxSelectedGenerationLineage ∧
      candidateBytes codec state prepared + lineageBytes codec state.objects others ≤
        maxLineageValidationBytes

/-- The catalog passes full lineage validation. -/
def FullyValid (codec : ObjectCodec) (state : StoreState) : Prop :=
  validateCatalogLineages codec state.objects none .full state.catalog = .ok ()

theorem HeadOk.agree (h : HeadOk codec store head)
    (hagree : AgreeOn store next (headChain store head)) :
    HeadOk codec next head ∧ headChain next head = headChain store head ∧
      headBytes codec next head = headBytes codec store head ∧
      recordBytes codec next head.generation = recordBytes codec store head.generation := by
  obtain ⟨⟨gen, hload⟩, hchain, hnodup⟩ := h
  obtain ⟨left, hleft⟩ := Nat.exists_eq_add_of_le' (history_pos hload)
  have hbound : historyBound store head.generation = left + 1 :=
    (historyBound_of_load hload).trans hleft
  unfold headChain at hagree hnodup
  rw [hbound] at hagree hchain hnodup
  have hget := (hagree head.generation (self_mem_chain store left head.generation)).1
  have hload' := (loadGeneration_congr hget).trans hload
  have hbound' : historyBound next head.generation = left + 1 :=
    (historyBound_of_load hload').trans hleft
  have hsame := chain_congr hagree
  obtain ⟨hbytes, hvalid⟩ := @chainOk_congr codec store next head.namespaceName _ _ hagree
  refine ⟨⟨⟨gen, hload'⟩, ?_, ?_⟩, ?_, ?_, ?_⟩
  · rw [hbound']
    exact hvalid hchain
  · rw [headChain, hbound', hsame]
    exact hnodup
  · rw [headChain, headChain, hbound', hbound, hsame]
  · rw [headBytes, headBytes, hbound', hbound, hbytes]
  · rw [recordBytes_of_load hload, recordBytes_of_load hload']

theorem Publishes.agreeOn {cand : Option CandidateGeneration}
    (hpub : Publishes codec store next cand) {ns : NamespaceName} {start : Digest}
    (h : ChainOk codec store ns left start) :
    AgreeOn store next (chain store left start) := by
  intro d hdigest
  obtain ⟨gen, hload, -⟩ := h.loads d hdigest
  obtain ⟨file, hfile⟩ := file_of_record (loadGeneration_ok hload).record
  refine ⟨(hpub.kept _ _ hfile).trans hfile.symm, ?_⟩
  intro _ _
  rw [hpub.plans]

theorem ChainOk.shorten {ns : NamespaceName} :
    ∀ {left : Nat} {start : Digest}, ChainOk codec store ns (left + 1) start →
      ChainOk codec store ns left start
  | 0, _, _ => trivial
  | left + 1, start, ⟨⟨gen, hload, hname, prepared, hplan, hrebuilt⟩, hrest⟩ => by
    refine ⟨⟨gen, hload, hname, prepared, hplan, ?_⟩,
      fun prev hprev => (hrest prev hprev).shorten⟩
    rw [if_neg (by simp)] at hrebuilt
    obtain ⟨prev, hloads, hrebuilt⟩ := hrebuilt
    by_cases hleft : left = 0
    · rw [if_pos (by simpa using hleft)]
      exact (fromPrepared_builtFrom hrebuilt).retained (loadGeneration_ok hload).valid
    · rw [if_neg (by simpa using hleft)]
      exact ⟨prev, hloads, hrebuilt⟩

theorem chain_sublist :
    ∀ (left : Nat) (start : Digest), (chain store left start).Sublist (chain store (left + 1) start)
  | 0, _ => nil_sublist _
  | left + 1, start => by
    rw [chain, chain]
    cases predecessor store start with
    | none => exact List.Sublist.refl _
    | some prev => exact (chain_sublist left prev).cons_cons start

theorem upsert_perm {ns : NamespaceName} {d : Digest} :
    ∀ {heads : List NamespaceHead}, (heads.map NamespaceHead.namespaceName).Pairwise (· < ·) →
      (StateCatalog.upsert ns d heads).Perm
        (⟨ns, d⟩ :: heads.filter (·.namespaceName ≠ ns))
  | [], _ => List.Perm.refl _
  | head :: heads, hsorted => by
    have hnames : ∀ other ∈ heads, head.namespaceName < other.namespaceName := by
      intro other hother
      rw [map_cons, pairwise_cons] at hsorted
      exact hsorted.1 _ (mem_map_of_mem hother)
    unfold StateCatalog.upsert
    split
    · rename_i hlt
      have hall : (head :: heads).filter (·.namespaceName ≠ ns) = head :: heads := by
        rw [filter_eq_self]
        intro other hother
        rcases mem_cons.1 hother with rfl | hother
        · simpa using hlt.ne'
        · simpa using (hlt.trans (hnames other hother)).ne'
      rw [hall]
    · split
      · rename_i heq
        have hall : heads.filter (·.namespaceName ≠ ns) = heads := by
          rw [filter_eq_self]
          intro other hother
          simpa [← heq] using (hnames other hother).ne'
        rw [filter_cons_of_neg (by simpa using heq), hall]
      · rename_i hne
        rw [filter_cons_of_pos (by simpa using hne)]
        have hsorted' := (pairwise_cons.1 (map_cons ▸ hsorted)).2
        exact ((upsert_perm hsorted').cons head).trans (.swap _ _ _)

/-- The candidate of an accepted plan, with what admission has read of it. -/
structure Accepted (codec : ObjectCodec) (state next : StoreState) (prepared : PreparedRecord)
    (generation : StateGeneration) : Prop where
  plan : loadPrepared codec state.objects (codec.preparedId prepared) = .ok prepared
  heads : next.catalog.heads = StateCatalog.upsert prepared.namespaceName
    (codec.generationDigest generation) state.catalog.heads
  built : generation =
    generationOf (codec.preparedId prepared) prepared.expectedHead prepared
  publishes : Publishes codec state.objects next.objects
    (some ⟨codec.generationDigest generation, generation, prepared,
      codec.generationBytes generation⟩)
  others : ∀ other, other ≠ codec.generationDigest generation →
    next.objects.generations.get? other = state.objects.generations.get? other
  expected : ∀ previous, prepared.expectedHead = some previous →
    ⟨prepared.namespaceName, previous⟩ ∈ state.catalog.heads
  routine : validateCatalogLineages codec state.objects
    (some ⟨codec.generationDigest generation, generation, prepared,
      codec.generationBytes generation⟩) .routine next.catalog = .ok ()

theorem Commits.accepted {state next : StoreState} (h : Commits codec state prepared next) :
    (prepared.transition.isNamespaceRemoval = true ∧
        next = ⟨state.objects, (state.catalog.removeHead prepared.namespaceName).1⟩) ∨
      prepared.transition.isNamespaceRemoval = false ∧
        ∃ gen, Accepted codec state next prepared gen := by
  have hplan := h.loadPrepared
  obtain ⟨machine, planId, tr, ownership, budget, hadm, hcases⟩ := h.cases
  rcases hcases with ⟨hremoval, -, -, hnext⟩ | ⟨gen, hremoval, hder, hpublish⟩
  · exact .inl ⟨hremoval, hnext⟩
  · right
    have hbuilt := fromPrepared_builtFrom hder.built
    refine ⟨hremoval, gen, hplan, updateHead_heads hder.catalog, ?_,
      hder.publishes hplan hpublish, (publishImmutable_file hpublish).2.2.2, ?_,
      hder.lineages⟩
    · rw [hbuilt.generation_eq, hbuilt.plan, hadm.head]
    · intro prev hprev
      exact StateCatalog.generation_eq_some.1 (hadm.head.trans hprev)

theorem sum_filter_le {α : Type} (keep : α → Bool) (size : α → Nat) (items : List α) :
    ((items.filter keep).map size).sum ≤ (items.map size).sum := by
  induction items with
  | nil => exact Nat.le_refl 0
  | cons item items ih =>
    rw [filter_cons]
    split
    · simpa using ih
    · simp only [map_cons, sum_cons]
      omega

section Step

variable {state next : StoreState}

section

variable (h : Accepted codec state next prepared gen)

include h

theorem Accepted.loads :
    loadGeneration codec next.objects (codec.generationDigest gen) = .ok gen :=
  (h.publishes.stored _ rfl).1

theorem Accepted.history :
    gen.retention.history = prepared.retention.history := by
  rw [h.built]
  rfl

theorem Accepted.previous :
    gen.previousGeneration = prepared.expectedHead := by
  rw [h.built]
  rfl

theorem Accepted.not_mem_chain {prev : Digest} (hprev : prepared.expectedHead = some prev)
    (hchain : ChainOk codec state.objects prepared.namespaceName (left + 1) prev)
    (hnodup : (chain state.objects (left + 1) prev).Nodup) :
    codec.generationDigest gen ∉ chain state.objects left prev := by
  intro hmem
  obtain ⟨stored, hload, -⟩ := hchain.shorten.loads _ hmem
  obtain rfl : stored = gen :=
    ok.inj ((h.publishes.loadGeneration hload).symm.trans h.loads)
  have hself := predecessor_mem_chain
    ((predecessor_of_load hload).trans (h.previous.trans hprev)) hmem
  rw [chain] at hnodup hself
  exact (nodup_cons.1 hnodup).1 hself

end

section

variable (h : Accepted codec state next prepared gen)
include h

theorem Accepted.routineOk :
    RoutineOk codec next.objects ⟨prepared.namespaceName, codec.generationDigest gen⟩
      gen := by
  have hmem : (⟨prepared.namespaceName, codec.generationDigest gen⟩ : NamespaceHead) ∈
      next.catalog.heads := h.heads ▸ StateCatalog.self_mem_upsert _
  obtain ⟨found, hroutine⟩ := (validateCatalogLineages_routine_ok h.publishes h.routine).2 _ hmem
  obtain rfl : gen = found := ok.inj (h.loads.symm.trans hroutine.loads)
  exact hroutine

theorem Accepted.kept (hfull : FullyValid codec state) (hprev : prepared.expectedHead = some prev)
    (hbound : prepared.retention.history ≠ 1) :
    ChainOk codec next.objects prepared.namespaceName (prepared.retention.history - 1) prev ∧
      (codec.generationDigest gen ::
        chain next.objects (prepared.retention.history - 1) prev).Nodup := by
  have hroutine := h.routineOk
  have hrest := hroutine.rest prev (h.history ▸ hbound) (h.previous.trans hprev)
  rw [h.history] at hrest
  rcases hrest with hsame | hchain
  · -- the same bound: the routine walk stopped, and the old chain was valid
    have hhead := (validateCatalogLineages_full_iff.1 hfull).1 _ (h.expected prev hprev)
    obtain ⟨⟨rec, hload⟩, hvalid, hnodup⟩ := hhead
    have hstored : historyBound state.objects prev = prepared.retention.history := by
      rw [← hsame, historyBound_of_load hload,
        historyBound_of_load (h.publishes.loadGeneration hload)]
    obtain ⟨left, hleft⟩ := Nat.exists_eq_add_of_le' (history_pos hload)
    rw [← historyBound_of_load hload, hstored] at hleft
    unfold headChain at hnodup
    rw [hstored, hleft] at hvalid hnodup
    rw [show prepared.retention.history - 1 = left by omega]
    have hagree := h.publishes.agreeOn hvalid.shorten
    refine ⟨(chainOk_congr hagree).2 hvalid.shorten, ?_⟩
    rw [chain_congr hagree, nodup_cons]
    exact ⟨h.not_mem_chain hprev hvalid hnodup, hnodup.sublist (chain_sublist left prev)⟩
  · exact hchain

theorem Accepted.kept_agree
    (hnodup : (codec.generationDigest gen :: chain next.objects left prev).Nodup) :
    AgreeOn next.objects state.objects (chain next.objects left prev) := by
  intro d hdigest
  have hne : d ≠ codec.generationDigest gen := by
    rintro rfl
    exact (nodup_cons.1 hnodup).1 hdigest
  refine ⟨(h.others d hne).symm, ?_⟩
  intro _ _
  rw [h.publishes.plans]

end

section

variable (h : Accepted codec state next prepared gen) (hfull : FullyValid codec state)

include h hfull

theorem Accepted.visitBytes :
    Commit.visitBytes codec next.objects (prepared.retention.history - 1 = 0)
        (codec.generationDigest gen) =
      codec.generationBytes
          (generationOf (codec.preparedId prepared) prepared.expectedHead prepared) +
        codec.preparedBytes prepared +
        match prepared.expectedHead with
        | some head =>
          if prepared.retention.history - 1 = 0 then 0 else recordBytes codec state.objects head
        | none => 0 := by
  have hplan : planBytes codec next.objects gen.planId = codec.preparedBytes prepared := by
    have hid : gen.planId = codec.preparedId prepared := by rw [h.built]; rfl
    rw [h.publishes.planBytes, hid, planBytes_of_load h.plan]
  rw [visitBytes_of_load h.loads, transitionBytes, hplan, ← Nat.add_assoc, ← h.built,
    loadedPredecessor, h.previous]
  congr 1
  cases hprev : prepared.expectedHead with
  | none => simp
  | some prev =>
    obtain ⟨⟨rec, hload⟩, -, -⟩ :=
      (validateCatalogLineages_full_iff.1 hfull).1 _ (h.expected prev hprev)
    have hsame : recordBytes codec next.objects prev =
        recordBytes codec state.objects prev := by
      rw [recordBytes_of_load hload, recordBytes_of_load (h.publishes.loadGeneration hload)]
    by_cases hfloor : prepared.retention.history - 1 = 0 <;> simp [hfloor, hsame]

/-- **The chain of the new head** is the new record and the kept part of the old one. -/
theorem Accepted.headOk :
    HeadOk codec next.objects ⟨prepared.namespaceName, codec.generationDigest gen⟩ ∧
      (headChain next.objects
        ⟨prepared.namespaceName, codec.generationDigest gen⟩).length =
        1 + (keptChain state prepared).length ∧
      headBytes codec next.objects
        ⟨prepared.namespaceName, codec.generationDigest gen⟩ =
        candidateBytes codec state prepared := by
  have hroutine := h.routineOk
  obtain ⟨left, hleft⟩ := Nat.exists_eq_add_of_le' (history_pos h.loads)
  have hbound : historyBound next.objects (codec.generationDigest gen) = left + 1 :=
    (historyBound_of_load h.loads).trans hleft
  rw [h.history] at hleft
  have hrec : RecordOk codec next.objects prepared.namespaceName (left = 0)
      (codec.generationDigest gen) := by
    have htrans := hroutine.transition
    rw [h.history, show prepared.retention.history - 1 = left by omega] at htrans
    exact ⟨gen, h.loads, hroutine.name, htrans⟩
  have hvisit := h.visitBytes hfull
  have hpred := (predecessor_of_load h.loads).trans h.previous
  rw [show prepared.retention.history - 1 = left by omega] at hvisit
  -- the rest of the chain, and its size before and after
  have hrest : ∀ prev, prepared.expectedHead = some prev →
      ChainOk codec next.objects prepared.namespaceName left prev ∧
        (codec.generationDigest gen :: chain next.objects left prev).Nodup := by
    intro prev hprev
    by_cases hzero : left = 0
    · subst hzero
      exact ⟨trivial, nodup_singleton _⟩
    · have hkept := h.kept hfull hprev (by omega)
      rwa [show prepared.retention.history - 1 = left by omega] at hkept
  have hchainOk : ChainOk codec next.objects prepared.namespaceName (left + 1)
      (codec.generationDigest gen) := by
    refine ⟨hrec, ?_⟩
    intro prev hprev
    exact (hrest prev (hpred.symm.trans hprev)).1
  unfold keptChain candidateBytes
  rw [show prepared.retention.history - 1 = left by omega]
  cases hprev : prepared.expectedHead with
  | none =>
    rw [hprev] at hpred hvisit
    have hchain : chain next.objects (left + 1) (codec.generationDigest gen) =
        [codec.generationDigest gen] := by
      simp [chain, hpred]
    refine ⟨⟨⟨gen, h.loads⟩, hbound ▸ hchainOk, ?_⟩, ?_, ?_⟩
    · rw [headChain, hbound, hchain]
      exact nodup_singleton _
    · rw [headChain, hbound, hchain]
      rfl
    · rw [headBytes, hbound, chainBytes, hpred, hvisit]
      rfl
  | some prev =>
    rw [hprev] at hpred hvisit
    obtain ⟨-, hnodup⟩ := hrest prev hprev
    have hagree := h.kept_agree hnodup
    have hchain : chain next.objects (left + 1) (codec.generationDigest gen) =
        codec.generationDigest gen :: chain next.objects left prev :=
      chain_predecessor hpred
    refine ⟨⟨⟨gen, h.loads⟩, hbound ▸ hchainOk, ?_⟩, ?_, ?_⟩
    · rw [headChain, hbound, hchain]
      exact hnodup
    · rw [headChain, hbound, hchain, length_cons, ← chain_congr hagree, Nat.add_comm]
    · have hbytes :=
        (@chainOk_congr codec next.objects state.objects prepared.namespaceName _ _ hagree).1
      have hone : (prepared.retention.history = 1) ↔ left = 0 := by omega
      rw [headBytes, hbound, chainBytes, hpred, hvisit]
      simp only [hone, hbytes]
      omega

end

/-- **One commit** leaves a fully valid catalog exactly when the new chain fits. -/
theorem Commits.fullyValid_iff (hfull : FullyValid codec state)
    (h : Commits codec state prepared next) :
    FullyValid codec next ↔ LineageFits codec state prepared := by
  have hvalid := validateCatalogLineages_full_iff.1 hfull
  obtain ⟨hheads, hcount, hbytes, hsel⟩ := hvalid
  rcases h.accepted with ⟨hremoval, rfl⟩ | ⟨hremoval, gen, haccepted⟩
  · -- fewer heads: every total decreases
    refine ⟨fun _ => .inl hremoval, fun _ => validateCatalogLineages_full_iff.2 ⟨?_, ?_, ?_, ?_⟩⟩
    · intro head hhead
      exact hheads head (mem_of_mem_filter hhead)
    · exact (sum_filter_le _ _ _).trans hcount
    · exact (sum_filter_le _ _ _).trans hbytes
    · exact (sum_filter_le _ _ _).trans hsel
  · obtain ⟨hnew, hlength, hcost⟩ := haccepted.headOk hfull
    have hother : ∀ head ∈ state.catalog.heads, HeadOk codec next.objects head ∧
        headChain next.objects head = headChain state.objects head ∧
        headBytes codec next.objects head = headBytes codec state.objects head ∧
        recordBytes codec next.objects head.generation =
          recordBytes codec state.objects head.generation := by
      intro head hhead
      have hok := hheads head hhead
      exact hok.agree (haccepted.publishes.agreeOn hok.chain)
    have hperm := @upsert_perm prepared.namespaceName (codec.generationDigest gen) _
      state.catalog.sorted
    rw [← haccepted.heads] at hperm
    have hmem : ∀ head ∈ state.catalog.heads.filter (·.namespaceName ≠ prepared.namespaceName),
        head ∈ state.catalog.heads := fun head hhead => mem_of_mem_filter hhead
    have hcounts : lineageCount next.objects next.catalog.heads =
        1 + (keptChain state prepared).length + lineageCount state.objects
          (state.catalog.heads.filter (·.namespaceName ≠ prepared.namespaceName)) := by
      rw [lineageCount, (hperm.map _).sum_nat, map_cons, sum_cons, hlength, lineageCount]
      congr 2
      exact map_congr_left fun head hhead => by rw [(hother head (hmem head hhead)).2.1]
    have hsizes : lineageBytes codec next.objects next.catalog.heads =
        candidateBytes codec state prepared + lineageBytes codec state.objects
          (state.catalog.heads.filter (·.namespaceName ≠ prepared.namespaceName)) := by
      rw [lineageBytes, (hperm.map _).sum_nat, map_cons, sum_cons, hcost, lineageBytes]
      congr 2
      exact map_congr_left fun head hhead => (hother head (hmem head hhead)).2.2.1
    have hall : ∀ head ∈ next.catalog.heads, HeadOk codec next.objects head := by
      intro head hhead
      rcases mem_cons.1 (hperm.mem_iff.1 hhead) with rfl | hhead
      · exact hnew
      · exact (hother head (hmem head hhead)).1
    have hroutine := (validateCatalogLineages_routine_ok haccepted.publishes haccepted.routine).1
    unfold FullyValid LineageFits
    rw [validateCatalogLineages_full_iff, hcounts, hsizes, hremoval]
    constructor
    · rintro ⟨-, hcount', hbytes', -⟩
      exact .inr ⟨hcount', hbytes'⟩
    · rintro (hcontra | ⟨hcount', hbytes'⟩)
      · cases hcontra
      · exact ⟨hall, hcount', hbytes', hroutine⟩

end Step

/-! ## 4. Runs -/

/-- Commits that fit. Between them objects may change, but not the chains of the heads and their
plans. -/
inductive LineageRun (codec : ObjectCodec) : StoreState → StoreState → Prop
  | refl (state : StoreState) : LineageRun codec state state
  | commit {first state next : StoreState} (before : LineageRun codec first state)
      (prepared : PreparedRecord) (accepted : Commits codec state prepared next)
      (fits : LineageFits codec state prepared) : LineageRun codec first next
  | objects {first state : StoreState} (before : LineageRun codec first state)
      (objects : ObjectStore)
      (keeps : ∀ head ∈ state.catalog.heads,
        AgreeOn state.objects objects (headChain state.objects head)) :
      LineageRun codec first ⟨objects, state.catalog⟩

theorem FullyValid.objects {state : StoreState} (h : FullyValid codec state)
    {objects : ObjectStore} (keeps : ∀ head ∈ state.catalog.heads,
      AgreeOn state.objects objects (headChain state.objects head)) :
    FullyValid codec ⟨objects, state.catalog⟩ := by
  obtain ⟨hheads, hcount, hbytes, hsel⟩ := validateCatalogLineages_full_iff.1 h
  have hagree : ∀ head ∈ state.catalog.heads, _ :=
    fun head hhead => (hheads head hhead).agree (keeps head hhead)
  refine validateCatalogLineages_full_iff.2 ⟨fun head hhead => (hagree head hhead).1, ?_, ?_, ?_⟩
  · refine (congrArg List.sum (map_congr_left fun head hhead => ?_)).trans_le hcount
    rw [(hagree head hhead).2.1]
  · refine (congrArg List.sum (map_congr_left fun head hhead => ?_)).trans_le hbytes
    exact (hagree head hhead).2.2.1
  · refine (congrArg List.sum (map_congr_left fun head hhead => ?_)).trans_le hsel
    exact (hagree head hhead).2.2.2

theorem LineageRun.fullyValid {first last : StoreState} (h : LineageRun codec first last)
    (hfirst : FullyValid codec first) : FullyValid codec last := by
  induction h with
  | refl => exact hfirst
  | commit before prepared accepted fits ih => exact (accepted.fullyValid_iff ih).2 fits
  | objects before objects keeps ih => exact ih.objects keeps

/-- **Lineage budgets over commits and runs.** A commit to a fully valid catalog leaves one
exactly when the chains fit, and runs of such commits stay among them. -/
theorem lineage_budgets_preserved_iff_fits :
    (∀ state prepared next, FullyValid codec state → Commits codec state prepared next →
      (FullyValid codec next ↔ LineageFits codec state prepared)) ∧
    ∀ first last, FullyValid codec first → LineageRun codec first last →
      FullyValid codec last :=
  ⟨fun _ _ _ hfull h => h.fullyValid_iff hfull, fun _ _ hfirst h => h.fullyValid hfirst⟩

/-- The second plan of namespace `w`. -/
def nextPlan : PreparedRecord := { samplePlan ['w'] 2 with expectedHead := some ⟨101⟩ }

def plannedState : StoreState := ⟨sampleObjects [samplePlan ['w'] 1, nextPlan], .empty⟩

/-- A first commit fits, and so does its successor. -/
theorem lineage_budgets_preserved_iff_fits_sample :
    ∃ middle next, Commits sampleCodec plannedState (samplePlan ['w'] 1) middle ∧
      Commits sampleCodec middle nextPlan next ∧ FullyValid sampleCodec middle ∧
        LineageFits sampleCodec middle nextPlan ∧ FullyValid sampleCodec next := by
  have hcheck : okAnd (commitStore sampleCodec sampleMachine plannedState (sampleRequest 1))
      (fun first => first.1 = samplePlan ['w'] 1 &&
        okAnd (commitStore sampleCodec sampleMachine first.2 (sampleRequest 2)) fun second =>
          second.1 = nextPlan && okAnd (validateCatalogLineages sampleCodec second.2.objects none
            .full second.2.catalog) fun _ => true) = true := by
    decide +kernel
  obtain ⟨⟨plan, middle⟩, hfirst, hrest⟩ := okAnd_iff.1 hcheck
  simp only [Bool.and_eq_true, decide_eq_true_eq] at hrest
  obtain ⟨rfl, hrest⟩ := hrest
  obtain ⟨⟨plan, next⟩, hsecond, hrest⟩ := okAnd_iff.1 hrest
  simp only [Bool.and_eq_true, decide_eq_true_eq] at hrest
  obtain ⟨rfl, hrest⟩ := hrest
  obtain ⟨⟨⟩, hnext, -⟩ := okAnd_iff.1 hrest
  have hfits : LineageFits sampleCodec plannedState (samplePlan ['w'] 1) := by
    unfold LineageFits
    decide +kernel
  have hmiddle : Commits sampleCodec plannedState (samplePlan ['w'] 1) middle :=
    ⟨sampleMachine, sampleRequest 1, hfirst⟩
  have hcommits : Commits sampleCodec middle nextPlan next :=
    ⟨sampleMachine, sampleRequest 2, hsecond⟩
  have hstart : FullyValid sampleCodec plannedState := rfl
  have hvalid := (lineage_budgets_preserved_iff_fits.1 _ _ _ hstart hmiddle).2 hfits
  exact ⟨middle, next, hmiddle, hcommits, hvalid,
    (lineage_budgets_preserved_iff_fits.1 _ _ _ hvalid hcommits).1 hnext, hnext⟩

/-! ## 5. A commit that does not fit -/

/-- The longest history of a namespace: plan `k` follows plan `k + 1`. -/
def longPlan (k : Nat) : PreparedRecord :=
  { samplePlan ['a'] k with
    expectedHead := if k = maxSelectedGenerationLineage then none else some ⟨100 + (k + 1)⟩
    retention := ⟨maxHistoryRetentionGenerations, [], []⟩ }

def longGeneration (k : Nat) : StateGeneration :=
  generationOf ⟨k⟩ (longPlan k).expectedHead (longPlan k)

def rangeMap {κ α : Type} [LinearOrder κ] (key : Nat → κ)
    (increasing : ∀ left right, left < right → key left < key right) (value : Nat → α)
    (start count : Nat) : SortedMap κ α where
  entries := (List.range' start count).map fun k => (key k, value k)
  sorted := by
    rw [List.map_map, List.pairwise_map]
    exact (List.pairwise_lt_range' 1).imp fun {left right} h => increasing left right h

theorem get?_rangeMap {κ α : Type} [LinearOrder κ] {key : Nat → κ}
    {increasing : ∀ left right, left < right → key left < key right} {v : Nat → α}
    {start count : Nat} (hstart : start ≤ k) (hend : k < start + count) :
    (rangeMap key increasing v start count).get? (key k) = some (v k) := by
  rw [SortedMap.get?_eq_some]
  refine mem_map.2 ⟨k, ?_, rfl⟩
  rw [List.mem_range'_1]
  exact ⟨hstart, hend⟩

/-- A full history of one namespace, and the first plan of another. -/
def longState : StoreState where
  objects := { ObjectStore.empty with
    generations := rangeMap (fun k => ⟨100 + k⟩) (fun _ _ h => Nat.add_lt_add_left h 100)
      (fun k => publishedFile (.canonical (longGeneration k))) 1 maxSelectedGenerationLineage
    prepared := rangeMap (fun k => ⟨k⟩) (fun _ _ h => h)
      (fun k => publishedFile (.canonical (if k = 0 then samplePlan ['b'] 0 else longPlan k)))
      0 (maxSelectedGenerationLineage + 1) }
  catalog := ⟨[⟨['a'], ⟨101⟩⟩], List.pairwise_singleton _ _, by decide⟩

theorem longState_generation (hpos : 1 ≤ k) (hle : k ≤ maxSelectedGenerationLineage) :
    loadGeneration sampleCodec longState.objects ⟨100 + k⟩ = .ok (longGeneration k) := by
  have hsize : sampleCodec.generationBytes (longGeneration k) = 10 := rfl
  refine loadGeneration_of_file ?_ (by rw [hsize]; decide) rfl rfl
  unfold longState
  dsimp only
  rw [get?_rangeMap hpos (by omega)]
  rfl

theorem longPlan_decoded (k : Nat) : validateDecoded sampleCodec.toCodec (longPlan k) = .ok () := by
  unfold validateDecoded
  simp only [bind_ok, exists_unit, reject_ok, not_not]
  exact ⟨none, rfl, rfl, .empty, rfl, _, rfl, _, rfl, rfl, rfl⟩

theorem longState_plan (hpos : 1 ≤ k) (hle : k ≤ maxSelectedGenerationLineage) :
    loadPrepared sampleCodec longState.objects ⟨k⟩ = .ok (longPlan k) := by
  have hfile : longState.objects.prepared.get? ⟨k⟩ =
      some ⟨true, true, true, .canonical (longPlan k)⟩ := by
    unfold longState
    dsimp only
    rw [get?_rangeMap (Nat.zero_le k) (by omega), if_neg (by omega)]
    rfl
  have hread : readImmutable (Encoded.byteLen sampleCodec.preparedBytes) maxPreparedRecordBytes
      (longState.objects.prepared.get? ⟨k⟩) = .ok (some (.canonical (longPlan k))) := by
    rw [hfile]
    rfl
  have hid : sampleCodec.preparedId (longPlan k) = ⟨k⟩ := rfl
  unfold loadPrepared loadPreparedWithEncodedLen
  simp only [hread, ok_bind, require, decodePreparedRecord, hid, ne_eq, not_true,
    if_false, longPlan_decoded, pure_eq]

theorem longPlan_floor : fromRetainedPrepared sampleCodec.toCodec
    ⟨maxSelectedGenerationLineage⟩ none (longPlan maxSelectedGenerationLineage) =
      .ok (longGeneration maxSelectedGenerationLineage) := by
  decide +kernel

theorem longPlan_publishes (hlt : k < maxSelectedGenerationLineage) :
    fromPrepared sampleCodec.toCodec ⟨k⟩ (some ⟨100 + (k + 1)⟩) (some (longGeneration (k + 1)))
      (longPlan k) = .ok (longGeneration k) := by
  have hhead : (longPlan k).expectedHead = some ⟨100 + (k + 1)⟩ := by
    simp [longPlan, hlt.ne]
  unfold fromPrepared validatePreparedTransition validatePredecessor
  simp only [bind_ok, exists_unit, reject_ok, not_not, hhead]
  have hsize : sampleCodec.generationBytes
      (generationOf ⟨k⟩ (some ⟨100 + (k + 1)⟩) (longPlan k)) = 10 := rfl
  refine ⟨rfl, trivial, rfl, ?_, ?_, ⟨⟨rfl, rfl, rfl⟩, rfl, rfl, rfl, rfl, rfl, rfl, rfl⟩, ?_, ?_,
    ?_⟩
  · simp [sampleCodec, longGeneration, generationOf]
  · simp [longGeneration, generationOf, longPlan, samplePlan]
  · simp [longPlan, samplePlan, PreparedTransition.isNamespaceRemoval]
  · rw [hsize]
    decide
  · rw [longGeneration, hhead]
    rfl

theorem longState_predecessor (hpos : 1 ≤ k) (hlt : k < maxSelectedGenerationLineage) :
    predecessor longState.objects ⟨100 + k⟩ = some ⟨100 + (k + 1)⟩ := by
  rw [predecessor_of_load (longState_generation hpos hlt.le)]
  simp [longGeneration, generationOf, longPlan, hlt.ne]

theorem longState_visitBytes (hpos : 1 ≤ k) (hle : k ≤ maxSelectedGenerationLineage)
    (retainedFloor : Bool) :
    visitBytes sampleCodec longState.objects retainedFloor ⟨100 + k⟩ ≤ 30 := by
  have hplan : planBytes sampleCodec longState.objects (longGeneration k).planId = 10 :=
    planBytes_of_load (longState_plan hpos hle)
  have hrec : ∀ d, recordBytes sampleCodec longState.objects d ≤ 10 := by
    intro d
    unfold recordBytes
    split
    · exact Nat.le_refl 10
    · exact Nat.zero_le 10
  rw [visitBytes_of_load (longState_generation hpos hle), transitionBytes, hplan]
  have hprev : ((loadedPredecessor retainedFloor (longGeneration k)).map
      (recordBytes sampleCodec longState.objects)).getD 0 ≤ 10 := by
    cases loadedPredecessor retainedFloor (longGeneration k) with
    | none => exact Nat.zero_le 10
    | some d => exact hrec d
  change 10 + (10 + _) ≤ 30
  omega

theorem longState_chain : ∀ {left k : Nat}, 1 ≤ k → k + left = maxSelectedGenerationLineage →
    ChainOk sampleCodec longState.objects ['a'] (left + 1) ⟨100 + k⟩ ∧
      chain longState.objects (left + 1) ⟨100 + k⟩ =
        (range' k (left + 1)).map (fun k => ⟨100 + k⟩) ∧
      chainBytes sampleCodec longState.objects (left + 1) ⟨100 + k⟩ ≤ 30 * (left + 1) := by
  intro left
  induction left with
  | zero =>
    intro k hpos hk
    obtain rfl : k = maxSelectedGenerationLineage := by omega
    have hload := longState_generation hpos (Nat.le_refl _)
    have hnone : predecessor longState.objects ⟨100 + maxSelectedGenerationLineage⟩ = none := by
      rw [predecessor_of_load hload]
      rfl
    refine ⟨⟨⟨_, hload, rfl, _, longState_plan hpos (Nat.le_refl _), longPlan_floor⟩, ?_⟩, ?_, ?_⟩
    · intro prev _
      trivial
    · rw [chain, hnone]
      rfl
    · -- the visit is bounded as it stands: comparing it up to unfolding would search the history
      rw [chainBytes, hnone]
      refine (Nat.add_le_add_right (longState_visitBytes hpos (Nat.le_refl _) _) _).trans ?_
      exact Nat.le_refl 30
  | succ left ih =>
    intro k hpos hk
    have hlt : k < maxSelectedGenerationLineage := by omega
    obtain ⟨hchain, hlist, hbytes⟩ := ih (k := k + 1) (by omega) (by omega)
    have hsome := longState_predecessor hpos hlt
    have hload := longState_generation hpos hlt.le
    refine ⟨⟨⟨_, hload, rfl, _, longState_plan hpos hlt.le, ?_⟩, ?_⟩, ?_, ?_⟩
    · rw [if_neg (by simp), ← predecessor_of_load hload, hsome]
      exact ⟨_, ⟨_, rfl, longState_generation (by omega) (by omega)⟩, longPlan_publishes hlt⟩
    · intro prev hprev
      rw [hsome] at hprev
      cases hprev
      exact hchain
    · rw [chain_predecessor hsome, hlist]
      rfl
    · have hvisit := longState_visitBytes hpos hlt.le (decide (left + 1 = 0))
      rw [chainBytes, hsome]
      dsimp only
      omega

theorem longState_head : HeadOk sampleCodec longState.objects ⟨['a'], ⟨101⟩⟩ ∧
    (headChain longState.objects ⟨['a'], ⟨101⟩⟩).length = maxSelectedGenerationLineage ∧
    headBytes sampleCodec longState.objects ⟨['a'], ⟨101⟩⟩ ≤
      30 * maxSelectedGenerationLineage := by
  have hload := longState_generation (Nat.le_refl 1) (by decide)
  have hbound : historyBound longState.objects ⟨100 + 1⟩ =
      maxSelectedGenerationLineage - 1 + 1 := historyBound_of_load hload
  obtain ⟨hchain, hlist, hbytes⟩ :=
    @longState_chain (maxSelectedGenerationLineage - 1) 1 (Nat.le_refl 1) (by decide)
  rw [← hbound] at hchain hlist hbytes
  refine ⟨⟨⟨_, hload⟩, hchain, ?_⟩, ?_, ?_⟩
  · rw [headChain, hlist]
    refine List.Nodup.map ?_ nodup_range'
    intro left right hsame
    simpa using hsame
  · rw [headChain, hlist, length_map, length_range', hbound]
    decide
  · rw [hbound] at hbytes
    exact hbytes

theorem longState_heads : longState.catalog.heads = [⟨['a'], ⟨101⟩⟩] := rfl

theorem longState_fullyValid : FullyValid sampleCodec longState := by
  obtain ⟨hhead, hlength, hbytes⟩ := longState_head
  refine validateCatalogLineages_full_iff.2 ⟨?_, ?_, ?_, ?_⟩
  · intro head hmem
    rw [longState_heads, mem_singleton] at hmem
    exact hmem ▸ hhead
  · rw [longState_heads, lineageCount_cons, hlength]
    exact Nat.le_refl _
  · have hlimit : 30 * maxSelectedGenerationLineage ≤ maxLineageValidationBytes := by decide
    have hrest : lineageBytes sampleCodec longState.objects [] = 0 := rfl
    rw [longState_heads, lineageBytes_cons, hrest, Nat.add_zero]
    exact hbytes.trans hlimit
  · have hrec : recordBytes sampleCodec longState.objects ⟨101⟩ = 10 :=
      recordBytes_of_load (longState_generation (Nat.le_refl 1) (by decide))
    rw [longState_heads, selectedHeadBytes_cons, hrec]
    decide

theorem publishGenerationAndCatalog_fresh {codec : ObjectCodec} {state : StoreState}
    {tr : OwnedTransition} {d : Digest} {gen : StateGeneration}
    (hdigest : tr.generationDigest = some d)
    (hgen : tr.generation = some gen)
    (hsize : codec.generationBytes gen ≤ maxStateRecordBytes)
    (habsent : state.objects.generations.get? d = none) :
    ∃ next, publishGenerationAndCatalog codec state tr = .ok next := by
  unfold publishGenerationAndCatalog
  rw [hgen, hdigest]
  simp only [reject, if_neg (not_lt.2 hsize), publishImmutable, habsent, readImmutable, ok_bind]
  exact ⟨_, rfl⟩

theorem longState_commits : ∃ next, Commits sampleCodec longState (samplePlan ['b'] 0) next := by
  have hcheck : okAnd
      (admitCommit sampleCodec sampleMachine longState (sampleRequest 0)) (fun r =>
        r.1 = samplePlan ['b'] 0 &&
          r.2.generation = some (generationOf ⟨0⟩ none (samplePlan ['b'] 0)) &&
          r.2.generationDigest = some ⟨100⟩) = true := by
    decide +kernel
  obtain ⟨⟨plan, tr⟩, hadm, hres⟩ := okAnd_iff.1 hcheck
  simp only [Bool.and_eq_true, decide_eq_true_eq] at hres
  obtain ⟨⟨rfl, hgen⟩, hdigest⟩ := hres
  have habsent : longState.objects.generations.get? ⟨100⟩ = none := by
    rw [SortedMap.get?_eq_none]
    intro hmem
    obtain ⟨e, hentry, hkey⟩ := mem_map.1 hmem
    obtain ⟨k, hk, rfl⟩ := mem_map.1 hentry
    rw [List.mem_range'_1] at hk
    have hvalue : 100 + k = 100 := congrArg Digest.value hkey
    omega
  have hpublish := @publishGenerationAndCatalog_fresh sampleCodec longState tr _ _ hdigest
    hgen (by decide) habsent
  obtain ⟨next, hnext⟩ := hpublish
  refine ⟨next, sampleMachine, sampleRequest 0, ?_⟩
  unfold commitStore
  rw [hadm, ok_bind]
  dsimp only
  rw [hnext]
  rfl

/-- **A commit that full validation rejects**, beside a namespace of as many generations as it
admits. -/
theorem accepted_commit_exceeds_lineage :
    ∃ (codec : ObjectCodec) (state next : StoreState) (prepared : PreparedRecord),
      FullyValid codec state ∧ Commits codec state prepared next ∧ ¬ FullyValid codec next := by
  obtain ⟨next, hcommits⟩ := longState_commits
  refine ⟨sampleCodec, longState, next, samplePlan ['b'] 0, longState_fullyValid, hcommits, ?_⟩
  rw [hcommits.fullyValid_iff longState_fullyValid]
  rintro (hremoval | ⟨hcount, -⟩)
  · cases hremoval
  · obtain ⟨-, hlength, -⟩ := longState_head
    have hothers : longState.catalog.heads.filter
        (·.namespaceName ≠ (samplePlan ['b'] 0).namespaceName) = [⟨['a'], ⟨101⟩⟩] := by
      decide
    rw [hothers, lineageCount_cons, hlength] at hcount
    omega

end Malm.Commit
