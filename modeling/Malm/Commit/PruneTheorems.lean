/-
Malm.Commit.PruneTheorems — a prune never removes retained state, and
repeated sweeps come to rest.

The first part is the closure theorem of `RetentionTheorems` carried over to
the store that the removals leave. For the second part the number of stored
entries decreases with every sweep that removes something.
-/
import Malm.Commit.RetentionTheorems

namespace Malm.Commit

open Store List Checks ObjectStore

variable {codec : ObjectCodec} {machine : Machine}

/-! ## 1. Sweeps come to rest -/

def ObjectStore.size (store : ObjectStore) : Nat :=
  store.generations.entries.length + store.prepared.entries.length +
    store.blobs.entries.length + store.packs.entries.length +
    store.packManifests.entries.length + store.files.entries.length +
    store.symlinks.entries.length + store.trees.entries.length

theorem erase_eq_or_lt {κ α : Type} [LinearOrder κ] (map : SortedMap κ α) (key : κ) :
    map.erase key = map ∨ (map.erase key).entries.length < map.entries.length := by
  have hle : (map.erase key).entries.length ≤ map.entries.length := length_filter_le _ _
  rcases Nat.lt_or_eq_of_le hle with hlt | heq
  · exact .inr hlt
  · refine .inl ?_
    have hsame : (map.erase key).entries = map.entries := filter_sublist.eq_of_length heq
    cases map with
    | mk es sorted => exact (SortedMap.mk.injEq _ _ _ _).mpr hsame

theorem unlink_eq_or_lt (store : ObjectStore) (e : StoreEntry) :
    store.unlink e = store ∨ (store.unlink e).size < store.size := by
  cases e
  case' generation d => have h := erase_eq_or_lt store.generations d
  case' plan planId => have h := erase_eq_or_lt store.prepared planId
  case' blob d => have h := erase_eq_or_lt store.blobs d
  case' pack d => have h := erase_eq_or_lt store.packs d
  case' packManifest d => have h := erase_eq_or_lt store.packManifests d
  case' tree d => have h := erase_eq_or_lt store.trees d
  case' symlink d => have h := erase_eq_or_lt store.symlinks d
  case' file d => have h := erase_eq_or_lt store.files d
  all_goals
    rcases h with h | h
    · exact .inl (by rw [unlink, h])
    · exact .inr (by simp only [unlink, size]; omega)

theorem unlinkAll_eq_or_lt : ∀ (entries : List StoreEntry) (store : ObjectStore),
    store.unlinkAll entries = store ∨ (store.unlinkAll entries).size < store.size
  | [], store => .inl rfl
  | e :: entries, store => by
    have hcons : store.unlinkAll (e :: entries) = (store.unlink e).unlinkAll entries := rfl
    rw [hcons]
    rcases unlink_eq_or_lt store e with hfirst | hfirst
    · rw [hfirst]
      exact unlinkAll_eq_or_lt entries store
    · rcases unlinkAll_eq_or_lt entries (store.unlink e) with hrest | hrest
      · rw [hrest]
        exact .inr hfirst
      · exact .inr (hrest.trans hfirst)

theorem attemptPrune_eq (s : StoreState) (req : PruneRequest) :
    attemptPrune codec machine s req = s ∨ ∃ plan, planPrune codec machine s req = .ok plan ∧
      ∃ entries ⊆ removals s.objects plan,
        attemptPrune codec machine s req = ⟨s.objects.unlinkAll entries, s.catalog⟩ := by
  unfold attemptPrune
  split
  · rename_i plan hplan
    obtain ⟨count, hcount⟩ := @removeUntilFailure_take codec (removals s.objects plan) s.objects
    exact .inr ⟨plan, hplan, _, take_subset _ _, by rw [hcount]⟩
  · exact .inl rfl

/-- A prune that changes the store leaves fewer entries, also when it fails on the way. -/
theorem attemptPrune_eq_or_lt (s : StoreState) (req : PruneRequest) :
    attemptPrune codec machine s req = s ∨
      (attemptPrune codec machine s req).objects.size < s.objects.size := by
  rcases @attemptPrune_eq codec machine s req with hsame | ⟨-, -, es, -, heq⟩
  · exact .inl hsame
  · rw [heq]
    rcases unlinkAll_eq_or_lt es s.objects with h | h
    · exact .inl (by rw [h])
    · exact .inr h

theorem attemptPrune_rests (req : PruneRequest) : ∀ (size : Nat) (s : StoreState),
    s.objects.size ≤ size →
      ∃ runs, attemptPrune codec machine
          ((fun cur => attemptPrune codec machine cur req)^[runs] s) req =
        (fun cur => attemptPrune codec machine cur req)^[runs] s
  | size, s, hsize => by
    rcases @attemptPrune_eq_or_lt codec machine s req with hsame | hlt
    · exact ⟨0, hsame⟩
    · match size with
      | 0 => omega
      | size + 1 =>
        obtain ⟨runs, hruns⟩ := attemptPrune_rests req size
          (attemptPrune codec machine s req) (by omega)
        exact ⟨runs + 1, hruns⟩

theorem pruneStore_same {state next : StoreState} {req : PruneRequest} {entry : StoreEntry}
    (h : pruneStore codec machine state req = .ok next)
    (hretains : Retains codec state.objects (PruneRoot codec state req)
      (Unswept codec state.objects req) entry) : SameEntry state.objects next.objects entry := by
  obtain ⟨plan, hplan, rfl⟩ := pruneStore_ok h
  exact unlinkAll_same (planPrune_keeps hplan hretains)

/-- **A prune never removes retained state**: what the heads, the restore points and the pins
reach. Repeating the request, which may also fail, reaches a store that it leaves as it is. -/
theorem prune_keeps_retained {state next : StoreState} {request : PruneRequest}
    (h : pruneStore codec machine state request = .ok next) :
    (∀ entry, Retains codec state.objects (PruneRoot codec state request)
        (Unswept codec state.objects request) entry →
      SameEntry state.objects next.objects entry) ∧
    ∃ runs, attemptPrune codec machine
        ((fun current => attemptPrune codec machine current request)^[runs] next) request =
      (fun current => attemptPrune codec machine current request)^[runs] next :=
  ⟨fun _ hretains => pruneStore_same h hretains,
    attemptPrune_rests request next.objects.size next (Nat.le_refl _)⟩

def sampleCatalog : StateCatalog := ⟨[⟨['w'], ⟨101⟩⟩], List.pairwise_singleton _ _, by decide⟩

/-- One head with its plan and blob, and a plan that nothing refers to. -/
def sweepState : StoreState where
  objects := { sampleObjects [sampleFilePlan ['w'] ['f'] 1, samplePlan ['x'] 2] with
    generations := SortedMap.empty.insert ⟨101⟩
      (publishedFile (.canonical (generationOf ⟨1⟩ none (sampleFilePlan ['w'] ['f'] 1)))) }
  catalog := sampleCatalog

theorem sweepState_head : loadGeneration sampleCodec sweepState.objects ⟨101⟩ =
    .ok (generationOf ⟨1⟩ none (sampleFilePlan ['w'] ['f'] 1)) := by
  decide +kernel

/-- The sweep removes the plan that nothing refers to and keeps the placed file. -/
theorem prune_keeps_retained_sample :
    ∃ next, pruneStore sampleCodec sampleMachine sweepState .sweep = .ok next ∧
      next.objects.prepared.keys = [⟨1⟩] ∧
      SameEntry sweepState.objects next.objects (.blob ⟨5⟩) := by
  have hcheck : okAnd (pruneStore sampleCodec sampleMachine sweepState .sweep)
      (fun next => next.objects.prepared.keys = [⟨1⟩]) = true := by
    decide +kernel
  obtain ⟨next, hprune, hkeys⟩ := okAnd_iff.1 hcheck
  refine ⟨next, hprune, of_decide_eq_true hkeys, (prune_keeps_retained hprune).1 _ ?_⟩
  have hroot : PruneRoot sampleCodec sweepState .sweep (.generation ⟨101⟩ RetentionAuthority.default.history) :=
    .inl ⟨⟨['w'], ⟨101⟩⟩, mem_singleton_self _, _, sweepState_head, .inl rfl⟩
  exact @Retains.generationFile _ _ _ _ ⟨101⟩ _ (⟨5⟩, 3)
    (.lineage hroot mem_cons_self) sweepState_head (by decide)

/-! ## 2. A prune is a step of the store -/

/-- A prune, complete or not, keeps every generation that a head or a restore point selects. -/
theorem attemptPrune_keeps {state : StoreState} {request : PruneRequest} {digest : Digest}
    (h : state.Selects digest) :
    (attemptPrune codec machine state request).objects.generations.get? digest =
      state.objects.generations.get? digest := by
  rcases @attemptPrune_eq codec machine state request with hsame | ⟨plan, hplan, es, hsubset, heq⟩
  · rw [hsame]
  · rw [heq]
    by_cases habsent : state.objects.generations.get? digest = none
    · have hlacks : (state.objects.unlinkAll es).Lacks (.generation digest) :=
        unlinkAll_lacks (.inl habsent)
      rw [habsent]
      exact hlacks
    · have hretains : Retains codec state.objects (PruneRoot codec state request)
          (Unswept codec state.objects request) (.generation digest) := by
        obtain ⟨⟨loaded, hloaded, -⟩, -⟩ := planPrune_ok hplan
        have hloads : ∀ d, state.objects.generations.get? d ≠ none →
            ∃ gen, loadGeneration codec state.objects d = .ok gen := by
          intro d hstored
          have hkey := SortedMap.mem_keys.2 (Option.ne_none_iff_exists'.1 hstored)
          obtain ⟨gen, hget⟩ := SortedMap.mem_keys.1 ((hloaded.generationKeys d).2 hkey)
          exact ⟨gen, (hloaded.generations d gen).1 hget⟩
        rcases h with ⟨head, hhead, rfl⟩ | ⟨e, hentry, point, hpoint, rfl⟩
        · obtain ⟨gen, hload⟩ := hloads _ habsent
          exact .head hload (.inl ⟨head, hhead, gen, hload, .inl rfl⟩)
        · obtain ⟨head, hhead, -, hrecord⟩ := mem_selected.1 hentry
          obtain ⟨file, hfile⟩ := file_of_record hrecord
          obtain ⟨gen, hload⟩ := hloads head.generation (by simp [hfile])
          obtain rfl : gen = e.2 :=
            Option.some.inj ((loadGeneration_ok hload).record.symm.trans hrecord)
          have hroot : Root.generation point.generation 1 ∈
              recordRoots e.2.restorePoint e.2.retention := by
            simp only [recordRoots, mem_append, mem_map]
            exact .inl ⟨point, .inr hpoint, rfl⟩
          exact .lineage (.inl ⟨head, hhead, e.2, hload, .inr hroot⟩)
            (self_mem_chain state.objects 0 _)
      have hkept : SameEntry state.objects (state.objects.unlinkAll es) (.generation digest) :=
        unlinkAll_same fun hmem => planPrune_keeps hplan hretains (hsubset hmem)
      exact hkept

theorem attemptPrune_catalog (state : StoreState) (request : PruneRequest) :
    (attemptPrune codec machine state request).catalog = state.catalog := by
  unfold attemptPrune
  split <;> rfl

theorem attemptPrune_selected (state : StoreState) (request : PruneRequest) :
    (attemptPrune codec machine state request).selected = state.selected := by
  unfold StoreState.selected
  rw [attemptPrune_catalog]
  refine filterMap_congr fun head hhead => ?_
  rw [record_of_get? (attemptPrune_keeps (.inl ⟨head, hhead, rfl⟩))]

theorem attemptPrune_step (state : StoreState) (request : PruneRequest) :
    StoreStep codec state (attemptPrune codec machine state request) := by
  have hstep : StoreStep codec state
      ⟨(attemptPrune codec machine state request).objects, state.catalog⟩ := by
    refine .environment _ (fun _ h => attemptPrune_keeps h) fun digest file hfile => ?_
    rcases @attemptPrune_eq codec machine state request with hsame | ⟨plan, -, es, -, heq⟩
    · rwa [hsame] at hfile
    · rw [heq] at hfile
      by_cases hmem : .generation digest ∈ es
      · have hlacks : (state.objects.unlinkAll es).Lacks (.generation digest) :=
          unlinkAll_lacks (.inr hmem)
        rw [hlacks] at hfile
        cases hfile
      · have hkept : SameEntry state.objects (state.objects.unlinkAll es) (.generation digest) :=
          unlinkAll_same hmem
        exact Eq.trans (Eq.symm hkept) hfile
  rwa [← @attemptPrune_catalog codec machine state request] at hstep

/-- **Prunes between commits.** From a reachable store any prunes, complete or interrupted, lead to
a reachable store that selects the same generations. -/
theorem prunes_reachable {state : StoreState} (h : Reachable codec state)
    (attempts : List (Machine × PruneRequest)) :
    Reachable codec (attempts.foldl
        (fun current attempt => attemptPrune codec attempt.1 current attempt.2) state) ∧
      (attempts.foldl (fun current attempt => attemptPrune codec attempt.1 current attempt.2)
        state).selected = state.selected := by
  induction attempts generalizing state with
  | nil => exact ⟨h, rfl⟩
  | cons attempt rest ih =>
    obtain ⟨hreachable, hselected⟩ := ih (.step h (attemptPrune_step state attempt.2))
    exact ⟨hreachable, hselected.trans (attemptPrune_selected state attempt.2)⟩

/-- A sweep and a prune that names a plan, after the commit of a file. -/
theorem prunes_reachable_sample :
    ∃ state, (presentClaims state.selected).map OwnershipClaim.namespaceName = [['w']] ∧
      Reachable sampleCodec (attemptPrune sampleCodec sampleMachine state .sweep) := by
  have hcheck : okAnd (commitStore sampleCodec sampleMachine
      ⟨sampleObjects [sampleFilePlan ['w'] ['f'] 1, samplePlan ['x'] 2], .empty⟩ (sampleRequest 1))
      (fun first => (presentClaims first.2.selected).map OwnershipClaim.namespaceName = [['w']]) =
        true := by
    decide +kernel
  obtain ⟨⟨plan, state⟩, hstate, hclaims⟩ := okAnd_iff.1 hcheck
  have hreach : Reachable sampleCodec state :=
    .step (.initial _ rfl) (.commit plan ⟨sampleMachine, _, hstate⟩)
  exact ⟨state, of_decide_eq_true hclaims,
    (prunes_reachable hreach [(sampleMachine, .sweep)]).1⟩

end Malm.Commit
