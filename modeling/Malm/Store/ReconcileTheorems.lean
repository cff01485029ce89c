/-
Malm.Store.ReconcileTheorems — when reconciliation succeeds, and what it
keeps.

The merged slots are the declared ones and tombstones, which have nothing to check. So the
merged snapshot is valid whenever the declared one is, up to its number of slots
(`reconcile_iff`). Reconciling once more finds every key in its place.
-/
import Malm.Store.SnapshotTheorems

namespace Malm.Store

open Checks List DesiredSnapshot

/-! ## 1. Tombstones -/

/-- The slots before the reconciliation. -/
def previousTargets (previous : Option DesiredSnapshot) : List StateTarget :=
  (previous.map DesiredSnapshot.targets).getD []

def targetKeys (targets : List StateTarget) : Finset (DeploymentName × Text) :=
  (targets.map StateTarget.key).toFinset

theorem mem_targetKeys {ts : List StateTarget} {key : DeploymentName × Text} :
    key ∈ targetKeys ts ↔ ∃ t ∈ ts, t.key = key := by
  simp [targetKeys]

theorem StrictlyOrdered.card_targetKeys {ts : List StateTarget} (h : StrictlyOrdered ts) :
    (targetKeys ts).card = ts.length := by
  rw [targetKeys, toFinset_card_of_nodup h.nodup, length_map]

theorem StateTarget.tombstone_isPresent (t : StateTarget) :
    t.tombstone.isPresent = false := by
  rcases t with ⟨auth, path, s⟩
  cases s <;> rfl

theorem StateTarget.tombstone_tombstone (t : StateTarget) :
    t.tombstone.tombstone = t.tombstone := by
  rcases t with ⟨auth, path, s⟩
  cases s <;> rfl

theorem validateTargetState_tombstone (t : StateTarget) :
    validateTargetState t.tombstone.state = .ok () := by
  rcases t with ⟨auth, path, s⟩
  cases s <;> rfl

theorem digestLength_tombstone (t : StateTarget) : t.tombstone.digestLength = none := by
  rcases t with ⟨auth, path, s⟩
  cases s <;> rfl

/-! ## 2. Validity of the merged slots -/

section Merge

variable {prev : Option DesiredSnapshot} {declared merged : List StateTarget}

theorem presentLeaves_mono {smaller larger : List StateTarget}
    (h : ∀ t ∈ smaller, t.isPresent = true → t ∈ larger) :
    presentLeaves smaller ⊆ presentLeaves larger := by
  intro key hkey
  unfold presentLeaves at hkey ⊢
  obtain ⟨t, htarget, rfl⟩ := mem_map.1 hkey
  rw [mem_filter, Bool.and_eq_true] at htarget
  refine mem_map.2 ⟨t, mem_filter.2 ⟨h t htarget.1 htarget.2.1, ?_⟩, rfl⟩
  rw [Bool.and_eq_true]
  exact htarget.2

/-- Declared slots, with tombstones of the slots whose keys are not declared. -/
def MergedSlots (previous : Option DesiredSnapshot) (declared merged : List StateTarget) : Prop :=
  ∀ target, target ∈ merged ↔ target ∈ declared ∨
    ∃ before ∈ previousTargets previous,
      target = before.tombstone ∧ before.key ∉ declared.map StateTarget.key

section

variable (h : MergedSlots prev declared merged)
include h

theorem MergedSlots.keys :
    targetKeys merged = targetKeys (previousTargets prev) ∪ targetKeys declared := by
  ext key
  rw [Finset.mem_union, mem_targetKeys, mem_targetKeys, mem_targetKeys]
  constructor
  · intro hkey
    obtain ⟨t, htarget, rfl⟩ := hkey
    rcases (h t).1 htarget with hdeclared | ⟨before, hbefore, rfl, -⟩
    · exact .inr ⟨t, hdeclared, rfl⟩
    · exact .inl ⟨before, hbefore, rfl⟩
  · intro hkey
    rcases hkey with ⟨before, hbefore, rfl⟩ | ⟨t, htarget, rfl⟩
    · by_cases hdeclared : before.key ∈ declared.map StateTarget.key
      · obtain ⟨t, htarget, hsame⟩ := mem_map.1 hdeclared
        exact ⟨t, (h t).2 (.inl htarget), hsame⟩
      · exact ⟨before.tombstone, (h _).2 (.inr ⟨before, hbefore, rfl, hdeclared⟩), rfl⟩
    · exact ⟨t, (h t).2 (.inl htarget), rfl⟩

theorem MergedSlots.declared_of_present {t : StateTarget} (htarget : t ∈ merged)
    (hpres : t.isPresent = true) :
    t ∈ declared := by
  rcases (h t).1 htarget with hdeclared | ⟨before, -, rfl, -⟩
  · exact hdeclared
  · rw [StateTarget.tombstone_isPresent] at hpres
    cases hpres

theorem MergedSlots.valid (hordered : StrictlyOrdered merged)
    (hcount : merged.length ≤ maxDesiredTargets) (hprevious : ∀ before ∈ previousTargets prev,
      asState (validateRelativePath before.relativePath) = .ok ())
    (hdeclared : ValidTargets declared) : ValidTargets merged := by
  refine ⟨hcount, ?_, hordered, ?_, ?_, ?_⟩
  · intro t htarget
    rcases (h t).1 htarget with hmem | ⟨before, hbefore, rfl, -⟩
    · exact hdeclared.paths t hmem
    · exact hprevious before hbefore
  · intro t htarget
    rcases (h t).1 htarget with hmem | ⟨before, -, rfl, -⟩
    · exact hdeclared.states t hmem
    · exact validateTargetState_tombstone before
  · refine hdeclared.lengths.of_subset ?_
    intro length hlen
    obtain ⟨t, htarget, hfound⟩ := mem_filterMap.1 hlen
    rcases (h t).1 htarget with hmem | ⟨before, -, rfl, -⟩
    · exact mem_filterMap.2 ⟨t, hmem, hfound⟩
    · rw [digestLength_tombstone] at hfound
      cases hfound
  · intro t htarget hpres ancestor hancestor hleaf
    have hleaves := presentLeaves_mono fun other hother => h.declared_of_present hother
    exact hdeclared.exclusive t (h.declared_of_present htarget hpres) hpres ancestor
      hancestor (hleaves hleaf)

end

end Merge

/-! ## 3. Reconciliation -/

section Reconcile

variable {prev : Option DesiredSnapshot} {declared : List StateTarget}
  {next : DesiredSnapshot}

/-- The slots that `reconcile_desired_snapshot_v1` hands to the constructor. -/
def mergedTargets (previous : Option DesiredSnapshot) (declared : List StateTarget) :
    List StateTarget :=
  (sortTargets declared).foldl (fun targets target => insertTarget target targets)
    ((previousTargets previous).map StateTarget.tombstone)

theorem mergedTargets_spec
    (hprevious : ∀ snap, prev = some snap → StrictlyOrdered snap.targets)
    (hdeclared : StrictlyOrdered (sortTargets declared)) :
    StrictlyOrdered (mergedTargets prev declared) ∧
      MergedSlots prev (sortTargets declared) (mergedTargets prev declared) := by
  have htombstones : StrictlyOrdered
      ((previousTargets prev).map StateTarget.tombstone) := by
    rw [StrictlyOrdered, pairwise_map]
    cases prev with
    | none => exact .nil
    | some snap => exact hprevious snap rfl
  obtain ⟨hordered, hmem⟩ := foldl_insertTarget hdeclared htombstones
  refine ⟨hordered, fun t => (hmem t).trans (or_congr_right ?_)⟩
  rw [mem_map]
  constructor
  · intro h
    obtain ⟨⟨before, hbefore, rfl⟩, hkey⟩ := h
    exact ⟨before, hbefore, rfl, hkey⟩
  · intro h
    obtain ⟨before, hbefore, rfl, hkey⟩ := h
    exact ⟨⟨before, hbefore, rfl⟩, hkey⟩

theorem targetKeys_sortTargets (targets : List StateTarget) :
    targetKeys (sortTargets targets) = targetKeys targets := by
  ext key
  simp [mem_targetKeys, mem_sortTargets]

theorem reconcile_ok_iff
    (hprevious : ∀ snap, prev = some snap → ValidTargets snap.targets) :
    reconcileDesiredSnapshot prev declared = .ok next ↔
      ValidTargets (sortTargets declared) ∧
        (targetKeys (previousTargets prev) ∪ targetKeys declared).card ≤ maxDesiredTargets ∧
        next = ⟨mergedTargets prev declared⟩ := by
  have hchecked : whenSome prev (fun snap => validateStateTargets snap.targets) =
      .ok () := by
    rw [whenSome_ok]
    intro snap hsnapshot
    exact validateStateTargets_ok.2 (hprevious snap hsnapshot)
  have hmerge : ValidTargets (sortTargets declared) →
      StrictlyOrdered (mergedTargets prev declared) ∧
        MergedSlots prev (sortTargets declared) (mergedTargets prev declared) :=
    fun hvalid => mergedTargets_spec (fun snap hsome => (hprevious snap hsome).ordered)
      hvalid.ordered
  have hcount : ValidTargets (sortTargets declared) →
      (targetKeys (previousTargets prev) ∪ targetKeys declared).card =
        (mergedTargets prev declared).length := by
    intro hvalid
    obtain ⟨hordered, hslots⟩ := hmerge hvalid
    rw [← hordered.card_targetKeys, hslots.keys, targetKeys_sortTargets]
  have hpaths : ∀ before ∈ previousTargets prev,
      asState (validateRelativePath before.relativePath) = .ok () := by
    intro before hbefore
    cases prev with
    | none => cases hbefore
    | some snap => exact (hprevious snap rfl).paths before hbefore
  unfold reconcileDesiredSnapshot
  rw [hchecked, ok_bind, bind_ok]
  constructor
  · intro h
    obtain ⟨snap, hdeclared, hnext⟩ := h
    rw [new_ok] at hdeclared hnext
    obtain ⟨hvalid, rfl⟩ := hdeclared
    obtain ⟨hordered, -⟩ := hmerge hvalid
    obtain ⟨hnextValid, hnext⟩ := hnext
    have hsame : next = ⟨mergedTargets prev declared⟩ :=
      hnext.trans (congrArg mk hordered.sortTargets_eq)
    refine ⟨hvalid, ?_, hsame⟩
    rw [hcount hvalid]
    exact (congrArg (fun snap => snap.targets.length) hsame) ▸ hnextValid.count
  · intro h
    obtain ⟨hvalid, hroom, rfl⟩ := h
    obtain ⟨hordered, hslots⟩ := hmerge hvalid
    refine ⟨⟨sortTargets declared⟩, new_ok.2 ⟨hvalid, rfl⟩, ?_⟩
    rw [new_ok]
    refine ⟨hslots.valid hordered ((hcount hvalid).symm.trans_le hroom) hpaths hvalid, ?_⟩
    exact congrArg mk hordered.sortTargets_eq.symm

theorem target_mergedTargets (hordered : StrictlyOrdered (mergedTargets prev declared))
    {target : StateTarget} (h : target ∈ mergedTargets prev declared) :
    (⟨mergedTargets prev declared⟩ : DesiredSnapshot).target target.key = some target :=
  hordered.target_eq_some.2 ⟨h, rfl⟩

theorem mergedTargets_again (hvalid : ValidTargets (sortTargets declared))
    (hprevious : ∀ snap, prev = some snap → StrictlyOrdered snap.targets) :
    mergedTargets (some ⟨mergedTargets prev declared⟩) declared =
      mergedTargets prev declared := by
  obtain ⟨hordered, hslots⟩ := mergedTargets_spec hprevious hvalid.ordered
  obtain ⟨hagain, hslotsAgain⟩ := @mergedTargets_spec (some ⟨mergedTargets prev declared⟩)
    declared (fun snap hsome => Option.some.inj hsome ▸ hordered) hvalid.ordered
  refine hagain.eq_of_mem_iff hordered ?_
  intro t
  rw [hslotsAgain t, hslots t]
  constructor
  · intro h
    rcases h with hdeclared | ⟨before, hbefore, rfl, hkey⟩
    · exact .inl hdeclared
    · rcases (hslots before).1 hbefore with hdeclared | ⟨first, hfirst, rfl, hfirstKey⟩
      · exact absurd (mem_map_of_mem hdeclared) hkey
      · exact .inr ⟨first, hfirst, first.tombstone_tombstone, hfirstKey⟩
  · intro h
    rcases h with hdeclared | ⟨before, hbefore, rfl, hkey⟩
    · exact .inl hdeclared
    · refine .inr ⟨before.tombstone, (hslots _).2 (.inr ⟨before, hbefore, rfl, hkey⟩), ?_, hkey⟩
      exact before.tombstone_tombstone.symm

/-- **Reconciliation keeps every past claim**: within the limits it gives the declared slots and
tombstones of all others, and a second one changes nothing. -/
theorem reconcile_iff
    (hprevious : ∀ snapshot, prev = some snapshot →
      validateStateTargets snapshot.targets = .ok ()) :
    ((∃ next, reconcileDesiredSnapshot prev declared = .ok next) ↔
      (∃ snapshot, new declared = .ok snapshot) ∧
        (targetKeys (previousTargets prev) ∪ targetKeys declared).card ≤
          maxDesiredTargets) ∧
    ∀ next, reconcileDesiredSnapshot prev declared = .ok next →
      targetKeys next.targets = targetKeys (previousTargets prev) ∪ targetKeys declared ∧
      (∀ target ∈ declared, next.target target.key = some target) ∧
      (∀ before ∈ previousTargets prev, before.key ∉ targetKeys declared →
        next.target before.key = some before.tombstone) ∧
      reconcileDesiredSnapshot (some next) declared = .ok next := by
  have hvalid : ∀ snapshot, prev = some snapshot → ValidTargets snapshot.targets :=
    fun snapshot hsome => validateStateTargets_ok.1 (hprevious snapshot hsome)
  constructor
  · constructor
    · intro h
      obtain ⟨next, h⟩ := h
      obtain ⟨hdeclared, hroom, -⟩ := (reconcile_ok_iff hvalid).1 h
      exact ⟨⟨⟨sortTargets declared⟩, new_ok.2 ⟨hdeclared, rfl⟩⟩, hroom⟩
    · intro h
      obtain ⟨⟨snapshot, hsnapshot⟩, hroom⟩ := h
      obtain ⟨hdeclared, rfl⟩ := new_ok.1 hsnapshot
      exact ⟨_, (reconcile_ok_iff hvalid).2 ⟨hdeclared, hroom, rfl⟩⟩
  · intro next h
    obtain ⟨hdeclared, hroom, rfl⟩ := (reconcile_ok_iff hvalid).1 h
    have hstrict : ∀ snapshot, prev = some snapshot → StrictlyOrdered snapshot.targets :=
      fun snapshot hsome => (hvalid snapshot hsome).ordered
    obtain ⟨hordered, hslots⟩ := mergedTargets_spec hstrict hdeclared.ordered
    have hkeys := hslots.keys
    rw [targetKeys_sortTargets] at hkeys
    refine ⟨hkeys, ?_, ?_, ?_⟩
    · intro target htarget
      exact target_mergedTargets hordered ((hslots target).2 (.inl (mem_sortTargets.2 htarget)))
    · intro before hbefore hkey
      refine target_mergedTargets hordered ((hslots _).2 (.inr ⟨before, hbefore, rfl, ?_⟩))
      rw [← targetKeys_sortTargets] at hkey
      simpa [targetKeys] using hkey
    · have hnext := reconcileDesiredSnapshot_ok h
      refine (reconcile_ok_iff fun snapshot hsome => Option.some.inj hsome ▸ hnext.valid).2
        ⟨hdeclared, ?_, ?_⟩
      · have hsame : targetKeys (previousTargets (some ⟨mergedTargets prev declared⟩)) ∪
            targetKeys declared = targetKeys (mergedTargets prev declared) := by
          show targetKeys (mergedTargets prev declared) ∪ targetKeys declared = _
          rw [hkeys, Finset.union_assoc, Finset.union_self]
        rw [hsame, hkeys]
        exact hroom
      · rw [mergedTargets_again hdeclared hstrict]

/-- A file declared over a predecessor with that file and another. -/
theorem reconcile_iff_file :
    ∃ next, reconcileDesiredSnapshot
        (some ⟨[⟨['h'], ['a'], .file (some ⟨⟨7⟩, 3, 0o644⟩)⟩, ⟨['h'], ['b'], .symlink none⟩]⟩)
        [⟨['h'], ['a'], .file (some ⟨⟨8⟩, 4, 0o600⟩)⟩] = .ok next ∧
      next.target (['h'], ['b']) = some ⟨['h'], ['b'], .symlink none⟩ := by
  have hvalid : ∀ snapshot, (some ⟨[⟨['h'], ['a'], .file (some ⟨⟨7⟩, 3, 0o644⟩)⟩,
      ⟨['h'], ['b'], .symlink none⟩]⟩ : Option DesiredSnapshot) = some snapshot →
      validateStateTargets snapshot.targets = .ok () := by
    intro snapshot hsome
    obtain rfl := Option.some.inj hsome
    decide
  have h := @reconcile_iff _ [⟨['h'], ['a'], .file (some ⟨⟨8⟩, 4, 0o600⟩)⟩] hvalid
  obtain ⟨next, hnext⟩ := h.1.2 ⟨⟨⟨_⟩, rfl⟩, by decide⟩
  obtain ⟨-, -, hkept, -⟩ := h.2 next hnext
  refine ⟨next, hnext, ?_⟩
  exact hkept ⟨['h'], ['b'], .symlink none⟩ (by decide) (by decide)

end Reconcile

end Malm.Store
