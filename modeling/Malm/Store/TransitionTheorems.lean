/-
Malm.Store.TransitionTheorems — what `required_target_mutations_v1`
requires.

A slot matters only by its effective state (`effectiveTarget`). What the loop body
requires of a slot is said in terms of its two effective states
(`requiredMutationAt_eq`).
-/
import Malm.Store.Transition
import Malm.Store.OwnershipTheorems

namespace Malm.Store

open Checks Option List Except Bool

variable {prev : Option EffectiveState} {nextLifecycle : LifecycleState}
  {next : DesiredSnapshot} {keys : List (DeploymentName × Text)} {key : DeploymentName × Text}

variable {after before found : StateTargetState} {mutation : RequiredTargetMutation}
  {s : Option EffectiveState}

/-! ## 1. Effective states -/

@[simp] theorem isPresent_absent (s : StateTargetState) : s.absent.isPresent = false := by
  cases s <;> rfl

theorem LifecycleState.isEnabled_iff {lifecycle : LifecycleState} :
    lifecycle.isEnabled = true ↔ lifecycle = .enabled := by
  cases lifecycle <;> simp [LifecycleState.isEnabled]

/-- The present state of a slot under an enabled lifecycle. -/
def effectiveTarget (state : Option EffectiveState) (key : DeploymentName × Text) :
    Option StateTargetState :=
  state.bind fun (lifecycle, snapshot) =>
    if lifecycle.isEnabled then
      ((snapshot.target key).map StateTarget.state).filter StateTargetState.isPresent
    else
      none

theorem isSome_effectiveTarget (s : Option EffectiveState) (key : DeploymentName × Text) :
    (effectiveTarget s key).isSome = effectiveTargetIsPresent s key := by
  cases s with
  | none => rfl
  | some s =>
    obtain ⟨lifecycle, snap⟩ := s
    cases htarget : snap.target key with
    | none => cases lifecycle <;> simp [effectiveTarget, effectiveTargetIsPresent, htarget]
    | some t =>
      cases lifecycle <;>
        simp [effectiveTarget, effectiveTargetIsPresent, htarget, LifecycleState.isEnabled,
          StateTarget.isPresent, Option.filter]
      cases t.state.isPresent <;> rfl

theorem effectiveTarget_isPresent (h : effectiveTarget s key = some found) :
    found.isPresent = true := by
  cases s with
  | none => cases h
  | some s =>
    obtain ⟨lifecycle, snap⟩ := s
    simp only [effectiveTarget, bind_some] at h
    split at h
    · exact (filter_eq_some_iff.1 h).2
    · cases h

theorem filter_isPresent_eq {s : StateTargetState} {found : Option StateTargetState} :
    (some s).filter StateTargetState.isPresent = found ↔
      (s.isPresent = true ∧ found = some s) ∨ (s.isPresent = false ∧ found = none) := by
  cases hpres : s.isPresent <;> simp [Option.filter, hpres, eq_comm]

theorem stateBefore_filter (ref : StateTargetState) :
    (some (stateBefore prev (prev.bind fun (_, snap) => snap.target key)
      ref)).filter StateTargetState.isPresent = effectiveTarget prev key := by
  cases prev with
  | none => simp [stateBefore, effectiveTarget]
  | some s =>
    obtain ⟨lifecycle, snap⟩ := s
    cases htarget : snap.target key with
    | none => cases lifecycle <;> simp [stateBefore, effectiveTarget, htarget]
    | some t =>
      cases lifecycle <;>
        simp [stateBefore, effectiveTarget, htarget, LifecycleState.isEnabled]

theorem stateAfter_filter (ref : StateTargetState) :
    (some (stateAfter nextLifecycle (next.target key) ref)).filter
      StateTargetState.isPresent = effectiveTarget (some (nextLifecycle, next)) key := by
  cases htarget : next.target key with
  | none => cases nextLifecycle <;> simp [stateAfter, effectiveTarget, htarget]
  | some t =>
    cases nextLifecycle <;>
      simp [stateAfter, effectiveTarget, htarget, LifecycleState.isEnabled]

/-! ## 2. One slot -/

/-- The mutation that brings a present state about. -/
def placementOf (key : DeploymentName × Text) : StateTargetState → RequiredTargetMutation
  | .file (some file) => .placeFile key.1 key.2 file.digest file.byteLen file.mode
  | .directory (some directory) => .ensureDirectory key.1 key.2 directory.mode
  | .symlink (some symlink) => .placeSymlink key.1 key.2 symlink.object
  | .tree (some tree) => .placeTree key.1 key.2 tree.tree tree.archiveProvenance
  | _ => .removeLeaf key.1 key.2

/-- Whether something below a slot is effective on either side. -/
def hasEffectiveDescendant (previous : Option EffectiveState) (nextLifecycle : LifecycleState)
    (next : DesiredSnapshot) (keys : List (DeploymentName × Text))
    (key : DeploymentName × Text) : Bool :=
  keys.any fun candidate =>
    candidate.1 = key.1 && key.2.isAncestor candidate.2 &&
      (effectiveTargetIsPresent previous candidate ||
        effectiveTargetIsPresent (some (nextLifecycle, next)) candidate)

def StateTargetState.isDirectory : StateTargetState → Bool
  | .directory (some _) => true
  | _ => false

/-- The mutation required between two states of a slot; `held`: something below is effective. -/
def expectedMutation (key : DeploymentName × Text) (held : Bool) :
    Option StateTargetState → Option StateTargetState → Option RequiredTargetMutation
  | before, some after =>
    some (if before = some after then .assertExact key.1 key.2 after else placementOf key after)
  | some before, none =>
    if before.isDirectory && held then none else some (.removeLeaf key.1 key.2)
  | none, none => none

theorem expectedMutation_some (held : Bool) (before : Option StateTargetState)
    (after : StateTargetState) :
    expectedMutation key held before (some after) =
      some (if before = some after then .assertExact key.1 key.2 after
        else placementOf key after) := by
  cases before <;> rfl

theorem expectedMutation_removed (held : Bool) (before : StateTargetState) :
    expectedMutation key held (some before) none =
      if before.isDirectory && held then none else some (.removeLeaf key.1 key.2) := rfl

theorem mutationTo_present (h : after.isPresent = true) :
    mutationTo key before after = .ok (placementOf key after) := by
  rcases after with (_ | _) | (_ | _) | (_ | _) | (_ | _) <;>
    first
    | rfl
    | cases h

theorem mutationTo_absent (h : after.isPresent = false) :
    mutationTo key before after =
      if !before.isPresent then
        .error (.invalidState "an absent desired target cannot require removal")
      else
        .ok (.removeLeaf key.1 key.2) := by
  rcases after with (_ | _) | (_ | _) | (_ | _) | (_ | _) <;>
    first
    | rfl
    | cases h

/-- The mutation of a slot is a function of the states before and after it. -/
theorem requiredMutationAt_eq {mutation : Option RequiredTargetMutation}
    (h : requiredMutationAt prev nextLifecycle next keys key = .ok mutation) :
    mutation = expectedMutation key
      (hasEffectiveDescendant prev nextLifecycle next keys key)
      (effectiveTarget prev key) (effectiveTarget (some (nextLifecycle, next)) key) := by
  simp only [requiredMutationAt] at h
  generalize referenceState (prev.bind fun (_, snapshot) => snapshot.target key)
    (next.target key) = reference at h
  rw [← stateBefore_filter reference, ← stateAfter_filter reference]
  generalize stateBefore prev (prev.bind fun (_, snapshot) => snapshot.target key)
    reference = before at h ⊢
  generalize stateAfter nextLifecycle (next.target key) reference = after at h ⊢
  set held := hasEffectiveDescendant prev nextLifecycle next keys key with hheld
  have hrelease : releasesStructuralDirectory prev nextLifecycle next keys key before after =
      (before.isDirectory && !after.isPresent && held) := by
    rw [hheld]
    rcases before with _ | _ | _ | _ <;> rfl
  rw [hrelease] at h
  cases hpres : after.isPresent with
  | true =>
    have hne : before = after ↔ (some before).filter StateTargetState.isPresent = some after := by
      rw [filter_isPresent_eq]
      constructor
      · rintro rfl
        exact Or.inl ⟨hpres, rfl⟩
      · rintro (⟨-, heq⟩ | ⟨-, heq⟩)
        · exact (some.inj heq).symm
        · cases heq
    have hfilter : (some after).filter StateTargetState.isPresent = some after := by
      simp [hpres]
    simp only [hpres, Bool.not_true, Bool.and_false, Bool.false_and, false_eq_true, ↓reduceIte] at h
    rw [hfilter, expectedMutation_some]
    by_cases heq : before = after
    · rw [if_pos heq] at h
      rw [if_pos (hne.1 heq)]
      exact (ok.inj h).symm
    · rw [if_neg heq, mutationTo_present hpres] at h
      rw [if_neg fun hfound => heq (hne.2 hfound)]
      exact (ok.inj h).symm
  | false =>
    have hfilter : (some after).filter StateTargetState.isPresent = none := by
      simp [hpres]
    simp only [hpres, Bool.not_false, Bool.and_true] at h
    rw [hfilter]
    cases hwas : before.isPresent with
    | false =>
      have hdir : before.isDirectory = false := by
        rcases before with (_ | _) | (_ | _) | (_ | _) | (_ | _) <;> first | rfl | cases hwas
      rw [mutationTo_absent hpres] at h
      simp only [hdir, Bool.false_and, false_eq_true, ↓reduceIte, hwas, Bool.not_false] at h
      have hnone : (some before).filter StateTargetState.isPresent = none := by
        simp [hwas]
      rw [hnone]
      split at h
      · exact (ok.inj h).symm
      · cases h
    | true =>
      have hsome : (some before).filter StateTargetState.isPresent = some before := by
        simp [hwas]
      have hne : before ≠ after := by
        rintro heq
        rw [heq, hpres] at hwas
        cases hwas
      rw [hsome, expectedMutation_removed]
      rw [if_neg hne, mutationTo_absent hpres] at h
      simp only [hwas, Bool.not_true, false_eq_true, ↓reduceIte] at h
      split at h
      · rename_i hreleased
        rw [if_pos hreleased]
        exact (ok.inj h).symm
      · rename_i hreleased
        rw [if_neg hreleased]
        exact (ok.inj h).symm

theorem placementOf_key (s : StateTargetState) : (placementOf key s).key = key := by
  rcases s with (_ | _) | (_ | _) | (_ | _) | (_ | _) <;> rfl

theorem expectedMutation_key {held : Bool} {before after : Option StateTargetState}
    (h : expectedMutation key held before after = some mutation) : mutation.key = key := by
  cases after with
  | some after =>
    rw [expectedMutation_some] at h
    obtain rfl := some.inj h
    split
    · rfl
    · exact placementOf_key after
  | none =>
    cases before with
    | none => cases h
    | some before =>
      rw [expectedMutation_removed] at h
      split at h
      · cases h
      · obtain rfl := some.inj h
        rfl

/-! ## 3. The mutation list -/

theorem mem_unionKeys :
    key ∈ unionKeys prev next ↔
      key ∈ ((prev.map fun (_, snapshot) => snapshot.targets).getD []).map StateTarget.key ∨
        key ∈ next.targets.map StateTarget.key := by
  simp [unionKeys, mem_insertionSort, mem_dedup]

theorem nodup_unionKeys : (unionKeys prev next).Nodup :=
  (perm_insertionSort _ _).nodup_iff.2 (nodup_dedup _)

theorem mem_of_target_eq_some {snap : DesiredSnapshot} {t : StateTarget}
    (h : snap.target key = some t) : t ∈ snap.targets ∧ t.key = key := by
  refine ⟨mem_of_find?_eq_some h, ?_⟩
  simpa using find?_some h

theorem mem_of_effectiveTarget (h : effectiveTarget s key = some found) :
    ∃ lifecycle snap t, s = some (lifecycle, snap) ∧
      lifecycle.isEnabled = true ∧ t ∈ snap.targets ∧ t.key = key ∧
      t.state = found := by
  cases s with
  | none => cases h
  | some s =>
    obtain ⟨lifecycle, snap⟩ := s
    simp only [effectiveTarget, bind_some] at h
    split at h
    · rename_i henabled
      obtain ⟨hmap, -⟩ := filter_eq_some_iff.1 h
      obtain ⟨t, htarget, rfl⟩ := map_eq_some_iff.1 hmap
      obtain ⟨hmem, hkey⟩ := mem_of_target_eq_some htarget
      exact ⟨lifecycle, snap, t, rfl, henabled, hmem, hkey, rfl⟩
    · cases h

theorem mem_unionKeys_of_effective
    (h : effectiveTargetIsPresent prev key = true ∨
      effectiveTargetIsPresent (some (nextLifecycle, next)) key = true) :
    key ∈ unionKeys prev next := by
  rw [← isSome_effectiveTarget, ← isSome_effectiveTarget] at h
  rw [mem_unionKeys]
  rcases h with h | h <;>
    obtain ⟨found, hfound⟩ := isSome_iff_exists.1 h <;>
    obtain ⟨lifecycle, snap, t, hstate, -, hmem, rfl, -⟩ := mem_of_effectiveTarget hfound
  · refine Or.inl (mem_map_of_mem ?_)
    rw [hstate]
    exact hmem
  · cases hstate
    exact Or.inr (mem_map_of_mem hmem)

variable {required : List RequiredTargetMutation}

theorem requiredTargetMutations_eq
    (h : requiredTargetMutations prev nextLifecycle next = .ok required) :
    required = (unionKeys prev next).filterMap fun key =>
      expectedMutation key
        (hasEffectiveDescendant prev nextLifecycle next (unionKeys prev next) key)
        (effectiveTarget prev key) (effectiveTarget (some (nextLifecycle, next)) key) := by
  unfold requiredTargetMutations at h
  simp only [bind_ok, exists_unit, pure_ok] at h
  obtain ⟨-, -, mutations, hmutations, rfl⟩ := h
  rw [mapM_eq_map_of_ok hmutations fun _ _ hat => requiredMutationAt_eq hat, filterMap_map]
  rfl

theorem filterMap_sublist {α : Type} {f : α → Option α} (h : ∀ x y, f x = some y → y = x) :
    ∀ es : List α, (es.filterMap f).Sublist es
  | [] => List.Sublist.refl []
  | first :: rest => by
    cases hfirst : f first with
    | none =>
      rw [filterMap_cons_none hfirst]
      exact (filterMap_sublist h rest).cons first
    | some v =>
      rw [filterMap_cons_some hfirst, h first v hfirst]
      exact (filterMap_sublist h rest).cons_cons first

section

variable (h : requiredTargetMutations prev nextLifecycle next = .ok required)
include h

theorem required_keys_sublist :
    (required.map RequiredTargetMutation.key).Sublist (unionKeys prev next) := by
  rw [requiredTargetMutations_eq h, map_filterMap]
  refine filterMap_sublist (fun key found hfound => ?_) _
  obtain ⟨mutation, hmut, rfl⟩ := map_eq_some_iff.1 hfound
  exact expectedMutation_key hmut

theorem required_keys_nodup :
    (required.map RequiredTargetMutation.key).Nodup :=
  (@nodup_unionKeys prev next).sublist (required_keys_sublist h)

theorem mem_required :
    mutation ∈ required ↔
      expectedMutation mutation.key
        (hasEffectiveDescendant prev nextLifecycle next (unionKeys prev next)
          mutation.key) (effectiveTarget prev mutation.key)
        (effectiveTarget (some (nextLifecycle, next)) mutation.key) = some mutation := by
  rw [requiredTargetMutations_eq h, mem_filterMap]
  constructor
  · rintro ⟨key, -, hkey⟩
    obtain rfl := expectedMutation_key hkey
    exact hkey
  · intro hmut
    refine ⟨mutation.key, ?_, hmut⟩
    refine @mem_unionKeys_of_effective _ nextLifecycle _ _ ?_
    rw [← isSome_effectiveTarget, ← isSome_effectiveTarget]
    cases hbefore : effectiveTarget prev mutation.key with
    | some before => exact Or.inl rfl
    | none =>
      cases hafter : effectiveTarget (some (nextLifecycle, next)) mutation.key with
      | some after => exact Or.inr rfl
      | none => simp [hbefore, hafter, expectedMutation] at hmut

end

end Malm.Store
