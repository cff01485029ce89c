/-
Malm.Store.MutationTheorems — the required mutations are the difference of two
effective target maps.

A mutation changes one slot of a target map, and the keys of the list are distinct
(`applyMutations_of_mem`). The list exists unless two tombstones of one slot differ in
kind (`requiredTargetMutations_ok_iff`).
-/
import Malm.Store.SnapshotTheorems
import Malm.Store.TransitionTheorems

namespace Malm.Store

open Checks Option List Function

/-! ## 1. Target maps -/

abbrev TargetMap := DeploymentName × Text → Option StateTargetState

def applyMutation (targets : TargetMap) : RequiredTargetMutation → TargetMap
  | .ensureDirectory authority relativePath mode =>
    Function.update targets (authority, relativePath) (some (.directory (some ⟨mode⟩)))
  | .placeFile authority relativePath digest byteLen mode =>
    Function.update targets (authority, relativePath)
      (some (.file (some ⟨digest, byteLen, mode⟩)))
  | .placeSymlink authority relativePath object =>
    Function.update targets (authority, relativePath) (some (.symlink (some ⟨object⟩)))
  | .placeTree authority relativePath tree archiveProvenance =>
    Function.update targets (authority, relativePath)
      (some (.tree (some ⟨tree, archiveProvenance⟩)))
  | .removeLeaf authority relativePath => Function.update targets (authority, relativePath) none
  | .assertExact _ _ _ => targets

def applyMutations (targets : TargetMap) (mutations : List RequiredTargetMutation) : TargetMap :=
  mutations.foldl applyMutation targets

variable {key : DeploymentName × Text}

section Mutations

variable {targets other : TargetMap} {mutation : RequiredTargetMutation}
  {mutations : List RequiredTargetMutation}

theorem applyMutation_of_ne (h : key ≠ mutation.key) :
    applyMutation targets mutation key = targets key := by
  cases mutation <;>
    first
    | exact update_of_ne h _ _
    | rfl

theorem applyMutation_congr (h : targets mutation.key = other mutation.key) :
    applyMutation targets mutation mutation.key = applyMutation other mutation mutation.key := by
  cases mutation with
  | assertExact auth path s => exact h
  | _ => simp [applyMutation, RequiredTargetMutation.key]

theorem applyMutations_of_notMem :
    ∀ {mutations : List RequiredTargetMutation} {targets : TargetMap},
      key ∉ mutations.map RequiredTargetMutation.key → applyMutations targets mutations key =
        targets key := by
  intro mutations
  induction mutations with
  | nil =>
    intro targets _
    rfl
  | cons first rest ih =>
    intro targets h
    rw [map_cons, mem_cons, not_or] at h
    show applyMutations (applyMutation targets first) rest key = targets key
    rw [ih h.2, applyMutation_of_ne h.1]

theorem applyMutations_of_mem :
    ∀ {mutations : List RequiredTargetMutation} {targets : TargetMap},
      (mutations.map RequiredTargetMutation.key).Nodup → mutation ∈ mutations →
        applyMutations targets mutations mutation.key =
          applyMutation targets mutation mutation.key := by
  intro mutations
  induction mutations with
  | nil =>
    intro targets _ hmem
    cases hmem
  | cons first rest ih =>
    intro targets hnodup hmem
    rw [map_cons, nodup_cons] at hnodup
    show applyMutations (applyMutation targets first) rest mutation.key = _
    rcases mem_cons.1 hmem with rfl | hrest
    · rw [applyMutations_of_notMem hnodup.1]
    · have hne : mutation.key ≠ first.key := by
        intro heq
        exact hnodup.1 (heq ▸ List.mem_map_of_mem hrest)
      rw [ih hnodup.2 hrest, applyMutation_congr (applyMutation_of_ne hne)]

theorem applyMutation_placementOf {after : StateTargetState} (h : after.isPresent = true) :
    applyMutation targets (placementOf key after) key = some after := by
  rcases after with (_ | _) | (_ | _) | (_ | _) | (_ | _) <;>
    first
    | exact update_self _ _ _
    | cases h

end Mutations

/-! ## 2. The difference -/

variable {prev : Option EffectiveState} {nextLifecycle : LifecycleState}
  {next : DesiredSnapshot}

section Difference

variable {required : List RequiredTargetMutation}

/-- A slot that is present in one of the two effective states. -/
def Claimed (previous : Option EffectiveState) (nextLifecycle : LifecycleState)
    (next : DesiredSnapshot) (key : DeploymentName × Text) : Prop :=
  effectiveTarget previous key ≠ none ∨ effectiveTarget (some (nextLifecycle, next)) key ≠ none

/-- A directory that goes away while something below it is claimed. -/
def Released (previous : Option EffectiveState) (nextLifecycle : LifecycleState)
    (next : DesiredSnapshot) (key : DeploymentName × Text) : Prop :=
  (∃ directory, effectiveTarget previous key = some (.directory (some directory))) ∧
    effectiveTarget (some (nextLifecycle, next)) key = none ∧
    ∃ below : DeploymentName × Text, below.1 = key.1 ∧ key.2.isAncestor below.2 = true ∧
      Claimed previous nextLifecycle next below

theorem claimed_iff :
    Claimed prev nextLifecycle next key ↔
      effectiveTargetIsPresent prev key = true ∨
        effectiveTargetIsPresent (some (nextLifecycle, next)) key = true := by
  rw [Claimed, ← isSome_effectiveTarget, ← isSome_effectiveTarget, isSome_iff_ne_none,
    isSome_iff_ne_none]

theorem hasEffectiveDescendant_iff :
    hasEffectiveDescendant prev nextLifecycle next (unionKeys prev next) key = true ↔
      ∃ below : DeploymentName × Text, below.1 = key.1 ∧ key.2.isAncestor below.2 = true ∧
        Claimed prev nextLifecycle next below := by
  simp only [hasEffectiveDescendant, List.any_eq_true, Bool.and_eq_true, Bool.or_eq_true,
    decide_eq_true_eq, claimed_iff, and_assoc]
  constructor
  · rintro ⟨below, -, hbelow⟩
    exact ⟨below, hbelow⟩
  · rintro ⟨below, hauth, hancestor, hclaimed⟩
    exact ⟨below, mem_unionKeys_of_effective hclaimed, hauth, hancestor, hclaimed⟩

theorem isDirectory_iff {s : StateTargetState} :
    s.isDirectory = true ↔ ∃ dir, s = .directory (some dir) := by
  rcases s with _ | (_ | _) | _ | _ <;> simp [StateTargetState.isDirectory]

section

variable (h : requiredTargetMutations prev nextLifecycle next = .ok required)
include h

theorem mem_required_keys :
    key ∈ required.map RequiredTargetMutation.key ↔
      Claimed prev nextLifecycle next key ∧ ¬ Released prev nextLifecycle next key := by
  have hmem : key ∈ required.map RequiredTargetMutation.key ↔
      ∃ mutation, expectedMutation key
        (hasEffectiveDescendant prev nextLifecycle next (unionKeys prev next) key)
        (effectiveTarget prev key) (effectiveTarget (some (nextLifecycle, next)) key) =
          some mutation := by
    constructor
    · intro hkey
      obtain ⟨mutation, hmutation, rfl⟩ := List.mem_map.1 hkey
      exact ⟨mutation, (mem_required h).1 hmutation⟩
    · rintro ⟨mutation, hmutation⟩
      obtain rfl := expectedMutation_key hmutation
      exact List.mem_map_of_mem ((mem_required h).2 hmutation)
  rw [hmem]
  cases hafter : effectiveTarget (some (nextLifecycle, next)) key with
  | some after =>
    have hclaimed : Claimed prev nextLifecycle next key := by
      refine .inr ?_
      rw [hafter]
      exact some_ne_none after
    have hreleased : ¬ Released prev nextLifecycle next key := by
      rintro ⟨-, hnone, -⟩
      rw [hafter] at hnone
      cases hnone
    simp only [expectedMutation_some, some.injEq, exists_eq', hclaimed, hreleased,
      not_false_eq_true, and_self]
  | none =>
    cases hbefore : effectiveTarget prev key with
    | none => simp [expectedMutation, Claimed, hbefore, hafter]
    | some before =>
      have hclaimed : Claimed prev nextLifecycle next key := by
        refine .inl ?_
        rw [hbefore]
        exact some_ne_none before
      have hreleased : Released prev nextLifecycle next key ↔
          before.isDirectory = true ∧
            hasEffectiveDescendant prev nextLifecycle next (unionKeys prev next) key =
              true := by
        rw [Released, hbefore, hafter, hasEffectiveDescendant_iff, isDirectory_iff]
        simp only [some.injEq, true_and]
      rw [expectedMutation_removed, hreleased, ← Bool.and_eq_true]
      simp only [hclaimed, true_and]
      split
      · rename_i hheld
        simp [hheld]
      · rename_i hheld
        simp [hheld]

theorem applyMutation_required {mutation : RequiredTargetMutation} (hmem : mutation ∈ required) :
    applyMutation (effectiveTarget prev) mutation mutation.key =
      effectiveTarget (some (nextLifecycle, next)) mutation.key := by
  have hexp := (mem_required h).1 hmem
  cases hafter : effectiveTarget (some (nextLifecycle, next)) mutation.key with
  | some after =>
    rw [hafter, expectedMutation_some] at hexp
    split at hexp
    · rename_i hsame
      have hassert : mutation = .assertExact mutation.key.1 mutation.key.2 after :=
        (some.inj hexp).symm
      rw [hassert]
      exact hsame
    · have hplaced : mutation = placementOf mutation.key after :=
        (some.inj hexp).symm
      have hpres := effectiveTarget_isPresent hafter
      calc applyMutation (effectiveTarget prev) mutation mutation.key
          = applyMutation (effectiveTarget prev) (placementOf mutation.key after)
              mutation.key := by rw [← hplaced]
        _ = some after := applyMutation_placementOf hpres
  | none =>
    rw [hafter] at hexp
    cases hbefore : effectiveTarget prev mutation.key with
    | none =>
      rw [hbefore] at hexp
      cases hexp
    | some before =>
      rw [hbefore, expectedMutation_removed] at hexp
      split at hexp
      · cases hexp
      · have hremoved : mutation = .removeLeaf mutation.key.1 mutation.key.2 :=
          (some.inj hexp).symm
        rw [hremoved]
        exact update_self _ _ _

end

/-- **The required mutations are the difference** of the effective targets, but for released
directories; every other slot has one mutation, and an unchanged target is asserted. -/
theorem required_difference
    (h : requiredTargetMutations prev nextLifecycle next = .ok required) :
    (∀ key, ¬ Released prev nextLifecycle next key →
      applyMutations (effectiveTarget prev) required key =
        effectiveTarget (some (nextLifecycle, next)) key) ∧
    (∀ key, Released prev nextLifecycle next key →
      applyMutations (effectiveTarget prev) required key = effectiveTarget prev key) ∧
    (∀ key, Claimed prev nextLifecycle next key → ¬ Released prev nextLifecycle next key →
      (required.map RequiredTargetMutation.key).count key = 1) ∧
    (∀ key, ¬ Claimed prev nextLifecycle next key ∨ Released prev nextLifecycle next key →
      key ∉ required.map RequiredTargetMutation.key) ∧
    ∀ key state, effectiveTarget prev key = some state →
      effectiveTarget (some (nextLifecycle, next)) key = some state →
        .assertExact key.1 key.2 state ∈ required := by
  have hnodup := required_keys_nodup h
  have hunmutated : ∀ key, ¬ Claimed prev nextLifecycle next key ∨
      Released prev nextLifecycle next key →
        key ∉ required.map RequiredTargetMutation.key := by
    intro key hkey hmem
    obtain ⟨hclaimed, hreleased⟩ := (mem_required_keys h).1 hmem
    exact hkey.elim (fun hnot => hnot hclaimed) hreleased
  refine ⟨?_, ?_, ?_, hunmutated, ?_⟩
  · intro key hreleased
    by_cases hclaimed : Claimed prev nextLifecycle next key
    · obtain ⟨mutation, hmutation, rfl⟩ :=
        List.mem_map.1 ((mem_required_keys h).2 ⟨hclaimed, hreleased⟩)
      rw [applyMutations_of_mem hnodup hmutation, applyMutation_required h hmutation]
    · rw [applyMutations_of_notMem (hunmutated key (.inl hclaimed))]
      rw [Claimed, not_or, not_not, not_not] at hclaimed
      rw [hclaimed.1, hclaimed.2]
  · intro key hreleased
    exact applyMutations_of_notMem (hunmutated key (.inr hreleased))
  · intro key hclaimed hreleased
    have hmem := (mem_required_keys h).2 ⟨hclaimed, hreleased⟩
    exact count_eq_one_of_mem hnodup hmem
  · intro key state hbefore hafter
    refine (mem_required h).2 ?_
    show expectedMutation key _ (effectiveTarget prev key)
      (effectiveTarget (some (nextLifecycle, next)) key) = _
    rw [hbefore, hafter, expectedMutation_some, if_pos rfl]

def heldTargets : List StateTarget :=
  [⟨['h'], ['d'], .directory (some ⟨0o755⟩)⟩,
    ⟨['h'], ['d', '/', 'f'], .file (some ⟨⟨7⟩, 3, 0o644⟩)⟩]

/-- Nothing of it is declared any more. -/
def droppedTargets : List StateTarget := heldTargets.map StateTarget.tombstone

theorem held_dropped : requiredTargetMutations (some (.enabled, ⟨heldTargets⟩)) .enabled
    ⟨droppedTargets⟩ = .ok [.removeLeaf ['h'] ['d', '/', 'f']] := by
  decide

theorem required_difference_held :
    applyMutations (effectiveTarget (some (.enabled, ⟨heldTargets⟩)))
        [.removeLeaf ['h'] ['d', '/', 'f']] (['h'], ['d', '/', 'f']) =
      effectiveTarget (some (.enabled, ⟨droppedTargets⟩)) (['h'], ['d', '/', 'f']) := by
  refine (required_difference held_dropped).1 _ ?_
  rintro ⟨⟨dir, hdirectory⟩, -⟩
  have hfile : effectiveTarget (some (.enabled, ⟨heldTargets⟩)) (['h'], ['d', '/', 'f']) =
      some (.file (some ⟨⟨7⟩, 3, 0o644⟩)) := by decide
  rw [hfile] at hdirectory
  cases hdirectory

/-- The directory is a claimed slot without a mutation. -/
theorem held_directory_unmutated :
    ∃ required, requiredTargetMutations (some (.enabled, ⟨heldTargets⟩)) .enabled
        ⟨droppedTargets⟩ = .ok required ∧
      Claimed (some (.enabled, ⟨heldTargets⟩)) .enabled ⟨droppedTargets⟩ (['h'], ['d']) ∧
      (required.map RequiredTargetMutation.key).count (['h'], ['d']) = 0 := by
  refine ⟨_, held_dropped, ?_, by decide⟩
  exact .inl (by decide)

end Difference

/-! ## 3. When there is a difference -/

section Derivable

variable {keys : List (DeploymentName × Text)}

/-- An enabled predecessor's tombstone, left absent by the successor in another kind. -/
def TombstonesClash (previous : Option EffectiveState) (nextLifecycle : LifecycleState)
    (next : DesiredSnapshot) : Prop :=
  ∃ snapshot, previous = some (.enabled, snapshot) ∧
    ∃ before ∈ snapshot.targets, ∃ after ∈ next.targets, before.key = after.key ∧
      before.isPresent = false ∧ (nextLifecycle = .disabled ∨ after.isPresent = false) ∧
      before.state ≠ after.state.absent

theorem absent_of_not_present {state : StateTargetState} (h : state.isPresent = false) :
    state.absent = state := by
  rcases state with (_ | _) | (_ | _) | (_ | _) | (_ | _) <;>
    first
    | rfl
    | cases h

theorem requiredMutationAt_ok_iff {before after : StateTargetState}
    (hbefore : before = stateBefore prev (prev.bind fun (_, snapshot) => snapshot.target key)
      (referenceState (prev.bind fun (_, snapshot) => snapshot.target key) (next.target key)))
    (hafter : after = stateAfter nextLifecycle (next.target key)
      (referenceState (prev.bind fun (_, snapshot) => snapshot.target key) (next.target key))) :
    (∃ mutation, requiredMutationAt prev nextLifecycle next keys key = .ok mutation) ↔
      before.isPresent = true ∨ after.isPresent = true ∨ before = after := by
  simp only [requiredMutationAt, ← hbefore, ← hafter]
  split
  · rename_i hreleased
    have hpres : before.isPresent = true := by
      rcases before with _ | (_ | _) | _ | _ <;>
        simp_all [releasesStructuralDirectory, StateTargetState.isPresent]
    simp [hpres]
  · split
    · rename_i heq
      simp [heq]
    · rename_i hne
      cases hpres : after.isPresent with
      | true => simp [mutationTo_present hpres]
      | false =>
        rw [mutationTo_absent hpres]
        cases hwas : before.isPresent with
        | true => simp
        | false => simp [hne]

theorem stateAfter_of_absent (nextTarget : Option StateTarget) {reference : StateTargetState}
    (href : ∀ t, nextTarget = some t → reference = t.state) :
    (stateAfter nextLifecycle nextTarget reference).isPresent = true ∨
      reference.absent = stateAfter nextLifecycle nextTarget reference := by
  cases nextTarget with
  | none => exact .inr rfl
  | some t =>
    obtain rfl := href t rfl
    cases nextLifecycle with
    | disabled => exact .inr rfl
    | enabled =>
      show t.state.isPresent = true ∨ t.state.absent = t.state
      cases hpres : t.state.isPresent with
      | true => exact .inl rfl
      | false => exact .inr (absent_of_not_present hpres)

theorem requiredMutationAt_ok_iff_slots :
    (∃ mutation, requiredMutationAt prev nextLifecycle next keys key = .ok mutation) ↔
      ∀ snap, prev = some (.enabled, snap) →
        ∀ before, snap.target key = some before → ∀ after, next.target key = some after →
          before.isPresent = false → nextLifecycle = .disabled ∨ after.isPresent = false →
            before.state = after.state.absent := by
  rw [requiredMutationAt_ok_iff rfl rfl]
  have href : ∀ (before : Option StateTarget) (t : StateTarget),
      next.target key = some t → referenceState before (next.target key) = t.state := by
    intro before t htarget
    rw [htarget]
    rfl
  rcases prev with _ | ⟨_ | _, snap⟩
  · simp only [bind_none, reduceCtorEq, false_implies, implies_true, iff_true]
    exact .inr (stateAfter_of_absent _ (href none))
  · simp only [bind_some]
    cases hbefore : snap.target key with
    | none =>
      simp only [some.injEq, Prod.mk.injEq, true_and, forall_eq', hbefore, reduceCtorEq,
        false_implies, implies_true, iff_true]
      exact .inr (stateAfter_of_absent _ (href none))
    | some before =>
      simp only [some.injEq, Prod.mk.injEq, true_and, forall_eq', hbefore]
      have hstate : ∀ ref,
          stateBefore (some (.enabled, snap)) (some before) ref = before.state := by
        intro ref
        rfl
      rw [hstate]
      cases hwas : before.state.isPresent with
      | true => simp [StateTarget.isPresent, hwas]
      | false =>
        cases hafter : next.target key with
        | none =>
          have habsent : stateAfter nextLifecycle none (referenceState (some before) none) =
              before.state := absent_of_not_present hwas
          simp [habsent]
        | some after =>
          cases nextLifecycle with
          | disabled =>
            have habsent : stateAfter .disabled (some after)
                (referenceState (some before) (some after)) = after.state.absent := rfl
            simp [habsent, StateTarget.isPresent, hwas]
          | enabled =>
            have hsame : stateAfter .enabled (some after)
                (referenceState (some before) (some after)) = after.state := rfl
            rw [hsame]
            cases hpres : after.state.isPresent with
            | true => simp [StateTarget.isPresent, hpres]
            | false =>
              simp [StateTarget.isPresent, hwas, hpres, absent_of_not_present hpres]
  · simp only [bind_some, some.injEq, Prod.mk.injEq, reduceCtorEq, false_and,
      false_implies, implies_true, iff_true]
    have hbefore : ∀ ref,
        stateBefore (some (.disabled, snap)) (snap.target key) ref =
          ref.absent := by
      intro ref
      cases snap.target key <;> rfl
    rw [hbefore]
    exact .inr (stateAfter_of_absent _ (href _))

/-- **When a transition is derivable**: unless tombstones clash. -/
theorem requiredTargetMutations_ok_iff
    (hprevious : ∀ lifecycle snapshot, prev = some (lifecycle, snapshot) →
      validateStateTargets snapshot.targets = .ok ())
    (hnext : validateStateTargets next.targets = .ok ()) :
    (∃ required, requiredTargetMutations prev nextLifecycle next = .ok required) ↔
      ¬ TombstonesClash prev nextLifecycle next := by
  have hordered := (validateStateTargets_ok.1 hnext).ordered
  have hslots : (∃ required, requiredTargetMutations prev nextLifecycle next = .ok required) ↔
      ∀ key ∈ unionKeys prev next, ∃ mutation,
        requiredMutationAt prev nextLifecycle next (unionKeys prev next) key =
          .ok mutation := by
    simp only [requiredTargetMutations, bind_ok, exists_unit, pure_ok, hnext, whenSome_ok, true_and]
    constructor
    · rintro ⟨required, -, mutations, hmutations, -⟩ key hkey
      exact mapM_ok_of_mem hmutations hkey
    · intro hall
      obtain ⟨mutations, hmutations⟩ := exists_mapM_ok hall
      refine ⟨mutations.filterMap id, ?_, mutations, hmutations, rfl⟩
      rintro ⟨lifecycle, snapshot⟩ hsome
      exact hprevious lifecycle snapshot hsome
  rw [hslots]
  constructor
  · rintro hall ⟨snapshot, rfl, before, hbefore, after, hafter, hkey, hwas, hgone, hkinds⟩
    have hprior := (validateStateTargets_ok.1 (hprevious .enabled snapshot rfl)).ordered
    have hslot : next.target before.key = some after :=
      hordered.target_eq_some.2 ⟨hafter, hkey.symm⟩
    have hmem : before.key ∈ unionKeys (some (.enabled, snapshot)) next :=
      mem_unionKeys.2 (.inl (List.mem_map_of_mem hbefore))
    exact hkinds (requiredMutationAt_ok_iff_slots.1 (hall _ hmem) snapshot rfl before
      (hprior.target_eq_some.2 ⟨hbefore, rfl⟩) after hslot hwas hgone)
  · intro hclash key _
    rw [requiredMutationAt_ok_iff_slots]
    rintro snapshot rfl before hbefore after hafter hwas hgone
    by_contra hkinds
    obtain ⟨hbeforeMem, hbeforeKey⟩ := mem_of_target_eq_some hbefore
    obtain ⟨hafterMem, hafterKey⟩ := mem_of_target_eq_some hafter
    exact hclash ⟨snapshot, rfl, before, hbeforeMem, after, hafterMem,
      hbeforeKey.trans hafterKey.symm, hwas, hgone, hkinds⟩

theorem requiredTargetMutations_ok_iff_held :
    (∃ required, requiredTargetMutations (some (.enabled, ⟨heldTargets⟩)) .enabled
        ⟨droppedTargets⟩ = .ok required) ↔
      ¬ TombstonesClash (some (.enabled, ⟨heldTargets⟩)) .enabled ⟨droppedTargets⟩ := by
  refine requiredTargetMutations_ok_iff ?_ (by decide)
  intro lifecycle snapshot hsome
  cases hsome
  decide

/-- The slots of `d` as a file and as a directory, present and gone. -/
def fileSlot (value : Option StateFile) : DesiredSnapshot := ⟨[⟨['h'], ['d'], .file value⟩]⟩

def directorySlot (value : Option StateDirectory) : DesiredSnapshot :=
  ⟨[⟨['h'], ['d'], .directory value⟩]⟩

/-- **A checkout without mutations.** A slot is a file, dropped, a directory and dropped again. -/
theorem checkout_of_other_kind_fails :
    reconcileDesiredSnapshot none (fileSlot (some ⟨⟨7⟩, 3, 0o644⟩)).targets =
        .ok (fileSlot (some ⟨⟨7⟩, 3, 0o644⟩)) ∧
      reconcileDesiredSnapshot (some (fileSlot (some ⟨⟨7⟩, 3, 0o644⟩))) [] =
        .ok (fileSlot none) ∧
      reconcileDesiredSnapshot (some (fileSlot none)) (directorySlot (some ⟨0o755⟩)).targets =
        .ok (directorySlot (some ⟨0o755⟩)) ∧
      reconcileDesiredSnapshot (some (directorySlot (some ⟨0o755⟩))) [] =
        .ok (directorySlot none) ∧
      reconcileDesiredSnapshot (some (directorySlot none)) (fileSlot none).targets =
        .ok (fileSlot none) ∧
      requiredTargetMutations (some (.enabled, directorySlot none)) .enabled (fileSlot none) =
        .error (.invalidState "an absent desired target cannot require removal") := by
  decide

end Derivable

end Malm.Store
