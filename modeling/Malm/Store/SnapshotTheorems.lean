/-
Malm.Store.SnapshotTheorems — valid target slots and the reconciliation of
snapshots.

`ValidTargets` is what `validate_state_targets` accepts, as a predicate on the list.
`reconcileDesiredSnapshot_ok` describes the reconciled snapshot by its slots.
-/
import Malm.Store.Transition
import Malm.Store.OwnershipTheorems

namespace Malm.Store

open Checks List Option

variable {decl : List StateTarget} {key : DeploymentName × Text} {lengths : List (Digest × Nat)}
  {next snap : DesiredSnapshot} {prev : Option DesiredSnapshot}

/-! ## 1. Valid slots -/

theorem checkLimit_ok {field : String} {actual limit : Nat} :
    checkLimit field actual limit = .ok () ↔ actual ≤ limit := by
  unfold checkLimit
  split <;> simp <;> omega

theorem rejectDuplicates_ok {α : Type} [DecidableEq α] {field : String} {vs : List α} :
    rejectDuplicates field vs = .ok () ↔ vs.Nodup := by
  unfold rejectDuplicates
  split <;> simp_all

def StrictlyOrdered (targets : List StateTarget) : Prop :=
  targets.Pairwise fun left right => toLex left.key < toLex right.key

def OneLengthPerDigest (lengths : List (Digest × Nat)) : Prop :=
  ∀ left ∈ lengths, ∀ right ∈ lengths, left.1 = right.1 → left.2 = right.2

def StateTarget.digestLength (target : StateTarget) : Option (Digest × Nat) :=
  match target.state with
  | .file (some file) => some (file.digest, file.byteLen)
  | _ => none

/-- No present leaf lies above a present slot. -/
def NoLeafAbove (leaves : List (DeploymentName × Text)) (target : StateTarget) : Prop :=
  target.isPresent = true →
    ∀ ancestor ∈ target.relativePath.ancestorPaths, (target.authority, ancestor) ∉ leaves

/-- What `validate_state_targets` accepts. -/
structure ValidTargets (targets : List StateTarget) : Prop where
  count : targets.length ≤ maxDesiredTargets
  paths : ∀ target ∈ targets, asState (validateRelativePath target.relativePath) = .ok ()
  ordered : StrictlyOrdered targets
  states : ∀ target ∈ targets, validateTargetState target.state = .ok ()
  lengths : OneLengthPerDigest (targets.filterMap StateTarget.digestLength)
  exclusive : ∀ target ∈ targets, NoLeafAbove (presentLeaves targets) target

variable {target : StateTarget} {targets : List StateTarget}

theorem noteDigestLength_ok {noted : List (Digest × Nat)} :
    noteDigestLength lengths target.state = .ok noted ↔
      noted = target.digestLength.toList ++ lengths ∧
        ∀ found ∈ target.digestLength, ∀ other ∈ lengths, other.1 = found.1 →
          other.2 = found.2 := by
  rcases hstate : target.state with (_ | file) | (_ | directory) | (_ | symlink) | (_ | tree)
  case file.some =>
    simp only [noteDigestLength, StateTarget.digestLength, hstate, bind_ok, exists_unit, reject_ok,
      pure_ok, toList_some, singleton_append, mem_some_iff, forall_eq']
    rw [and_comm, eq_comm]
    refine and_congr_right fun _ => ?_
    simp only [List.any_eq_true, Bool.and_eq_true, decide_eq_true_eq, not_exists, not_and, not_not]
  all_goals
    simp [noteDigestLength, StateTarget.digestLength, hstate, eq_comm]

theorem oneLengthPerDigest_append {found : Option (Digest × Nat)} (h : OneLengthPerDigest lengths) :
    OneLengthPerDigest (found.toList ++ lengths) ↔
      ∀ e ∈ found, ∀ other ∈ lengths, other.1 = e.1 → other.2 = e.2 := by
  cases found with
  | none => simpa using h
  | some e =>
    simp only [toList_some, singleton_append, mem_some_iff, forall_eq']
    constructor
    · intro hall other hother hdigest
      exact hall other (mem_cons_of_mem _ hother) e mem_cons_self hdigest
    · intro hentry left hleft right hright hdigest
      rcases mem_cons.1 hleft with rfl | hleftMem <;>
        rcases mem_cons.1 hright with rfl | hrightMem
      · rfl
      · exact (hentry right hrightMem hdigest.symm).symm
      · exact hentry left hleftMem hdigest
      · exact h left hleftMem right hrightMem hdigest

theorem OneLengthPerDigest.of_subset {larger smaller : List (Digest × Nat)}
    (h : OneLengthPerDigest larger) (hsubset : smaller ⊆ larger) : OneLengthPerDigest smaller :=
  fun left hleft right hright => h left (hsubset hleft) right (hsubset hright)

/-- The loop accepts what is ordered, valid and consistent with the lengths so
far. -/
theorem validateTargetSlots_ok {leaves : List (DeploymentName × Text)} :
    ∀ {targets : List StateTarget} {before : Option StateTarget} {lengths : List (Digest × Nat)},
      OneLengthPerDigest lengths →
      (validateTargetSlots leaves before lengths targets = .ok () ↔
        (∀ target ∈ targets, asState (validateRelativePath target.relativePath) = .ok ()) ∧
        StrictlyOrdered (before.toList ++ targets) ∧
        (∀ target ∈ targets, validateTargetState target.state = .ok ()) ∧
        OneLengthPerDigest ((targets.filterMap StateTarget.digestLength) ++ lengths) ∧
        ∀ target ∈ targets, NoLeafAbove leaves target)
  | [], before, lengths, hlengths => by
    cases before <;> simp [validateTargetSlots, StrictlyOrdered, hlengths]
  | target :: rest, before, lengths, hlengths => by
    -- Only the nearest slot before is compared; the order is transitive.
    have hord : StrictlyOrdered (before.toList ++ target :: rest) ↔
        (¬ (before.any fun before => ¬ toLex before.key < toLex target.key) = true) ∧
          StrictlyOrdered (target :: rest) := by
      cases before with
      | none => simp
      | some before =>
        simp only [toList_some, singleton_append, any_some, decide_eq_true_eq, not_not]
        constructor
        · intro h
          rw [StrictlyOrdered, pairwise_cons] at h
          exact ⟨h.1 target mem_cons_self, h.2⟩
        · rintro ⟨hlt, h⟩
          rw [StrictlyOrdered, pairwise_cons]
          refine ⟨?_, h⟩
          rw [StrictlyOrdered, pairwise_cons] at h
          intro cand hcand
          rcases mem_cons.1 hcand with rfl | hcand
          · exact hlt
          · exact hlt.trans (h.1 cand hcand)
    have habove : when (target.isPresent = true)
        (rejectSome
          (target.relativePath.ancestorPaths.find? fun ancestor =>
            (target.authority, ancestor) ∈ leaves)
          fun ancestor => StateRecordError.targetsOverlap target.authority ancestor
            target.relativePath) = .ok () ↔ NoLeafAbove leaves target := by
      rw [when_ok, rejectSome_ok, find?_eq_none]
      simp only [decide_eq_true_eq]
      exact Iff.rfl
    simp only [validateTargetSlots, bind_ok, exists_unit, reject_ok,
      noteDigestLength_ok, habove, forall_mem_cons, hord]
    constructor
    · rintro ⟨hpath, hnext, hstate, noted, ⟨rfl, hfound⟩, hnone, hrest⟩
      have hnoted := (oneLengthPerDigest_append hlengths).2 hfound
      obtain ⟨hpaths, hsorted, hstates, hall, hleaves⟩ := (validateTargetSlots_ok hnoted).1 hrest
      refine ⟨⟨hpath, hpaths⟩, ⟨hnext, hsorted⟩, ⟨hstate, hstates⟩, hall.of_subset ?_,
        hnone, hleaves⟩
      intro e hentry
      simp only [mem_append, mem_filterMap, mem_cons, mem_toList] at hentry ⊢
      grind
    · rintro ⟨⟨hpath, hpaths⟩, ⟨hnext, hsorted⟩, ⟨hstate, hstates⟩, hall, hnone, hleaves⟩
      have hnoted : OneLengthPerDigest (target.digestLength.toList ++ lengths) := by
        refine hall.of_subset fun e hentry => ?_
        simp only [mem_append, mem_filterMap, mem_cons, mem_toList] at hentry ⊢
        grind
      refine ⟨hpath, hnext, hstate, _, ⟨rfl, (oneLengthPerDigest_append hlengths).1 hnoted⟩,
        hnone, (validateTargetSlots_ok hnoted).2 ⟨hpaths, hsorted, hstates, ?_, hleaves⟩⟩
      refine hall.of_subset fun e hentry => ?_
      simp only [mem_append, mem_filterMap, mem_cons, mem_toList] at hentry ⊢
      grind

theorem validateStateTargets_ok :
    validateStateTargets targets = .ok () ↔ ValidTargets targets := by
  have hempty : OneLengthPerDigest [] := by
    intro left hleft
    cases hleft
  rw [validateStateTargets, bind_unit_ok, reject_ok, not_lt,
    validateTargetSlots_ok hempty, append_nil, toList_none, nil_append]
  constructor
  · rintro ⟨hcount, hpaths, hord, hstates, hlengths, hleaves⟩
    exact ⟨hcount, hpaths, hord, hstates, hlengths, hleaves⟩
  · rintro ⟨hcount, hpaths, hord, hstates, hlengths, hleaves⟩
    exact ⟨hcount, hpaths, hord, hstates, hlengths, hleaves⟩

theorem StrictlyOrdered.nodup (h : StrictlyOrdered targets) :
    (targets.map StateTarget.key).Nodup := by
  rw [List.Nodup, pairwise_map]
  refine List.Pairwise.imp (fun hlt heq => ?_) h
  rw [heq] at hlt
  exact lt_irrefl _ hlt

theorem StrictlyOrdered.eq_of_mem_iff {left right : List StateTarget} (hleft : StrictlyOrdered left)
    (hright : StrictlyOrdered right) (h : ∀ target, target ∈ left ↔ target ∈ right) :
    left = right := by
  refine ((perm_ext_iff_of_nodup hleft.nodup.of_map hright.nodup.of_map).2 h).eq_of_pairwise ?_
    hleft hright
  intro first snd _ _ hlt hgt
  exact absurd hlt (lt_asymm hgt)

theorem StrictlyOrdered.target_eq_some (h : StrictlyOrdered snap.targets) :
    snap.target key = some target ↔ target ∈ snap.targets ∧ target.key = key := by
  unfold DesiredSnapshot.target
  exact Keyed.find?_eq_some h.nodup

/-! ## 2. Reconciliation -/

theorem mem_insertTarget {cand : StateTarget} :
    ∀ {targets : List StateTarget}, StrictlyOrdered targets →
      (cand ∈ insertTarget target targets ↔
        cand = target ∨ cand ∈ targets ∧ cand.key ≠ target.key)
  | [], _ => by simp [insertTarget]
  | first :: rest, h => by
    rw [StrictlyOrdered, pairwise_cons] at h
    have hlater : toLex target.key < toLex first.key →
        cand ∈ first :: rest → cand.key ≠ target.key := by
      rintro hlt hmem heq
      rcases mem_cons.1 hmem with rfl | hmem
      · rw [heq] at hlt
        exact lt_irrefl _ hlt
      · have := hlt.trans (h.1 cand hmem)
        rw [heq] at this
        exact lt_irrefl _ this
    unfold insertTarget
    split
    · rename_i hlt
      rw [mem_cons]
      exact or_congr_right ⟨fun hmem => ⟨hmem, hlater hlt hmem⟩, And.left⟩
    · split
      · rename_i hkey
        rw [mem_cons]
        refine or_congr_right ⟨fun hmem => ⟨mem_cons_of_mem _ hmem, fun heq => ?_⟩, ?_⟩
        · have := h.1 cand hmem
          rw [heq, hkey] at this
          exact lt_irrefl _ this
        · rintro ⟨hmem, hne⟩
          rcases mem_cons.1 hmem with rfl | hmem
          · exact absurd hkey hne
          · exact hmem
      · rename_i hkey
        rw [mem_cons, mem_cons, mem_insertTarget h.2]
        constructor
        · rintro (rfl | rfl | ⟨hmem, hne⟩)
          · exact .inr ⟨.inl rfl, hkey⟩
          · exact .inl rfl
          · exact .inr ⟨.inr hmem, hne⟩
        · rintro (rfl | ⟨rfl | hmem, hne⟩)
          · exact .inr (.inl rfl)
          · exact .inl rfl
          · exact .inr (.inr ⟨hmem, hne⟩)

theorem insertTarget_ordered {target : StateTarget} :
    ∀ {targets : List StateTarget}, StrictlyOrdered targets →
      StrictlyOrdered (insertTarget target targets)
  | [], _ => pairwise_singleton _ _
  | first :: rest, h => by
    have hfirst := h
    rw [StrictlyOrdered, pairwise_cons] at hfirst
    unfold insertTarget
    split
    · rename_i hlt
      refine pairwise_cons.2 ⟨fun cand hmem => ?_, h⟩
      rcases mem_cons.1 hmem with rfl | hmem
      · exact hlt
      · exact hlt.trans (hfirst.1 cand hmem)
    · rename_i hnot
      split
      · rename_i hkey
        refine pairwise_cons.2 ⟨fun cand hmem => ?_, hfirst.2⟩
        rw [← hkey]
        exact hfirst.1 cand hmem
      · rename_i hkey
        refine pairwise_cons.2 ⟨fun cand hmem => ?_, insertTarget_ordered hfirst.2⟩
        rcases (mem_insertTarget hfirst.2).1 hmem with rfl | ⟨hmem, -⟩
        · exact lt_of_le_of_ne (not_lt.1 hnot) fun heq => hkey (toLex.injective heq)
        · exact hfirst.1 cand hmem

theorem foldl_insertTarget : ∀ {decl targets : List StateTarget},
    StrictlyOrdered decl → StrictlyOrdered targets →
      StrictlyOrdered
          (decl.foldl (fun targets target => insertTarget target targets) targets) ∧
        ∀ cand, cand ∈
            decl.foldl (fun targets target => insertTarget target targets) targets ↔
          cand ∈ decl ∨
            cand ∈ targets ∧ cand.key ∉ decl.map StateTarget.key
  | [], targets, _, htargets => by simpa using htargets
  | first :: rest, targets, hdecl, htargets => by
    rw [StrictlyOrdered, pairwise_cons] at hdecl
    obtain ⟨hord, hmem⟩ :=
      foldl_insertTarget hdecl.2 (@insertTarget_ordered first _ htargets)
    refine ⟨hord, fun cand => ?_⟩
    have hfirst : first.key ∉ rest.map StateTarget.key := by
      intro hkey
      obtain ⟨other, hother, hkey⟩ := mem_map.1 hkey
      have := hdecl.1 other hother
      rw [hkey] at this
      exact lt_irrefl _ this
    rw [foldl_cons, hmem, mem_insertTarget htargets, mem_cons, map_cons, mem_cons, not_or]
    constructor
    · rintro (hrest | ⟨rfl | ⟨hcand, hne⟩, hkey⟩)
      · exact .inl (.inr hrest)
      · exact .inl (.inl rfl)
      · exact .inr ⟨hcand, hne, hkey⟩
    · rintro ((rfl | hrest) | ⟨hcand, hne, hkey⟩)
      · exact .inr ⟨.inl rfl, hfirst⟩
      · exact .inl hrest
      · exact .inr ⟨.inr ⟨hcand, hne⟩, hkey⟩

theorem mem_sortTargets : target ∈ sortTargets targets ↔ target ∈ targets :=
  mem_insertionSort _

theorem StrictlyOrdered.sortTargets_eq (h : StrictlyOrdered targets) :
    sortTargets targets = targets := by
  have hle : targets.Pairwise fun left right => toLex left.key ≤ toLex right.key :=
    List.Pairwise.imp (fun hless => le_of_lt hless) h
  exact hle.insertionSort_eq

theorem DesiredSnapshot.new_ok :
    DesiredSnapshot.new targets = .ok snap ↔
      ValidTargets snap.targets ∧ snap = ⟨sortTargets targets⟩ := by
  rw [DesiredSnapshot.new, bind_unit_ok, pure_ok, validateStateTargets_ok]
  constructor
  · rintro ⟨hvalid, rfl⟩
    exact ⟨hvalid, rfl⟩
  · rintro ⟨hvalid, rfl⟩
    exact ⟨hvalid, rfl⟩

def StateTarget.tombstone (target : StateTarget) : StateTarget :=
  { target with state := target.state.absent }

@[simp] theorem StateTarget.tombstone_key (target : StateTarget) :
    target.tombstone.key = target.key := rfl

structure Reconciled (previous : Option DesiredSnapshot) (declared : List StateTarget)
    (next : DesiredSnapshot) : Prop where
  valid : ValidTargets next.targets
  slots : ∀ target, target ∈ next.targets ↔
    target ∈ declared ∨
      ∃ before ∈ (previous.map DesiredSnapshot.targets).getD [],
        target = before.tombstone ∧ before.key ∉ declared.map StateTarget.key

theorem reconcileDesiredSnapshot_ok (h : reconcileDesiredSnapshot prev decl = .ok next) :
    Reconciled prev decl next := by
  unfold reconcileDesiredSnapshot at h
  simp only [bind_ok, exists_unit, whenSome_ok, DesiredSnapshot.new_ok] at h
  obtain ⟨hprev, snap, ⟨hdecl, rfl⟩, hnext, rfl⟩ := h
  have htombstones : StrictlyOrdered
      (((prev.map DesiredSnapshot.targets).getD []).map StateTarget.tombstone) := by
    rw [StrictlyOrdered, pairwise_map]
    cases prev with
    | none => exact .nil
    | some snap => exact (validateStateTargets_ok.1 (hprev snap rfl)).ordered
  obtain ⟨-, hmem⟩ := foldl_insertTarget hdecl.ordered htombstones
  refine ⟨hnext, fun target => ?_⟩
  refine mem_sortTargets.trans ((hmem target).trans ?_)
  have hkeys : ∀ key, key ∈ (sortTargets decl).map StateTarget.key ↔
      key ∈ decl.map StateTarget.key := by
    intro key
    simp only [List.mem_map, mem_sortTargets]
  rw [hkeys, mem_sortTargets, List.mem_map]
  refine or_congr_right ⟨?_, ?_⟩
  · rintro ⟨⟨before, hbefore, rfl⟩, hkey⟩
    exact ⟨before, hbefore, rfl, hkey⟩
  · rintro ⟨before, hbefore, rfl, hkey⟩
    exact ⟨⟨before, hbefore, rfl⟩, hkey⟩

theorem Reconciled.keeps (h : Reconciled prev decl next)
    (hkey : key ∈ ((prev.map DesiredSnapshot.targets).getD []).map StateTarget.key) :
    key ∈ next.targets.map StateTarget.key := by
  obtain ⟨before, hbefore, rfl⟩ := mem_map.1 hkey
  by_cases hdecl : before.key ∈ decl.map StateTarget.key
  · obtain ⟨target, htarget, hsame⟩ := mem_map.1 hdecl
    exact mem_map.2 ⟨target, (h.slots target).2 (.inl htarget), hsame⟩
  · exact mem_map.2
      ⟨before.tombstone, (h.slots _).2 (.inr ⟨before, hbefore, rfl, hdecl⟩), rfl⟩

end Malm.Store
