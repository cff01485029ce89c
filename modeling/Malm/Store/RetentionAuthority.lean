/-
Malm.Store.RetentionAuthority — the operations on a retention auth
(`tracked_root.rs`).

The operations search sorted vectors and change them at the index they find.
`RetentionMap` is what an auth says; every operation changes it at the entry that
it names (`retention_run`).
-/
import Malm.Store.SnapshotTheorems
import Malm.Lib.SortedList

namespace Malm.Store

open SortedList Checks List Except RetentionAuthority RetentionObject

variable {left pin right : RetentionObject}

/-! ## 1. Operations -/

def RetentionObject.key (object : RetentionObject) : Nat ×ₗ Nat := toLex object.rank

namespace RetentionAuthority

def new (history : Nat) (restorePoints : List RestorePoint)
    (explicitPins : List RetentionObject) : Except PreparedRecordError RetentionAuthority := do
  checkLimit "restore points" restorePoints.length maxRestorePoints
  checkLimit "explicit pins" explicitPins.length maxExplicitPins
  let restorePoints := restorePoints.insertionSort fun left right =>
    left.generation ≤ right.generation
  rejectDuplicates "restore point generation" (restorePoints.map RestorePoint.generation)
  let explicitPins := explicitPins.insertionSort fun left right => left.key ≤ right.key
  rejectDuplicates "explicit pin" explicitPins
  let auth : RetentionAuthority := ⟨history, restorePoints, explicitPins⟩
  validateRetentionAuthority auth none
  return auth

def withHistory (authority : RetentionAuthority) (history : Nat) :
    Except PreparedRecordError RetentionAuthority := do
  let authority := { authority with history := history }
  validateRetentionAuthority authority none
  return authority

def withRestorePoint (authority : RetentionAuthority) (restorePoint : RestorePoint) :
    Except PreparedRecordError RetentionAuthority := do
  let authority :=
    { authority with
      restorePoints := put RestorePoint.generation restorePoint authority.restorePoints }
  checkLimit "restore points" authority.restorePoints.length maxRestorePoints
  validateRetentionAuthority authority none
  return authority

def withoutRestorePoint (authority : RetentionAuthority) (generation : Digest) :
    Except PreparedRecordError RetentionAuthority :=
  match search RestorePoint.generation generation authority.restorePoints with
  | .ok index => .ok { authority with restorePoints := authority.restorePoints.eraseIdx index }
  | .error _ =>
    .error (.invalidField "restore point"
      "the selected generation is not an explicit restore point")

def withPin (authority : RetentionAuthority) (pin : RetentionObject) :
    Except PreparedRecordError RetentionAuthority :=
  match search RetentionObject.key pin.key authority.explicitPins with
  | .ok _ => .error (.invalidField "explicit pin" "the selected object is already pinned")
  | .error index => do
    let authority := { authority with explicitPins := authority.explicitPins.insertIdx index pin }
    checkLimit "explicit pins" authority.explicitPins.length maxExplicitPins
    return authority

def withoutPin (authority : RetentionAuthority) (pin : RetentionObject) :
    Except PreparedRecordError RetentionAuthority :=
  match search RetentionObject.key pin.key authority.explicitPins with
  | .ok index => .ok { authority with explicitPins := authority.explicitPins.eraseIdx index }
  | .error _ => .error (.invalidField "explicit pin" "the selected object is not pinned")

end RetentionAuthority

inductive RetentionCall where
  | withHistory (history : Nat)
  | withRestorePoint (restorePoint : RestorePoint)
  | withoutRestorePoint (generation : Digest)
  | withPin (pin : RetentionObject)
  | withoutPin (pin : RetentionObject)

def RetentionCall.apply (authority : RetentionAuthority) :
    RetentionCall → Except PreparedRecordError RetentionAuthority
  | .withHistory history => authority.withHistory history
  | .withRestorePoint restorePoint => authority.withRestorePoint restorePoint
  | .withoutRestorePoint generation => authority.withoutRestorePoint generation
  | .withPin pin => authority.withPin pin
  | .withoutPin pin => authority.withoutPin pin

/-! ## 2. What an authority says -/

/-- A history policy, restore points by generation, and pinned objects. -/
structure RetentionMap where
  history : Nat
  restorePoint : Digest → Option RestorePoint
  pinned : Set RetentionObject

def RetentionMap.after (map : RetentionMap) : RetentionCall → RetentionMap
  | .withHistory history => { map with history := history }
  | .withRestorePoint point =>
    { map with restorePoint := Function.update map.restorePoint point.generation (some point) }
  | .withoutRestorePoint generation =>
    { map with restorePoint := Function.update map.restorePoint generation none }
  | .withPin pin => { map with pinned := insert pin map.pinned }
  | .withoutPin pin => { map with pinned := map.pinned \ {pin} }

namespace RetentionAuthority

def map (authority : RetentionAuthority) : RetentionMap where
  history := authority.history
  restorePoint := lookup RestorePoint.generation authority.restorePoints
  pinned := {pin | pin ∈ authority.explicitPins}

/-- Strictly ordered, so without duplicates, and within the limits. -/
structure Canonical (authority : RetentionAuthority) : Prop where
  history : 0 < authority.history ∧ authority.history ≤ maxHistoryRetentionGenerations
  restorePoints : Sorted RestorePoint.generation authority.restorePoints
  restorePointCount : authority.restorePoints.length ≤ maxRestorePoints
  pins : Sorted RetentionObject.key authority.explicitPins
  pinCount : authority.explicitPins.length ≤ maxExplicitPins

end RetentionAuthority

theorem RetentionObject.key_injective (h : left.key = right.key) :
    left = right := by
  have hrank : left.rank = right.rank := toLex_inj.1 h
  cases left <;> cases right <;> rename_i first snd <;> cases first <;> cases snd <;>
    simp_all [rank]

theorem RetentionObject.before_iff :
    left.before right = true ↔ left.key < right.key := by
  simp [before, key, Prod.Lex.toLex_lt_toLex]

open RetentionAuthority

variable {auth next : RetentionAuthority}

theorem validateRetentionAuthority_canonical {ns : Option NamespaceName}
    (h : validateRetentionAuthority auth ns = .ok ()) : auth.Canonical := by
  simp only [validateRetentionAuthority, bind_ok, exists_unit, reject_ok,
    checkLimit_ok, not_or, not_not, not_lt] at h
  obtain ⟨hhistory, hpoints, hpins, -, hord, hpinsOrdered⟩ := h
  refine ⟨⟨Nat.pos_of_ne_zero hhistory.1, hhistory.2⟩, ?_, hpoints, ?_, hpins⟩
  · exact pairwise_map.1 hord.pairwise
  · have htrans : IsTrans RetentionObject fun left right => left.before right = true :=
      ⟨fun _ _ _ hab hbc => before_iff.2
        (lt_trans (before_iff.1 hab) (before_iff.1 hbc))⟩
    exact hpinsOrdered.pairwise.imp fun hab => before_iff.1 hab

/-! ## 3. Calls -/

theorem withHistory_step {history : Nat} (hstep : auth.withHistory history = .ok next) :
    next.Canonical ∧ next.map = auth.map.after (.withHistory history) := by
  simp only [withHistory, bind_ok, exists_unit, pure_ok] at hstep
  obtain ⟨hvalid, rfl⟩ := hstep
  exact ⟨validateRetentionAuthority_canonical hvalid, rfl⟩

section

variable (h : auth.Canonical)
include h

theorem withRestorePoint_step {point : RestorePoint}
    (hstep : auth.withRestorePoint point = .ok next) :
    next.Canonical ∧ next.map = auth.map.after (.withRestorePoint point) := by
  simp only [withRestorePoint, bind_ok, exists_unit, pure_ok] at hstep
  obtain ⟨-, hvalid, rfl⟩ := hstep
  refine ⟨validateRetentionAuthority_canonical hvalid, ?_⟩
  simp only [RetentionAuthority.map, RetentionMap.after, lookup_put h.restorePoints]
  congr!

theorem withoutRestorePoint_step {gen : Digest}
    (hstep : auth.withoutRestorePoint gen = .ok next) :
    next.Canonical ∧ next.map = auth.map.after (.withoutRestorePoint gen) := by
  unfold withoutRestorePoint at hstep
  split at hstep
  · rename_i index hsearch
    obtain rfl := ok.inj hstep
    refine ⟨⟨h.history, eraseIdx_sorted h.restorePoints index, ?_, h.pins, h.pinCount⟩, ?_⟩
    · exact (eraseIdx_sublist _ _).length_le.trans h.restorePointCount
    · simp only [RetentionAuthority.map, RetentionMap.after,
        lookup_eraseIdx h.restorePoints hsearch]
      congr!
  · cases hstep

theorem withPin_step (hstep : auth.withPin pin = .ok next) :
    next.Canonical ∧ next.map = auth.map.after (.withPin pin) := by
  unfold withPin at hstep
  split at hstep
  · cases hstep
  · rename_i index hsearch
    simp only [bind_ok, exists_unit, pure_ok, checkLimit_ok] at hstep
    obtain ⟨hcount, rfl⟩ := hstep
    have hput : auth.explicitPins.insertIdx index pin =
        put RetentionObject.key pin auth.explicitPins := by
      rw [put, hsearch]
    refine ⟨⟨h.history, h.restorePoints, h.restorePointCount, ?_, hcount⟩, ?_⟩
    · rw [hput]
      exact put_sorted h.pins pin
    · have hpinned : {other | other ∈ auth.explicitPins.insertIdx index pin} =
          insert pin {other | other ∈ auth.explicitPins} := by
        ext other
        rw [hput, Set.mem_ofPred_eq, mem_put h.pins]
        by_cases hother : other = pin
        · simp [hother]
        · have hkey : other.key ≠ pin.key := fun h => hother (RetentionObject.key_injective h)
          simp [hother, hkey]
      simp only [RetentionAuthority.map, RetentionMap.after, hpinned]

theorem withoutPin_step (hstep : auth.withoutPin pin = .ok next) :
    next.Canonical ∧ next.map = auth.map.after (.withoutPin pin) := by
  unfold withoutPin at hstep
  split at hstep
  · rename_i index hsearch
    obtain rfl := ok.inj hstep
    refine ⟨⟨h.history, h.restorePoints, h.restorePointCount, eraseIdx_sorted h.pins index, ?_⟩, ?_⟩
    · exact (eraseIdx_sublist _ _).length_le.trans h.pinCount
    · have hpinned : {other | other ∈ auth.explicitPins.eraseIdx index} =
          {other | other ∈ auth.explicitPins} \ {pin} := by
        ext other
        rw [Set.mem_ofPred_eq, mem_eraseIdx_search h.pins hsearch]
        have hkey : other.key ≠ pin.key ↔ other ≠ pin :=
          not_congr ⟨RetentionObject.key_injective, fun heq => heq ▸ rfl⟩
        simp [hkey]
      simp only [RetentionAuthority.map, RetentionMap.after, hpinned]
  · cases hstep

theorem RetentionCall.apply_step {call : RetentionCall} (hstep : call.apply auth = .ok next) :
    next.Canonical ∧ next.map = auth.map.after call := by
  cases call with
  | withHistory history => exact withHistory_step hstep
  | withRestorePoint point => exact withRestorePoint_step h hstep
  | withoutRestorePoint gen => exact withoutRestorePoint_step h hstep
  | withPin pin => exact withPin_step h hstep
  | withoutPin pin => exact withoutPin_step h hstep

end

theorem retentionCalls_run {calls : List RetentionCall} :
    ∀ {start final : RetentionAuthority}, start.Canonical →
      calls.foldlM RetentionCall.apply start = .ok final →
      final.Canonical ∧ final.map = calls.foldl RetentionMap.after start.map := by
  induction calls with
  | nil =>
    intro start final hstart hrun
    obtain rfl := ok.inj hrun
    exact ⟨hstart, rfl⟩
  | cons call rest ih =>
    intro start final hstart hrun
    rw [foldlM_cons, bind_ok] at hrun
    obtain ⟨next, hstep, hrun⟩ := hrun
    obtain ⟨hnext, hafter⟩ := RetentionCall.apply_step hstart hstep
    obtain ⟨hfinal, hfinalMap⟩ := ih hnext hrun
    exact ⟨hfinal, by rw [hfinalMap, hafter, foldl_cons]⟩

theorem new_step {history : Nat} {points : List RestorePoint} {pins : List RetentionObject}
    (hnew : new history points pins = .ok auth) :
    auth.Canonical ∧ auth.map.history = history ∧
      (∀ gen point, auth.map.restorePoint gen = some point ↔
        point ∈ points ∧ point.generation = gen) ∧
      auth.map.pinned = {pin | pin ∈ pins} := by
  simp only [new, bind_ok, exists_unit, pure_ok] at hnew
  obtain ⟨-, -, -, -, hvalid, rfl⟩ := hnew
  have hcanon := validateRetentionAuthority_canonical hvalid
  refine ⟨hcanon, rfl, ?_, ?_⟩
  · intro gen point
    refine (lookup_eq_some hcanon.restorePoints).trans ?_
    rw [(perm_insertionSort _ points).mem_iff]
  · ext pin
    exact (perm_insertionSort _ pins).mem_iff

/-- **Retention runs.** Whatever the calls build is ordered, unique, within the limits, and says
what they said. -/
theorem retention_run {history : Nat} {points : List RestorePoint} {pins : List RetentionObject}
    {start final : RetentionAuthority} {calls : List RetentionCall}
    (hnew : new history points pins = .ok start)
    (hrun : calls.foldlM RetentionCall.apply start = .ok final) :
    final.Canonical ∧ final.map = calls.foldl RetentionMap.after start.map ∧
      start.map.history = history ∧
      (∀ gen point, start.map.restorePoint gen = some point ↔
        point ∈ points ∧ point.generation = gen) ∧
      start.map.pinned = {pin | pin ∈ pins} := by
  obtain ⟨hstart, hmap⟩ := new_step hnew
  obtain ⟨hfinal, hfinalMap⟩ := retentionCalls_run hstart hrun
  exact ⟨hfinal, hfinalMap, hmap⟩

def plainPoint (generation : Nat) : RestorePoint where
  namespaceName := ['a']
  generation := ⟨generation⟩
  lifecycle := .enabled
  desiredSnapshotDigest := ⟨0⟩
  trackedRoot := none

theorem retention_run_plain :
    ∃ final, (⟨7, [plainPoint 1, plainPoint 2], []⟩ : RetentionAuthority).map.after
        (.withRestorePoint (plainPoint 3)) = RetentionAuthority.map final ∧ final.Canonical :=
  have h := @retention_run 7 [plainPoint 2, plainPoint 1] []
    ⟨7, [plainPoint 1, plainPoint 2], []⟩ ⟨7, [plainPoint 1, plainPoint 2, plainPoint 3], []⟩
    [.withRestorePoint (plainPoint 3)] (by decide) (by decide)
  ⟨_, h.2.1.symm, h.1⟩

end Malm.Store
