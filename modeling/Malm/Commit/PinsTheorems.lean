/-
Malm.Commit.PinsTheorems — what removals and absence assertions below missing
directories look at.

While directories are missing, the leaf's name in the parent handle is some other
entry (`Namesake`). Every phase but the removal's `apply` looks it up there, so a
phase looks past namesakes only where its bindings fail first
(`looksPastNamesakes_iff`).
-/
import Malm.Commit.Pins
import Malm.Lib.Depends

namespace Malm.Commit

open Store Target List Function PinnedTarget

/-! ## 1. Names on the path -/

/-- The names on the way: the authority, what exists, and the first that is missing. -/
def PinnedTarget.pathKeys (target : PinnedTarget) : List (Nat × Text) :=
  target.chain.map Binding.key ++ (bindingsBelow target.root target.ancestors).map Binding.key ++
    (target.pending.head?.map fun head => (target.parent, head)).toList

def PinnedTarget.directories (target : PinnedTarget) : List Nat :=
  target.parent :: target.root :: target.ancestors.map Prod.snd

/-- An entry of the leaf's name in a directory above, which is not on the path. -/
structure Namesake (target : PinnedTarget) (key : Nat × Text) : Prop where
  name : key.2 = target.leaf
  above : key.1 ∈ target.directories
  offPath : key ∉ target.pathKeys

/-- The result stays the same whatever the namesakes of the target are. -/
def LooksPastNamesakes (objects : Objects) (target : PinnedTarget) (entries : Entries)
    (phase : Phase) : Prop :=
  ∀ other : Entries, (∀ key, ¬ Namesake target key → other key = entries key) →
    target.run objects other phase = target.run objects entries phase

/-- What a phase checks before it looks at the leaf. -/
def PinnedTarget.checkBindings (objects : Objects) (target : PinnedTarget) (entries : Entries) :
    Phase → Except CommitError Unit
  | .apply => target.revalidateBindings objects entries
  | .verifyApplied => target.revalidateBindingsForRecovery objects entries
  | .rollbackIncomplete => target.revalidateBindingsForRecovery objects entries
  | .rollbackPinned =>
    compareObjectIdentity (objects.identity target.parent) target.parentObject
      "pinned rollback parent object identity changed"

section Phases

variable {objects : Objects} {target : PinnedTarget} {entries : Entries} {phase : Phase}

/-! ## 2. What the checks depend on -/

variable {opening changed : String} {keys : Set (Nat × Text)} {error : CommitError}

theorem requireBound_dependsOn {binding : Binding} (h : binding.key ∈ keys) :
    DependsOn (fun entries => requireBound objects entries opening changed binding) keys := by
  intro left right hagree
  simp only [requireBound, hagree _ h]

theorem bindings_dependsOn {bindings : List Binding}
    (h : ∀ binding ∈ bindings, binding.key ∈ keys) :
    DependsOn (fun entries => bindings.forM fun binding =>
      requireBound objects entries opening changed binding) keys :=
  @DependsOn.forM _ _ _ _ _
    (fun binding entries => requireBound objects entries opening changed binding) _
    fun binding hmem => requireBound_dependsOn (h binding hmem)

theorem requirePendingHeadAbsent_dependsOn {head : Text} (h : (target.parent, head) ∈ keys) :
    DependsOn (fun entries => requirePendingHeadAbsent target entries head) keys := by
  intro left right hagree
  simp only [requirePendingHeadAbsent, hagree _ h]

theorem requireParentEntryAbsent_dependsOn {name : Text} (h : (target.parent, name) ∈ keys) :
    DependsOn (fun entries => requireParentEntryAbsent target entries name) keys := by
  intro left right hagree
  simp only [requireParentEntryAbsent, hagree _ h]

theorem compareLeafAbsent_dependsOn (h : (target.parent, target.leaf) ∈ keys) :
    DependsOn (fun entries => compareLeafAbsent target entries) keys := by
  intro left right hagree
  simp only [compareLeafAbsent, hagree _ h]

theorem mem_pathKeys {key : Nat × Text} :
    key ∈ target.pathKeys ↔ (∃ binding ∈ target.chain, binding.key = key) ∨
      (∃ binding ∈ bindingsBelow target.root target.ancestors, binding.key = key) ∨
        ∃ head, target.pending.head? = some head ∧ (target.parent, head) = key := by
  simp only [pathKeys, mem_append, mem_map, Option.mem_toList, Option.map_eq_some_iff, or_assoc]

theorem ensureBound_dependsOn :
    DependsOn (fun entries => ensureBound objects target entries) { key | key ∈ target.pathKeys } :=
  bindings_dependsOn fun binding hmem => mem_pathKeys.2 (.inl ⟨binding, hmem, rfl⟩)

theorem ensureAncestorsBound_dependsOn :
    DependsOn (fun entries => ensureAncestorsBound objects target entries opening changed)
      { key | key ∈ target.pathKeys } :=
  bindings_dependsOn fun binding hmem => mem_pathKeys.2 (.inr (.inl ⟨binding, hmem, rfl⟩))

theorem pendingHead_dependsOn {head : Text} (h : target.pending.head? = some head) :
    DependsOn (fun entries => requirePendingHeadAbsent target entries head)
      { key | key ∈ target.pathKeys } :=
  requirePendingHeadAbsent_dependsOn (mem_pathKeys.2 (.inr (.inr ⟨head, h, rfl⟩)))

theorem revalidateBindings_dependsOn (hpending : target.pending ≠ []) :
    DependsOn (fun entries => target.revalidateBindings objects entries)
      { key | key ∈ target.pathKeys } := by
  obtain ⟨head, rest, hcase⟩ := exists_cons_of_ne_nil hpending
  have hhead : target.pending.head? = some head := by rw [hcase]; rfl
  simp only [revalidateBindings, hcase]
  exact .bind ensureBound_dependsOn fun _ => .bind ensureAncestorsBound_dependsOn fun _ =>
    .bind (.const _) fun _ => .bind (.const _) fun _ => pendingHead_dependsOn hhead

theorem revalidateBindingsForRecovery_dependsOn (hpending : target.pending ≠ []) :
    DependsOn (fun entries => target.revalidateBindingsForRecovery objects entries)
      { key | key ∈ target.pathKeys } := by
  have hlast : DependsOn (fun entries => Checks.when (target.pending = [])
      (revalidateDirectoryLeaf objects target entries)) { key | key ∈ target.pathKeys } := by
    simp only [Checks.when, if_neg hpending]
    exact .const _
  exact .bind ensureBound_dependsOn fun _ => .bind ensureAncestorsBound_dependsOn fun _ =>
    .bind (.const _) fun _ => .bind (.const _) fun _ => hlast

theorem checkBindings_dependsOn (hpending : target.pending ≠ []) (phase : Phase) :
    DependsOn (fun entries => target.checkBindings objects entries phase)
      { key | key ∈ target.pathKeys } := by
  cases phase with
  | apply => exact revalidateBindings_dependsOn hpending
  | verifyApplied => exact revalidateBindingsForRecovery_dependsOn hpending
  | rollbackIncomplete => exact revalidateBindingsForRecovery_dependsOn hpending
  | rollbackPinned => exact .const _

/-- The names that a target's phases look up. -/
def PinnedTarget.lookedUp (target : PinnedTarget) : Set (Nat × Text) :=
  { key | key ∈ target.pathKeys ∨ key = (target.parent, target.leaf) ∨
    key = (target.parent, target.temporaryName "backup") }

theorem pathKeys_subset_lookedUp :
    { key | key ∈ target.pathKeys } ⊆ target.lookedUp := fun _ h => .inl h

theorem leaf_mem_lookedUp : (target.parent, target.leaf) ∈ target.lookedUp := .inr (.inl rfl)

theorem backup_mem_lookedUp : (target.parent, target.temporaryName "backup") ∈ target.lookedUp :=
  .inr (.inr rfl)

theorem rollbackAbsence_dependsOn :
    DependsOn (fun entries => target.rollbackAbsence objects entries) target.lookedUp := by
  refine .bind (requireParentEntryAbsent_dependsOn leaf_mem_lookedUp) fun _ => ?_
  cases target.kind with
  | removeLeaf => exact requireParentEntryAbsent_dependsOn backup_mem_lookedUp
  | assertAbsent => exact .const _

theorem run_dependsOn (hpending : target.pending ≠ []) (phase : Phase) :
    DependsOn (fun entries => target.run objects entries phase) target.lookedUp := by
  have hbindings := (@revalidateBindings_dependsOn objects target hpending).mono
    pathKeys_subset_lookedUp
  have hrecovery := (@revalidateBindingsForRecovery_dependsOn objects target hpending).mono
    pathKeys_subset_lookedUp
  cases phase with
  | apply =>
    show DependsOn (fun entries => target.apply objects entries) _
    unfold apply
    cases target.kind with
    | removeLeaf =>
      refine .bind hbindings fun _ => ?_
      simp only [Checks.when, if_neg hpending]
      exact .const _
    | assertAbsent =>
      exact .bind hbindings fun _ => .bind (compareLeafAbsent_dependsOn leaf_mem_lookedUp)
        fun _ => hbindings
  | verifyApplied =>
    refine .bind hrecovery fun _ =>
      .bind (requireParentEntryAbsent_dependsOn leaf_mem_lookedUp) fun _ => .bind ?_ fun _ =>
        .bind hrecovery fun _ => ?_
    · by_cases hkind : target.kind = .removeLeaf
      · simp only [Checks.when, if_pos hkind]
        exact requireParentEntryAbsent_dependsOn backup_mem_lookedUp
      · simp only [Checks.when, if_neg hkind]
        exact .const _
    · obtain ⟨head, rest, hcase⟩ := exists_cons_of_ne_nil hpending
      have hhead : target.pending.head? = some head := by rw [hcase]; rfl
      rw [hcase]
      exact (pendingHead_dependsOn hhead).mono pathKeys_subset_lookedUp
  | rollbackIncomplete => exact .bind hrecovery fun _ => rollbackAbsence_dependsOn
  | rollbackPinned => exact .bind (.const _) fun _ => rollbackAbsence_dependsOn

/-! ## 3. What the phases look at behind the bindings -/

/-- The error of a phase that finds an entry of the leaf's name. -/
def Phase.foundError : Phase → CommitError
  | .apply => .staleTarget "target leaf presence changed"
  | _ => .invalidJournal "unexpected transaction staging entry remains"

/-- The error of a phase that cannot look the leaf's name up. -/
def Phase.failedError : Phase → CommitError
  | .apply => .ioFailure "revalidate target leaf"
  | _ => .ioFailure "inspect transaction entry"

theorem Phase.foundError_ne (phase : Phase) : phase.foundError ≠ phase.failedError := by
  cases phase <;> decide

/-- The phase in which a removal looks at the bindings only. -/
def PinnedTarget.appliesRemoval (target : PinnedTarget) (phase : Phase) : Prop :=
  phase = .apply ∧ target.kind = .removeLeaf

theorem run_of_bindings_error (h : target.checkBindings objects entries phase = .error error) :
    target.run objects entries phase = .error error := by
  cases phase with
  | apply =>
    have hbindings : target.revalidateBindings objects entries = .error error := h
    simp only [run, apply, hbindings]
    cases target.kind <;> rfl
  | verifyApplied =>
    have hbindings : target.revalidateBindingsForRecovery objects entries = .error error := h
    simp only [run, verifyApplied, hbindings]
    rfl
  | rollbackIncomplete =>
    have hbindings : target.revalidateBindingsForRecovery objects entries = .error error := h
    simp only [run, rollbackIncomplete, hbindings]
    rfl
  | rollbackPinned =>
    have hparent : compareObjectIdentity (objects.identity target.parent) target.parentObject
        "pinned rollback parent object identity changed" = .error error := h
    simp only [run, rollbackPinned, hparent]
    rfl

theorem requireParentEntryAbsent_of_leaf (hphase : phase ≠ .apply)
    (hleaf : (∃ obj, entries (target.parent, target.leaf) = .found obj) ∧
        error = phase.foundError ∨
      entries (target.parent, target.leaf) = .failed ∧ error = phase.failedError) :
    requireParentEntryAbsent target entries target.leaf = .error error := by
  unfold requireParentEntryAbsent
  rcases hleaf with ⟨⟨obj, hfound⟩, rfl⟩ | ⟨hfailed, rfl⟩
  · rw [hfound]
    cases phase with
    | apply => exact absurd rfl hphase
    | _ => rfl
  · rw [hfailed]
    cases phase with
    | apply => exact absurd rfl hphase
    | _ => rfl

theorem compareLeafAbsent_of_leaf
    (hleaf : (∃ obj, entries (target.parent, target.leaf) = .found obj) ∧
        error = Phase.apply.foundError ∨
      entries (target.parent, target.leaf) = .failed ∧ error = Phase.apply.failedError) :
    compareLeafAbsent target entries = .error error := by
  unfold compareLeafAbsent
  rcases hleaf with ⟨⟨obj, hfound⟩, rfl⟩ | ⟨hfailed, rfl⟩
  · rw [hfound]
    rfl
  · rw [hfailed]
    rfl

/-- Behind its bindings, a phase fails on what has the leaf's name in the parent handle. -/
theorem run_of_leaf (hphase : ¬ target.appliesRemoval phase)
    (hbindings : target.checkBindings objects entries phase = .ok ())
    (hleaf : (∃ object, entries (target.parent, target.leaf) = .found object) ∧
        error = phase.foundError ∨
      entries (target.parent, target.leaf) = .failed ∧ error = phase.failedError) :
    target.run objects entries phase = .error error := by
  cases phase with
  | apply =>
    have hcompare := compareLeafAbsent_of_leaf hleaf
    have hrevalidated : target.revalidateBindings objects entries = .ok () := hbindings
    cases hkind : target.kind with
    | removeLeaf => exact absurd ⟨rfl, hkind⟩ hphase
    | assertAbsent =>
      simp only [run, apply, hkind, hrevalidated, hcompare]
      rfl
  | verifyApplied =>
    have hentry := requireParentEntryAbsent_of_leaf (by decide) hleaf
    have hrevalidated : target.revalidateBindingsForRecovery objects entries = .ok () := hbindings
    simp only [run, verifyApplied, hrevalidated, hentry]
    rfl
  | rollbackIncomplete =>
    have hentry := requireParentEntryAbsent_of_leaf (by decide) hleaf
    have hrevalidated : target.revalidateBindingsForRecovery objects entries = .ok () := hbindings
    simp only [run, rollbackIncomplete, rollbackAbsence, hrevalidated, hentry]
    rfl
  | rollbackPinned =>
    have hentry := requireParentEntryAbsent_of_leaf (by decide) hleaf
    have hparent : compareObjectIdentity (objects.identity target.parent) target.parentObject
        "pinned rollback parent object identity changed" = .ok () := hbindings
    simp only [run, rollbackPinned, rollbackAbsence, hparent, hentry]
    rfl

theorem looksPast_of_bindings_error (hpending : target.pending ≠ [])
    (h : target.checkBindings objects entries phase ≠ .ok ()) :
    LooksPastNamesakes objects target entries phase := by
  intro other hagree
  have hsame : target.checkBindings objects other phase =
      target.checkBindings objects entries phase :=
    checkBindings_dependsOn hpending phase fun key hkey =>
      hagree key fun hnamesake => hnamesake.offPath hkey
  cases hbindings : target.checkBindings objects entries phase with
  | ok done => exact absurd hbindings h
  | error error =>
    rw [run_of_bindings_error hbindings, run_of_bindings_error (hsame.trans hbindings)]

theorem looksPast_of_appliesRemoval (hpending : target.pending ≠ [])
    (h : target.appliesRemoval phase) : LooksPastNamesakes objects target entries phase := by
  obtain ⟨rfl, hkind⟩ := h
  intro other hagree
  have hsame : target.revalidateBindings objects other =
      target.revalidateBindings objects entries :=
    revalidateBindings_dependsOn hpending fun key hkey =>
      hagree key fun hnamesake => hnamesake.offPath hkey
  simp only [run, apply, hkind, Checks.when, if_neg hpending, hsame]

/-- Where the first missing directory has the leaf's name, the looked up name is on the path. -/
theorem looksPast_of_onPath (hpending : target.pending ≠ [])
    (h : (target.parent, target.leaf) ∈ target.pathKeys) :
    LooksPastNamesakes objects target entries phase := by
  intro other hagree
  refine run_dependsOn hpending phase fun key hkey => hagree key fun hnamesake => ?_
  rcases hkey with hpath | rfl | rfl
  · exact hnamesake.offPath hpath
  · exact hnamesake.offPath h
  · have hname : target.temporaryName "backup" = target.leaf := hnamesake.name
    rw [hname] at hnamesake
    exact hnamesake.offPath h

end Phases

/-- **When a phase looks past namesakes**: if the leaf's name in the parent handle is on the path,
or the phase applies a removal, or its bindings fail. -/
theorem looksPastNamesakes_iff {target : PinnedTarget} (hpending : target.pending ≠ [])
    (objects : Objects) (entries : Entries) (phase : Phase) :
    LooksPastNamesakes objects target entries phase ↔
      (target.parent, target.leaf) ∈ target.pathKeys ∨ target.appliesRemoval phase ∨
        target.checkBindings objects entries phase ≠ .ok () := by
  constructor
  · intro hpast
    by_contra hnone
    simp only [not_or, not_not] at hnone
    obtain ⟨hoff, hphase, hbindings⟩ := hnone
    have hnamesake : Namesake target (target.parent, target.leaf) :=
      ⟨rfl, mem_cons_self, hoff⟩
    -- the leaf's name leads to an object, or cannot be looked up
    have hresult : ∀ value error, (((∃ object, value = .found object) ∧ error = phase.foundError) ∨
        value = Lookup.failed ∧ error = phase.failedError) →
          target.run objects entries phase = .error error := by
      intro value error hvalue
      have hother := hpast (Function.update entries (target.parent, target.leaf) value)
        fun key hkey => update_of_ne (fun heq => hkey (by rw [heq]; exact hnamesake)) _ _
      rw [← hother]
      refine run_of_leaf hphase ?_ ?_
      · rw [(checkBindings_dependsOn hpending phase).update_eq hoff, hbindings]
      · rw [update_self]
        exact hvalue
    have hfound := hresult (.found target.root) _ (.inl ⟨⟨target.root, rfl⟩, rfl⟩)
    have hfailed := hresult .failed _ (.inr ⟨rfl, rfl⟩)
    exact phase.foundError_ne (Except.error.inj (hfound.symm.trans hfailed))
  · intro h
    rcases h with honPath | hremoval | herror
    · exact looksPast_of_onPath hpending honPath
    · exact looksPast_of_appliesRemoval hpending hremoval
    · exact looksPast_of_bindings_error hpending herror

/-! ## 4. An unrelated file -/

def homeIdentity (inode : Nat) (mode : BitVec 32) : FileIdentity :=
  ⟨1, inode, 1000, 1000, mode, 1, 0, 0, 0, 0, 0⟩

/-- A directory above the authority, its root, and a file. -/
def homeObjects : Objects where
  identity := fun object => homeIdentity object (if object ≤ 1 then 0o40755 else 0o100644)
  opens := fun object => object ≤ 1
  rejectTraversal := fun _ => .ok ()
  rejectDestination := fun _ => .ok ()
  syncs := fun _ => true

/-- `home` is the root of the authority, which holds `x` and nothing else. -/
def homeEntries : Entries := fun key =>
  if key = (0, "home".toList) then .found 1
  else if key = (1, "x".toList) then .found 2
  else .absent

/-- Nothing at `missing/x`, below a directory that is missing. -/
def missingObservation : TargetObservation where
  authority := "home".toList
  relativePath := "missing/x".toList
  traversalAnchor := homeIdentity 1 0o40755
  ancestors := []
  parent := homeIdentity 1 0o40755
  leaf := .absent
  missingAncestors := 1

def missingTarget (kind : AbsenceKind) : PinnedTarget where
  kind := kind
  chain := [⟨0, "home".toList, 1⟩]
  root := 1
  ancestors := []
  parent := 1
  parentObject := homeIdentity 1 0o40755
  leaf := "x".toList
  pending := ["missing".toList]
  planDigest := []
  index := 0

theorem looksPastNamesakes_missing :
    LooksPastNamesakes homeObjects (missingTarget .assertAbsent) homeEntries .apply ↔
      ((missingTarget .assertAbsent).parent, (missingTarget .assertAbsent).leaf) ∈
          (missingTarget .assertAbsent).pathKeys ∨
        (missingTarget .assertAbsent).appliesRemoval .apply ∨
        (missingTarget .assertAbsent).checkBindings homeObjects homeEntries .apply ≠ .ok () :=
  looksPastNamesakes_iff (List.cons_ne_nil _ _) homeObjects homeEntries .apply

/-- The same without the file. -/
def emptyHome : Entries := fun key => if key = (0, "home".toList) then .found 1 else .absent

/-- **An unrelated file decides.** `missing` does not exist, and the phases fail on the file `x`
of the root. -/
theorem unrelated_file_decides :
    openTarget homeObjects homeEntries 1000 [⟨0, "home".toList, 1⟩] 1 [] 0 .assertAbsent
        missingObservation = .ok (missingTarget .assertAbsent) ∧
      openTarget homeObjects homeEntries 1000 [⟨0, "home".toList, 1⟩] 1 [] 0 .removeLeaf
        missingObservation = .ok (missingTarget .removeLeaf) ∧
      homeEntries (1, "missing".toList) = .absent ∧
      (missingTarget .assertAbsent).run homeObjects homeEntries .apply =
        .error (.staleTarget "target leaf presence changed") ∧
      (missingTarget .assertAbsent).run homeObjects emptyHome .apply = .ok () ∧
      (missingTarget .removeLeaf).run homeObjects homeEntries .verifyApplied =
        .error (.invalidJournal "unexpected transaction staging entry remains") ∧
      (missingTarget .removeLeaf).run homeObjects emptyHome .verifyApplied = .ok () ∧
      (missingTarget .removeLeaf).run homeObjects homeEntries .rollbackIncomplete =
        .error (.invalidJournal "unexpected transaction staging entry remains") ∧
      (missingTarget .removeLeaf).run homeObjects emptyHome .rollbackIncomplete = .ok () ∧
      ¬ LooksPastNamesakes homeObjects (missingTarget .assertAbsent) homeEntries .apply ∧
      ¬ LooksPastNamesakes homeObjects (missingTarget .removeLeaf) homeEntries .verifyApplied ∧
      ¬ LooksPastNamesakes homeObjects (missingTarget .removeLeaf) homeEntries
        .rollbackIncomplete := by
  have hagree : ∀ kind key, ¬ Namesake (missingTarget kind) key →
      emptyHome key = homeEntries key := by
    intro kind key hkey
    have hne : key ≠ (1, "x".toList) := by
      rintro rfl
      exact hkey ⟨rfl, mem_cons_self, by cases kind <;> decide⟩
    simp only [emptyHome, homeEntries, if_neg hne]
  have hdiffer : ∀ kind phase, (missingTarget kind).run homeObjects homeEntries phase ≠ .ok () →
      (missingTarget kind).run homeObjects emptyHome phase = .ok () →
        ¬ LooksPastNamesakes homeObjects (missingTarget kind) homeEntries phase := by
    intro kind phase hfails hpasses hpast
    exact hfails ((hpast emptyHome (hagree kind)).symm.trans hpasses)
  refine ⟨by decide +kernel, by decide +kernel, by decide +kernel, by decide +kernel,
    by decide +kernel, by decide +kernel, by decide +kernel, by decide +kernel, by decide +kernel,
    ?_, ?_, ?_⟩
  · exact hdiffer _ _ (by decide +kernel) (by decide +kernel)
  · exact hdiffer _ _ (by decide +kernel) (by decide +kernel)
  · exact hdiffer _ _ (by decide +kernel) (by decide +kernel)

end Malm.Commit
