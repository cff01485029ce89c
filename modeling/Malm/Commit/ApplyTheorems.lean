/-
Malm.Commit.ApplyTheorems — a commit beside unmanaged files.

On two target systems that differ in additional files the operations of one plan fail or
succeed together, when nothing additional lies at or above a destination, and nothing below
it either unless it asserts a directory (`Apart`).
-/
import Malm.Commit.Apply
import Malm.Lib.Lockstep
import Malm.Target.Unmanaged

namespace Malm.Commit

open Store Target Checks List Lockstep

variable {objects : CanonicalObjects} {uid : Nat} {stamps : TargetKey → Stamp}
variable {extras : Extras} {bare full : TargetSystem}

/-! ## 1. Exact states -/

variable {key : TargetKey} {obs : TargetObservation}

variable {op : PreparedOperation}

theorem isWithin_joinPath (hkey : key.2 ≠ []) (name : Text) :
    isWithin key (key.1, joinPath key.2 name) = true := by
  have hjoin : joinPath key.2 name = key.2 ++ '/' :: name := by
    unfold joinPath
    rw [if_neg (by simpa using hkey)]
  have hbelow : key.2.isAncestor (joinPath key.2 name) = true := by
    rw [hjoin, Text.isAncestor_iff]
    exact ⟨name, rfl⟩
  simp [isWithin, isBelow, hbelow]

theorem joinPath_ne_nil {parent : Text} (h : parent ≠ []) (name : Text) :
    joinPath parent name ≠ [] := by
  unfold joinPath
  rw [if_neg (by simpa using h)]
  simp

section Same

variable {left right : TargetSystem}

theorem requireFile_eq (h : left.entry key = right.entry key) (opening : String)
    (differs contentDiffers : CommitError) (mode : BitVec 32) (data : Contents) :
    requireFile uid left opening differs contentDiffers key mode data =
      requireFile uid right opening differs contentDiffers key mode data := by
  unfold requireFile
  rw [h]

theorem requireSymlinkTarget_eq (h : left.entry key = right.entry key) (expected : Text) :
    requireSymlinkTarget uid left key expected = requireSymlinkTarget uid right key expected := by
  unfold requireSymlinkTarget
  rw [h]

theorem directoryEntryNames_eq (h : SameWithin left right key) (hkey : key.2 ≠ []) :
    directoryEntryNames left key = directoryEntryNames right key := by
  unfold directoryEntryNames
  refine sortedSet_congr fun name => ?_
  rw [mem_filterMap, mem_filterMap]
  refine exists_congr fun cand => and_congr_left fun hname => ?_
  dsimp only at hname
  split at hname
  · rename_i hchild
    obtain ⟨hauth, -, hparent⟩ := hchild
    have hlast : (ofLex cand).2.ancestorPaths.getLast? = some key.2 := by
      cases hlast : (ofLex cand).2.ancestorPaths.getLast? with
      | none =>
        rw [hlast] at hparent
        exact absurd hparent.symm hkey
      | some parent =>
        rw [hlast] at hparent
        exact congrArg some hparent
    have hbelow := mem_ancestorPaths_iff.1 (mem_of_getLast? hlast)
    exact h.mem_keys (by simp [isWithin, isBelow, hauth, hbelow])
  · cases hname

theorem requireTreeDirectory_eq (depthLeft : Nat) (d : Digest) (h : SameWithin left right key)
    (hkey : key.2 ≠ []) : requireTreeDirectory objects uid left depthLeft key d =
      requireTreeDirectory objects uid right depthLeft key d := by
  induction depthLeft generalizing key d with
  | zero => rfl
  | succ depthLeft ih =>
    unfold requireTreeDirectory
    rw [h.entry, directoryEntryNames_eq h hkey]
    refine bind_congr fun tree => bind_congr fun e => bind_congr fun _ => bind_congr fun _ =>
      bind_congr fun _ => forM_congr fun member _ => ?_
    have hchild := h.within (isWithin_joinPath hkey member.name)
    dsimp only
    cases member.kind with
    | file d byteLen => simp only [requireLeafBytes, requireFile_eq hchild.entry]
    | symlink d => simp only [requireSymlinkTarget_eq hchild.entry]
    | directory d => exact ih d hchild (joinPath_ne_nil hkey member.name)

theorem requireEntryAbsent_eq (h : left.entry key = right.entry key) :
    requireEntryAbsent left key = requireEntryAbsent right key := by
  unfold requireEntryAbsent
  rw [h]

theorem requireTargetState_eq (h : left.entry key = right.entry key) (hkey : key.2 ≠ [])
    (state : StateTargetState)
    (hsame : SameWithin left right key ∨ ∃ dir, state = .directory (some dir)) :
    requireTargetState objects uid left key state =
      requireTargetState objects uid right key state := by
  have habsent := requireEntryAbsent_eq h
  unfold requireTargetState
  rcases state with (_ | file) | (_ | dir) | (_ | symlink) | (_ | tree)
  · exact habsent
  · exact requireFile_eq h _ _ _ _ _
  · exact habsent
  · show requireDirectoryState uid left key dir.mode = _
    unfold requireDirectoryState
    rw [h]
  · exact habsent
  · exact bind_congr fun t => requireSymlinkTarget_eq h t
  · exact habsent
  · rcases hsame with hsame | ⟨dir, hstate⟩
    · exact requireTreeDirectory_eq _ _ hsame hkey
    · cases hstate

end Same

/-! ## 2. Bindings and leaves -/

theorem existingPaths_above {path : Text} (h : path ∈ existingPaths obs) :
    path ∈ directoriesAbove obs.relativePath :=
  mem_cons_of_mem _ (mem_of_mem_take h)

theorem pendingPrefixes_above {created : List TargetKey} {path : Text}
    (h : path ∈ pendingPrefixes created obs) :
    path ∈ obs.relativePath.ancestorPaths :=
  mem_of_mem_drop ((dropWhile_sublist _).subset h)

section

variable (h : Target.Extends extras bare full)
include h

theorem revalidateBindings_eq (hclear : Clear extras obs.key) (created : List TargetKey) :
    revalidateBindings full created obs = revalidateBindings bare created obs := by
  have habove : ∀ path ∈ directoriesAbove obs.relativePath,
      full.entry (obs.authority, path) = bare.entry (obs.authority, path) :=
    fun path hpath => h.entry_above hclear hpath
  unfold revalidateBindings
  have hpinned : ∀ pinned ∈ pinnedDirectories obs,
      full.entry (obs.authority, pinned.1) =
        bare.entry (obs.authority, pinned.1) := by
    intro pinned hpinned
    rcases mem_cons.1 hpinned with rfl | hpinned
    · exact habove [] mem_cons_self
    · exact habove pinned.1 (existingPaths_above (of_mem_zip hpinned).1)
  rw [forM_congr fun pinned hmem => by
    show (do
      let entry ← require (full.entry (obs.authority, pinned.1)) _
      _) = _
    rw [hpinned pinned hmem]]
  refine bind_congr fun _ => ?_
  cases hpend : (pendingPrefixes created obs).head? with
  | none => rfl
  | some path =>
    have hpath := habove path
      (mem_cons_of_mem _ (pendingPrefixes_above (mem_of_mem_head? hpend)))
    show reject (full.entry (obs.authority, path)).isSome _ = _
    rw [hpath]
    rfl

theorem compareLeaf_eq (hnone : extras key = none) (expected : LeafObservation) :
    compareLeaf full key expected = compareLeaf bare key expected := by
  unfold compareLeaf
  rw [h.entry_of_none hnone]

theorem revalidate_eq (hclear : Clear extras obs.key) (created : List TargetKey) :
    revalidate full created obs = revalidate bare created obs := by
  unfold revalidate
  rw [revalidateBindings_eq h hclear, compareLeaf_eq h hclear.none]

end

theorem discardLeaf_eq (h : Target.Extends extras bare full) (hclear : Clear extras op.key)
    (hfree : Free extras op.key) (hkey : op.key.2 ≠ [])
    (prior : Option StateTargetState) :
    discardLeaf objects uid full prior op =
      discardLeaf objects uid bare prior op := by
  have hentry := h.entry_eq hclear
  have hempty := h.isEmptyDirectory_eq hfree
  have hrem : requireEmptyDirectoryEntry full op.key =
      requireEmptyDirectoryEntry bare op.key := by
    unfold requireEmptyDirectoryEntry
    rw [hentry, hempty]
  have hprior : ∀ state, requirePriorRemovalState objects uid full op.key state =
      requirePriorRemovalState objects uid bare op.key state := by
    intro state
    unfold requirePriorRemovalState
    rw [requireTargetState_eq hentry hkey state (Or.inl (h.same hfree)), hrem]
  have hbackup : requirePriorBackupState objects uid full prior op.key =
      requirePriorBackupState objects uid bare prior op.key := by
    unfold requirePriorBackupState
    rw [funext hprior]
  have hremovable : requireRemovableDirectory objects uid full prior op.key =
      requireRemovableDirectory objects uid bare prior op.key := by
    unfold requireRemovableDirectory
    rw [hbackup, hrem]
  have hpin : pinPreparedSource full op.key = pinPreparedSource bare op.key := by
    unfold pinPreparedSource
    rw [hentry]
  unfold discardLeaf
  rw [hentry]
  refine congrArg (whenSome _) (funext fun entry => ?_)
  have haside : moveAside objects uid full prior op entry =
      moveAside objects uid bare prior op entry := by
    unfold moveAside
    rw [hremovable, hpin, hbackup]
  have hfinish : finishPriorBackup objects uid full prior op.key entry =
      finishPriorBackup objects uid bare prior op.key entry := by
    unfold finishPriorBackup
    rw [funext hprior, hempty]
  rw [haside, hfinish]

/-! ## 3. Placements -/

theorem placeEntry_lockstep (h : Target.Extends extras bare full) (placed : Entry)
    (hclear : Clear extras key) (hfree : Free extras key) :
    Lockstep (Target.Extends extras) (placeEntry bare key placed) (placeEntry full key placed) := by
  unfold placeEntry
  have hparents := h.hasParents_eq hclear
  by_cases hplace : key.2 ≠ [] ∧ bare.hasParents key = true
  · rw [dif_pos hplace, dif_pos ⟨hplace.1, hparents.trans hplace.2⟩]
    exact .ok (h.replace hplace.1 hplace.2 _ hfree)
  · rw [dif_neg hplace, dif_neg (by rwa [hparents])]
    exact .error _

theorem unlinkEntry_extends (h : Target.Extends extras bare full) (hfree : Free extras key) :
    Target.Extends extras (unlinkEntry bare key) (unlinkEntry full key) := by
  unfold unlinkEntry
  split
  · rename_i hkey
    exact h.remove hkey hfree
  · exact h

theorem materializeTreeDirectory_lockstep :
    ∀ (depthLeft : Nat) {bare full : TargetSystem} {key : TargetKey} (d : Digest),
      Target.Extends extras bare full → Clear extras key → Free extras key → key.2 ≠ [] →
      Lockstep (Target.Extends extras)
        (materializeTreeDirectory objects uid stamps depthLeft key d bare)
        (materializeTreeDirectory objects uid stamps depthLeft key d full)
  | 0, _, _, _, _, _, _, _, _ => .error _
  | depthLeft + 1, bare, full, key, d, h, hclear, hfree, hkey => by
    unfold materializeTreeDirectory
    refine bind_eq rfl fun tree _ => ?_
    refine bind (placeEntry_lockstep h _ hclear hfree) fun bare' full' h' => ?_
    refine foldlM (fun member _ bare full h => ?_) h'
    have hwithin := isWithin_joinPath hkey member.name
    have hclear' := hclear.within hfree hwithin
    have hfree' := hfree.within hwithin
    dsimp only
    cases member.kind with
    | file d byteLen =>
      exact bind_eq rfl fun bytes _ => placeEntry_lockstep h _ hclear' hfree'
    | symlink d =>
      exact bind_eq rfl fun t _ => placeEntry_lockstep h _ hclear' hfree'
    | directory d =>
      exact materializeTreeDirectory_lockstep depthLeft d h hclear' hfree'
        (joinPath_ne_nil hkey member.name)

/-! ## 4. One plan on two systems -/

def assertsDirectory : PreparedOperation → Bool
  | .assertExact _ (.directory (some _)) => true
  | _ => false

/-- The directories that the operations of a plan create. -/
def createdKeys (operations : List PreparedOperation) : List TargetKey :=
  operations.reverse.filterMap fun op =>
    match op with
    | .ensureDirectory obs _ => some obs.key
    | _ => none

/-- An operation that does not come near an additional file, once directories are created. -/
structure Apart (extras : Extras) (created : List TargetKey) (operation : PreparedOperation) :
    Prop where
  path : operation.key.2 ≠ []
  clear : Clear extras operation.key
  free : assertsDirectory operation = true ∨ Free extras operation.key
  changes : ∀ obs, operation ≠ .assertAbsent obs
  leaf : ∀ obs, operation = .removeLeaf obs →
    extras (pinnedLeaf created obs) = none

variable {created : List TargetKey}

theorem Apart.freeOf (h : Apart extras created op)
    (hasserts : assertsDirectory op = false) : Free extras op.key := by
  rcases h.free with hdir | hfree
  · rw [hasserts] at hdir
    cases hdir
  · exact hfree

theorem verifyPriorState_eq (h : Target.Extends extras bare full)
    (hapart : Apart extras created op) :
    verifyPriorState objects uid full op = verifyPriorState objects uid bare op := by
  unfold verifyPriorState
  split
  · rename_i obs s
    refine requireTargetState_eq (h.entry_eq hapart.clear) hapart.path s ?_
    rcases hapart.free with hdir | hfree
    · rcases s with (_ | _) | (_ | dir) | (_ | _) | (_ | _) <;> cases hdir
      exact Or.inr ⟨dir, rfl⟩
    · exact Or.inl (h.same hfree)
  · rfl

/-- The states of two commits of one plan. -/
structure ApplyRelated (extras : Extras) (bare full : ApplyState) : Prop where
  system : Target.Extends extras bare.system full.system
  created : full.created = bare.created

section

variable {bare full : ApplyState} (h : ApplyRelated extras bare full)
  (hapart : Apart extras created op)

include h hapart

theorem publishStagedEntry_lockstep (hasserts : assertsDirectory op = false)
    (prior : Option StateTargetState) {place : TargetSystem → Except CommitError TargetSystem}
    (hplace : Lockstep (Target.Extends extras) (place bare.system) (place full.system)) :
    Lockstep (Target.Extends extras) (publishStagedEntry objects uid prior op bare place)
      (publishStagedEntry objects uid prior op full place) := by
  unfold publishStagedEntry
  rw [h.created, revalidate_eq h.system hapart.clear,
    discardLeaf_eq h.system hapart.clear (hapart.freeOf hasserts) hapart.path]
  exact bind_eq rfl fun _ _ => bind_eq rfl fun _ _ => hplace

theorem applyCanonical_lockstep (prev : Option StateGeneration) :
    Lockstep (ApplyRelated extras) (applyCanonical objects uid stamps prev bare op)
      (applyCanonical objects uid stamps prev full op) := by
  unfold applyCanonical
  cases op with
  | ensureDirectory obs mode =>
    unfold applyDirectory
    have hplace := placeEntry_lockstep h.system
      (createdEntry uid (stamps obs.key) mode .directory) hapart.clear
      (hapart.freeOf rfl)
    refine bind (publishStagedEntry_lockstep h hapart rfl _ hplace) ?_
    intro bare' full' h'
    refine bind_eq rfl fun _ _ => .ok ⟨h', ?_⟩
    rw [h.created]
  | placeSymlink obs obj replaces =>
    refine bind_eq rfl fun t _ => ?_
    have hplace := placeEntry_lockstep h.system
      (createdEntry uid (stamps obs.key) 0o777 (.symlink t)) hapart.clear
      (hapart.freeOf rfl)
    exact bind (publishStagedEntry_lockstep h hapart rfl _ hplace)
      fun bare' full' h' => .ok ⟨h', h.created⟩
  | placeTree obs tree provenance replaces =>
    refine bind (publishStagedEntry_lockstep h hapart rfl _ ?_)
      fun bare' full' h' => .ok ⟨h', h.created⟩
    exact materializeTreeDirectory_lockstep (maxTreeDepth + 1) tree h.system hapart.clear
      (hapart.freeOf rfl) hapart.path
  | assertAbsent obs => exact absurd rfl (hapart.changes obs)
  | placeFile obs artifactId mode replaces => exact .ok h
  | removeLeaf obs => exact .ok h
  | assertExact obs s => exact .ok h

theorem revalidatePhased_eq :
    revalidatePhased full op = revalidatePhased bare op := by
  unfold revalidatePhased
  rw [h.created, revalidate_eq h.system hapart.clear]

theorem checkReplacement_eq (prev : Option StateGeneration) :
    checkReplacement objects uid prev full op =
      checkReplacement objects uid prev bare op := by
  unfold checkReplacement
  split
  · exact discardLeaf_eq h.system hapart.clear (hapart.freeOf rfl) hapart.path _
  · rename_i obs
    have hbindings := revalidateBindings_eq h.system hapart.clear bare.created
    dsimp only [PreparedOperation.observation] at hbindings ⊢
    rw [h.created, hbindings, discardLeaf_eq h.system hapart.clear (hapart.freeOf rfl) hapart.path]
  · rfl

end

theorem renameToBackup_extends (h : Target.Extends extras bare full)
    (hapart : Apart extras created op) :
    Target.Extends extras (renameToBackup bare op) (renameToBackup full op) := by
  unfold renameToBackup
  split
  · exact unlinkEntry_extends h (hapart.freeOf rfl)
  · split
    · exact unlinkEntry_extends h (hapart.freeOf rfl)
    · exact h
  · exact h

theorem foldl_renameToBackup_extends :
    ∀ {ops : List PreparedOperation} {bare full : TargetSystem},
      (∀ op ∈ ops, Apart extras created op) → Target.Extends extras bare full →
      Target.Extends extras (ops.foldl renameToBackup bare)
        (ops.foldl renameToBackup full)
  | [], _, _, _, h => h
  | op :: rest, bare, full, hapart, h => by
    have hstep := renameToBackup_extends h (hapart op mem_cons_self)
    rw [foldl_cons, foldl_cons]
    exact foldl_renameToBackup_extends
      (fun item hitem => hapart item (mem_cons_of_mem op hitem)) hstep

theorem renameIntoPlace_lockstep (h : Target.Extends extras bare full)
    (hapart : Apart extras created op) (blobs : List (ArtifactId × Contents)) :
    Lockstep (Target.Extends extras) (renameIntoPlace uid stamps blobs bare op)
      (renameIntoPlace uid stamps blobs full op) := by
  unfold renameIntoPlace
  split
  · exact bind_eq rfl fun data _ =>
      placeEntry_lockstep h _ hapart.clear (hapart.freeOf rfl)
  · exact .ok h

theorem verifyApplied_eq {bare full : ApplyState} (h : ApplyRelated extras bare full)
    (hapart : Apart extras bare.created op) (blobs : List (ArtifactId × Contents)) :
    verifyApplied objects uid blobs full op =
      verifyApplied objects uid blobs bare op := by
  have hnone := hapart.clear.none
  have hentry := h.system.entry_eq hapart.clear
  unfold verifyApplied
  cases op with
  | placeFile obs artifactId mode replaces =>
    exact bind_congr fun data => requireFile_eq hentry _ _ _ _ _
  | ensureDirectory obs mode =>
    show requireManagedDirectory uid full.system _ mode = _
    unfold requireManagedDirectory
    rw [hentry]
  | placeSymlink obs obj replaces =>
    exact bind_congr fun t => requireSymlinkTarget_eq hentry t
  | placeTree obs tree provenance replaces =>
    exact requireTreeDirectory_eq _ _ (h.system.same (hapart.freeOf rfl)) hapart.path
  | removeLeaf obs =>
    show requireEntryAbsent full.system (pinnedLeaf full.created obs) = _
    rw [h.created]
    exact requireEntryAbsent_eq (h.system.entry_of_none (hapart.leaf obs rfl))
  | assertAbsent obs => exact absurd rfl (hapart.changes obs)
  | assertExact obs state =>
    have hstate : requireTargetState objects uid full.system obs.key state =
        requireTargetState objects uid bare.system obs.key state :=
      verifyPriorState_eq h.system hapart
    dsimp only
    rw [compareLeaf_eq h.system hnone]
    exact congrArg (· >>= fun _ => compareLeaf bare.system obs.key obs.leaf) hstate

theorem applyCanonical_created {prev : Option StateGeneration} {state next : ApplyState}
    (h : applyCanonical objects uid stamps prev state op = .ok next) :
    next.created = createdKeys [op] ++ state.created := by
  unfold applyCanonical at h
  cases op with
  | ensureDirectory obs mode =>
    simp only [applyDirectory, bind_ok, exists_unit, pure_ok] at h
    obtain ⟨system, -, -, rfl⟩ := h
    rfl
  | placeSymlink obs obj replaces =>
    simp only [bind_ok, pure_ok] at h
    obtain ⟨t, -, system, -, rfl⟩ := h
    rfl
  | placeTree obs tree provenance replaces =>
    simp only [bind_ok, pure_ok] at h
    obtain ⟨system, -, rfl⟩ := h
    rfl
  | assertAbsent obs =>
    simp only [bind_ok, exists_unit, pure_ok] at h
    rw [← h.2.2]
    rfl
  | placeFile obs artifactId mode replaces => cases h; rfl
  | removeLeaf obs => cases h; rfl
  | assertExact obs s => cases h; rfl

theorem foldlM_applyCanonical_created {prev : Option StateGeneration} :
    ∀ {ops : List PreparedOperation} {state next : ApplyState},
      ops.foldlM (applyCanonical objects uid stamps prev) state = .ok next →
      next.created = createdKeys ops ++ state.created
  | [], state, next, h => by
    rw [foldlM_nil, pure_ok] at h
    rw [← h]
    rfl
  | op :: rest, state, next, h => by
    rw [foldlM_cons, bind_ok] at h
    obtain ⟨mid, hfirst, hrest⟩ := h
    have hkeys : createdKeys (op :: rest) = createdKeys rest ++ createdKeys [op] := by
      simp only [createdKeys, reverse_cons, filterMap_append, reverse_nil, nil_append]
    rw [foldlM_applyCanonical_created hrest, applyCanonical_created hfirst, hkeys, append_assoc]

theorem applyTargets_lockstep (h : Target.Extends extras bare full)
    {ops : List PreparedOperation} (hapart : ∀ op ∈ ops,
      Apart extras (createdKeys ops) op) (prev : Option StateGeneration)
    (blobs : List (ArtifactId × Contents)) :
    Lockstep (Target.Extends extras)
      (applyTargets objects uid stamps prev blobs ops bare)
      (applyTargets objects uid stamps prev blobs ops full) := by
  unfold applyTargets
  refine bind_eq (forM_congr fun op hop => ?_) fun _ _ => ?_
  · rw [revalidate_eq h (hapart op hop).clear, verifyPriorState_eq h (hapart op hop)]
  have hstart : ApplyRelated extras ⟨bare, []⟩ ⟨full, []⟩ := ⟨h, rfl⟩
  have hcanonical : Lockstep (ApplyRelated extras)
      (ops.foldlM (applyCanonical objects uid stamps prev) ⟨bare, []⟩)
      (ops.foldlM (applyCanonical objects uid stamps prev) ⟨full, []⟩) :=
    foldlM (fun op hop bare full h =>
      applyCanonical_lockstep h (hapart op hop) prev) hstart
  refine bind hcanonical.with_ok fun bare' full' ⟨hfold, h'⟩ => ?_
  have hcreated : bare'.created = createdKeys ops := by
    rw [foldlM_applyCanonical_created hfold, append_nil]
  rw [← hcreated] at hapart
  refine bind_eq (forM_congr fun op hop =>
    (revalidatePhased_eq h' (hapart op hop)).symm) fun _ _ => ?_
  refine bind_eq (forM_congr fun op hop =>
    (checkReplacement_eq h' (hapart op hop) prev).symm) fun _ _ => ?_
  refine bind (foldlM (fun op hop bare full h =>
    renameIntoPlace_lockstep h (hapart op hop) blobs)
    (foldl_renameToBackup_extends hapart h'.system)) ?_
  intro bare'' full'' h''
  have hrelated : ApplyRelated extras ⟨bare'', bare'.created⟩ ⟨full'', full'.created⟩ :=
    ⟨h'', h'.created⟩
  refine bind_eq (forM_congr fun op hop =>
    (verifyApplied_eq hrelated (hapart op hop) blobs).symm) fun _ _ => ?_
  exact .ok h''

end Malm.Commit
