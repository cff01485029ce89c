/-
Malm.Engine.UnmanagedPlans — the plan of a reconciliation beside unmanaged files.

Which recorded targets a reconciliation removes is known from its predecessor and its
request (`Removed`). An additional file is in its way in two cases only: it stands in a
removed directory that is otherwise empty, or it has the name of a removed leaf, in the
directory above the first missing one (`Spares`).

  1. Removals      — the first missing directory and where the commit looks for the leaf.
  2. Mutations     — every required mutation is away from the files, asserts a directory,
                     or removes a directory that is not empty without them (`Harmless`).
  3. Operations    — the prepared operations are `Apart` from the files.
  4. One plan      — both systems derive the same plan.
-/
import Malm.Engine.CoverageTheorems

namespace Malm.Engine

open Store Commit Target Checks List

variable {config : EngineConfig} {extras : Extras} {bare full : TargetSystem}
    {system : TargetSystem} {observed : ObservedIdentities} {obs : TargetObservation}
    {artifactId : Digest → Nat → Except EngineError ArtifactId}
  {prev : Option StateGeneration} {artifacts : List PreparedArtifact}
  {observed : ObservedIdentities} {key : TargetKey}
  {req synthesized : List PrepareOperation} {desired : DesiredSnapshot}

/-! ## 1. Removals -/

/-- A recorded target that goes: it is not declared, and nothing recorded or declared is below it
when it is a directory. -/
structure Removed (generation : StateGeneration) (requested : List PrepareOperation)
    (target : StateTarget) : Prop where
  enabled : generation.lifecycle.isEnabled = true
  recorded : target ∈ generation.targets
  present : target.isPresent = true
  undeclared : ∀ op ∈ requested, op.key ≠ target.key
  alone : isPresentDirectory target.state = true →
    (∀ other ∈ generation.targets, other.isPresent = true →
      isBelow target.key other.key = false) ∧
    ∀ op ∈ requested, isBelow target.key op.key = false

def firstMissing (system : TargetSystem) (key : TargetKey) : Option Text :=
  key.2.ancestorPaths.find? fun path => (system.entry (key.1, path)).isNone

/-- The name of a leaf in the directory above a missing one. -/
def besideMissing (key : TargetKey) (missing : Text) : TargetKey :=
  (key.1, joinPath (missing.ancestorPaths.getLast?.getD []) (key.2.segments.getLast?.getD []))

/-- No additional file blocks a removal. -/
structure Spares (extras : Extras) (system : TargetSystem) (previous : Option StateGeneration)
    (requested : List PrepareOperation) : Prop where
  directories : ∀ generation, previous = some generation →
    ∀ target, Removed generation requested target → isPresentDirectory target.state = true →
      system.isEmptyDirectory target.key = true →
      ∀ file, (extras file).isSome = true → isBelow target.key file = false
  leaves : ∀ generation, previous = some generation →
    ∀ target, Removed generation requested target →
      ∀ missing, firstMissing system target.key = some missing →
      (∀ op ∈ requested, isBelow (target.key.1, missing) op.key = false) →
      extras (besideMissing target.key missing) = none

theorem pendingPrefixes_eq {created : List TargetKey} :
    pendingPrefixes created obs =
      (missingPaths obs).dropWhile fun path => decide ((obs.authority, path) ∈ created) := by
  unfold pendingPrefixes existingPaths missingPaths
  rw [length_take, Nat.min_eq_left (Nat.sub_le _ _)]

theorem firstMissing_of_walked {first : Text} {rest : List Text}
    (h : WalkedTo config bare key (first :: rest)) : firstMissing bare key = some first := by
  obtain ⟨passed, hsplit, hpassed⟩ := h.split
  have hnone : bare.entry (key.1, first) = none := h.first first rfl
  have hthere : passed.find? (fun path => (bare.entry (key.1, path)).isNone) = none := by
    rw [find?_eq_none]
    intro path hpath
    obtain ⟨e, hentry, -⟩ := (hpassed path (mem_cons_of_mem _ hpath)).passed
    rw [hentry]
    exact Bool.false_ne_true
  unfold firstMissing
  rw [hsplit, find?_append, hthere, Option.none_or, find?_cons_of_pos (by rw [hnone]; rfl)]

/-- A leaf is looked for at its place, below a created directory, or beside the first missing
one. -/
theorem pinnedLeaf_walked {created : List TargetKey}
    (h : WalkedTo config bare obs.key (missingPaths obs)) :
    pinnedLeaf created obs = obs.key ∨
      ∃ first ∈ (missingPaths obs).head?,
        if (obs.authority, first) ∈ created then
          isWithin (obs.authority, first) (pinnedLeaf created obs) = true
        else
          pinnedLeaf created obs = besideMissing obs.key first := by
  unfold pinnedLeaf
  rw [pendingPrefixes_eq]
  cases hmiss : missingPaths obs with
  | nil => exact .inl rfl
  | cons first rest =>
    rw [hmiss] at h
    split
    · exact .inl rfl
    · rename_i head tail hpend
      refine .inr ⟨first, rfl, ?_⟩
      split
      · rename_i hcreated
        -- The pending directories lie below the created one.
        rw [dropWhile_cons, if_pos (decide_eq_true hcreated)] at hpend
        have hhead : head ∈ rest :=
          (dropWhile_sublist _).subset (hpend ▸ mem_cons_self)
        obtain ⟨passed, hsplit, hpassed⟩ := h.split
        obtain ⟨front, behind, rfl⟩ := append_of_mem hhead
        have hlist : obs.relativePath.ancestorPaths = (passed ++ first :: front) ++ head :: behind :=
          hsplit.trans (by simp)
        have habove : first ∈ head.ancestorPaths := by
          rw [ancestorPaths_split hlist]
          simp
        have hparent := @isWithin_parent obs.authority _ _ habove
        refine isWithin_trans hparent (isWithin_joinPath ?_ _)
        intro hnil
        obtain ⟨root, hroot, -⟩ := (hpassed [] mem_cons_self).passed
        have hnone := h.first first rfl
        rw [show head.ancestorPaths.getLast?.getD [] = [] from hnil] at hparent
        simp only [isWithin, isBelow, Bool.or_eq_true, Bool.and_eq_true, decide_eq_true_eq,
          Prod.mk.injEq] at hparent
        rcases hparent with ⟨-, rfl⟩ | ⟨-, hbelow⟩
        · rw [hroot] at hnone
          cases hnone
        · exact isAncestor_ne_nil hbelow rfl
      · rename_i hmissing
        rw [dropWhile_cons, if_neg (by simpa using hmissing)] at hpend
        obtain ⟨rfl, -⟩ := cons.inj hpend
        rfl

theorem isEmptyDirectory_of_observed {asked : PrepareOperation}
    (h : ObservedAt config bare prev asked obs)
    (hdestructive : destructiveDirectoryChange asked = true)
    (hprior : priorIsManagedTree prev asked.key = false) :
    bare.isEmptyDirectory asked.key = true := by
  cases hempty : bare.isEmptyDirectory asked.key with
  | true => rfl
  | false =>
    -- What is below makes it a directory, which the observation has looked into.
    have hbelow := hempty
    simp only [TargetSystem.isEmptyDirectory, Bool.not_eq_false', any_eq_true, Bool.and_eq_true,
      decide_eq_true_eq] at hbelow
    obtain ⟨cand, hcand, hauth, hbelow⟩ := hbelow
    obtain ⟨found, hfound⟩ := Option.isSome_iff_exists.1 (mem_keys_iff.1 hcand)
    obtain ⟨dir, hdir, hkind⟩ := TargetSystem.directory_above hfound (isAncestor_ne_nil hbelow)
      (mem_cons_of_mem _ (mem_ancestorPaths_iff.2 hbelow))
    rw [hauth] at hdir
    have hchecked := h.directory dir hdir hkind
    unfold validateDirectoryLeaf at hchecked
    simp only [bind_ok, exists_unit, reject_ok, hdestructive, hprior, hempty, Bool.false_eq_true,
      not_false_eq_true, and_self, not_true_eq_false, and_false] at hchecked

/-! ## 2. Mutations -/

/-- A mutation away from additional files, the assertion of a directory, or the removal of one
that is not empty. -/
structure Harmless (extras : Extras) (bare : TargetSystem) (previous : Option StateGeneration)
    (mutation : RequiredTargetMutation) : Prop where
  clear : Clear extras mutation.key
  free : Free extras mutation.key ∨
    (∃ directory,
      mutation = .assertExact mutation.key.1 mutation.key.2 (.directory (some directory))) ∨
    bare.isEmptyDirectory mutation.key = false ∧ priorIsManagedTree previous mutation.key = false ∧
      mutation = .removeLeaf mutation.key.1 mutation.key.2

/-- What a reconciliation of claimed leaves knows about its predecessor. -/
structure Setting (claimed : TargetKey → Prop) (extras : Extras) (bare full : TargetSystem)
    (previous : Option StateGeneration) (requested : List PrepareOperation) : Prop where
  related : Target.Extends extras bare full
  apart : ApartFrom claimed extras
  leaves : ∀ op ∈ requested, declaresLeaf op = true ∧ claimed op.key
  structural : ∀ generation, previous = some generation →
    Structural claimed generation.targets
  spares : Spares extras bare previous requested

section Setting

variable {claimed : TargetKey → Prop} {required : List RequiredTargetMutation}

variable {mutation : RequiredTargetMutation} {asked : PrepareOperation}

theorem hasEffectiveDescendant_of_previous {other : TargetKey} (hbelow : isBelow key other = true)
    (heffective : effectiveTargetIsPresent (effectiveState prev) other = true ∨
      effectiveTargetIsPresent (some (.enabled, desired)) other = true) :
    hasEffectiveDescendant (effectiveState prev) .enabled desired
      (unionKeys (effectiveState prev) desired) key = true := by
  unfold hasEffectiveDescendant
  rw [any_eq_true]
  refine ⟨other, mem_unionKeys_of_effective heffective, ?_⟩
  unfold isBelow at hbelow
  rw [hbelow, Bool.true_and, Bool.or_eq_true]
  exact heffective

theorem ordered_of_required
    (h : requiredTargetMutations (effectiveState prev) .enabled desired = .ok required) :
    ∀ gen, prev = some gen → StrictlyOrdered gen.targets := by
  intro gen hprev
  unfold requiredTargetMutations at h
  simp only [bind_ok, exists_unit, whenSome_ok] at h
  rw [hprev] at h
  exact (validateStateTargets_ok.1 (h.2.1 _ rfl)).ordered

theorem not_priorIsManagedTree {before : StateTargetState}
    (h : effectiveTarget (effectiveState prev) key = some before)
    (hdir : isPresentDirectory before = true) : priorIsManagedTree prev key = false := by
  have hprior : previousTargetState prev key = some before := by
    cases prev with
    | none => cases h
    | some gen =>
      simp only [effectiveTarget, effectiveState, Option.map_some, Option.bind_some] at h
      unfold previousTargetState
      rw [Option.bind_some]
      split at h
      · rename_i henabled
        rw [if_pos henabled]
        exact (Option.filter_eq_some_iff.1 h).1
      · cases h
  unfold priorIsManagedTree
  rw [hprior]
  rcases before with (_ | _) | (_ | _) | (_ | _) | (_ | _) <;> first | rfl | cases hdir

theorem Setting.free_of_removed
    (hsetting : Setting claimed extras bare full prev req) {gen : StateGeneration} {target : StateTarget}
    (hprevious : prev = some gen) (h : Removed gen req target)
    (hempty : isPresentDirectory target.state = true → bare.isEmptyDirectory target.key = true)
    (hclear : Clear extras target.key) : Free extras target.key := by
  cases hdir : isPresentDirectory target.state with
  | false =>
    have hclaimed := (hsetting.structural gen hprevious).leaves target h.recorded h.present
      hdir
    exact (hsetting.apart target.key hclaimed).2
  | true =>
    intro cand hcand
    rw [Bool.eq_false_iff]
    intro hwithin
    simp only [isWithin, Bool.or_eq_true, decide_eq_true_eq] at hwithin
    rcases hwithin with rfl | hbelow
    · rw [hclear.none] at hcand
      cases hcand
    · rw [hsetting.spares.directories gen hprevious target h hdir (hempty hdir) cand
        hcand] at hbelow
      cases hbelow

section

variable (hsetting : Setting claimed extras bare full prev req)
  (hder : Derived config bare prev artifacts req synthesized desired)
include hsetting hder

theorem Setting.removed
    (hord : ∀ gen, prev = some gen → StrictlyOrdered gen.targets)
    {before : StateTargetState}
    (hbefore : effectiveTarget (effectiveState prev) key = some before)
    (hafter : effectiveTarget (some (.enabled, desired)) key = none)
    (hkept : (before.isDirectory && hasEffectiveDescendant (effectiveState prev) .enabled
      desired (unionKeys (effectiveState prev) desired) key) = false) :
    ∃ gen t, prev = some gen ∧ t.key = key ∧ t.state = before ∧ Removed gen req t := by
  have hpresent := effectiveTarget_isPresent hbefore
  obtain ⟨lifecycle, snap, t, hstate, henabled, htarget, rfl, rfl⟩ :=
    mem_of_effectiveTarget hbefore
  cases prev with
  | none => cases hstate
  | some gen =>
    cases hstate
    refine ⟨gen, t, rfl, rfl, rfl, henabled, htarget, hpresent, ?_, ?_⟩
    · intro op hop hsame
      have heffective := hder.effective_of_leaf hop (hsetting.leaves op hop).1
      rw [hsame, ← isSome_effectiveTarget, hafter] at heffective
      cases heffective
    · intro hdir
      have hsame : t.state.isDirectory = true := hdir
      rw [hsame, Bool.true_and] at hkept
      constructor
      · intro other hother hpres
        rw [Bool.eq_false_iff]
        intro hunder
        have heffective := effectiveTarget_of_mem henabled (hord gen rfl) hother hpres
        rw [hasEffectiveDescendant_of_previous hunder (.inl (by
          rw [← isSome_effectiveTarget]
          exact Option.isSome_iff_exists.2 ⟨_, heffective⟩))] at hkept
        cases hkept
      · intro op hop
        rw [Bool.eq_false_iff]
        intro hunder
        rw [hasEffectiveDescendant_of_previous hunder
          (.inr (hder.effective_of_leaf hop (hsetting.leaves op hop).1))] at hkept
        cases hkept

/-- Every required mutation is harmless to the additional files. -/
theorem Setting.harmless
    (hreq : requiredTargetMutations (effectiveState prev) .enabled desired =
      .ok required) (hmut : mutation ∈ required) : Harmless extras bare prev mutation := by
  have hslots := Structural.slotsClear hsetting.related hsetting.structural hsetting.apart
  have hexp := (mem_required hreq).1 hmut
  cases hafter : effectiveTarget (some (.enabled, desired)) mutation.key with
  | none =>
    cases hbefore : effectiveTarget (effectiveState prev) mutation.key with
    | none =>
      rw [hbefore, hafter] at hexp
      cases hexp
    | some before =>
      rw [hbefore, hafter, expectedMutation_removed] at hexp
      split at hexp
      · cases hexp
      · rename_i hkept
        obtain ⟨gen, t, hprev, hkey, hstate, hremoved⟩ := hsetting.removed hder
          (ordered_of_required hreq) hbefore hafter (by simpa using hkept)
        have hclear := hslots gen hprev t hremoved.recorded
        refine ⟨hkey ▸ hclear, ?_⟩
        rw [← hkey]
        by_cases hempty : isPresentDirectory t.state = true →
            bare.isEmptyDirectory t.key = true
        · exact .inl (hsetting.free_of_removed hprev hremoved hempty hclear)
        · obtain ⟨hdir, hfull⟩ := Classical.not_imp.1 hempty
          refine .inr (.inr ⟨by simpa using hfull, ?_, ?_⟩)
          · rw [hstate] at hdir
            rw [hkey]
            exact not_priorIsManagedTree hbefore hdir
          · rw [hkey]
            exact (Option.some.inj hexp).symm
  | some after =>
    rw [hafter, expectedMutation_some] at hexp
    obtain ⟨lifecycle, snap, t, hstate, -, htarget, hkey, rfl⟩ :=
      mem_of_effectiveTarget hafter
    cases hstate
    rcases hder.slot htarget with ⟨op, hop, hsame, hdecl⟩ |
        ⟨gen, hprev, before, hbefore, rfl⟩
    · rcases mem_append.1 hop with hop | hop
      · have hclaimed := (hsetting.leaves op hop).2
        rw [← hsame, hkey] at hclaimed
        exact ⟨(hsetting.apart _ hclaimed).1, .inl (hsetting.apart _ hclaimed).2⟩
      · have hsynthesized := hder.of_synthesized op hop
        have hsamekey : op.key = mutation.key := hsame.symm.trans hkey
        have hclear := ancestorKeys_clear hsetting.related hslots
          (fun op hop =>
            (hsetting.apart _ (hsetting.leaves op hop).2).1) hsynthesized.above
        rw [hsamekey] at hclear
        obtain ⟨mode, hensure, hmode⟩ := hsynthesized.directory
        rw [hensure] at hdecl
        have hdir := Option.some.inj (declaredState_directory hdecl)
        rw [hdir] at hexp
        rw [hsamekey] at hmode
        refine ⟨hclear, ?_⟩
        split at hexp
        · exact .inr (.inl ⟨⟨mode⟩, (Option.some.inj hexp).symm⟩)
        · rename_i hnew
          rcases hmode with howned | hmiss
          · exact absurd (effectiveTarget_of_previousDirectoryMode howned) hnew
          · refine .inl (hsetting.related.free_of_none ?_)
            rw [hsetting.related.entry_eq hclear, hmiss]
    · have hpres := effectiveTarget_isPresent hafter
      simp [StateTarget.tombstone] at hpres

end

/-! ## 3. Operations -/

theorem Derivation.apart {op : PreparedOperation}
    (h : Derivation bare prev artifacts mutation op)
    (hobs : observeOperation config bare prev asked = .ok op)
    (hrelated : Target.Extends extras bare full)
    (hharmless : Harmless extras bare prev mutation) :
    assertsDirectory op = true ∨ Free extras op.key := by
  have hkey := h.key
  rcases hharmless.free with hfree | ⟨dir, hmut⟩ | ⟨hfull, hprior, hmut⟩
  · rw [hkey]
    exact .inr hfree
  · rw [hmut] at h
    cases h with
    | asserted hleaf => exact .inl rfl
    | restoredDirectory hleaf habsent =>
      right
      rw [hkey]
      refine hrelated.free_of_none ?_
      rw [hrelated.entry_eq hharmless.clear]
      cases hentry : bare.entry mutation.key with
      | none => rfl
      | some e =>
        have hobs := hleaf.leaf
        rw [show (mutation.key.1, mutation.key.2) = mutation.key from rfl, hentry] at hobs
        rw [hobs] at habsent
        cases habsent
  · -- The observation has refused to remove a directory that is not empty.
    obtain ⟨obs, hat, hprep⟩ := observeOperation_ok hobs
    have hasked : asked.key = mutation.key := by
      rw [← hkey, ← hat.key, ← observation_of_prepared hprep]
      rfl
    have hremoval : destructiveDirectoryChange asked = true := by
      rw [hmut] at h
      cases h
      simp [destructiveDirectoryChange, isRemoval_of_prepared hprep]
    have hempty := isEmptyDirectory_of_observed hat hremoval (by rwa [hasked])
    rw [hasked, hfull] at hempty
    cases hempty

theorem effective_of_removeLeaf {prev : Option EffectiveState} {next : DesiredSnapshot}
    {held : Bool} {auth : DeploymentName} {path : Text}
    (h : expectedMutation key held (effectiveTarget prev key)
      (effectiveTarget (some (.enabled, next)) key) = some (.removeLeaf auth path)) :
    effectiveTarget (some (.enabled, next)) key = none ∧
      ∃ before, effectiveTarget prev key = some before ∧
        (before.isDirectory && held) = false := by
  cases hafter : effectiveTarget (some (.enabled, next)) key with
  | some after =>
    rw [hafter, expectedMutation_some] at h
    have hmut := Option.some.inj h
    have hpres := effectiveTarget_isPresent hafter
    split at hmut
    · cases hmut
    · rcases after with (_ | _) | (_ | _) | (_ | _) | (_ | _) <;>
        first
        | exact absurd hpres Bool.false_ne_true
        | cases hmut
  | none =>
    cases hbefore : effectiveTarget prev key with
    | none =>
      rw [hafter, hbefore] at h
      cases h
    | some before =>
      rw [hafter, hbefore, expectedMutation_removed] at h
      split at h
      · cases h
      · rename_i hkept
        exact ⟨rfl, before, rfl, by simpa using hkept⟩

/-- No declared leaf lies above a declared leaf. -/
theorem Derived.no_leaf_above
    (h : Derived config system prev artifacts req synthesized desired)
    (hleaves : ∀ op ∈ req, declaresLeaf op = true)
    {below above : PrepareOperation} (hbelow : below ∈ req) (habove : above ∈ req) :
    above.key ∉ keysAbove below.key := by
  intro hkey
  obtain ⟨hauth, hunder⟩ := mem_keysAbove.1 hkey
  -- Both are present in the desired snapshot, which holds no leaf above a slot.
  have heffective : ∀ op ∈ req, ∃ t ∈ desired.targets, t.key = op.key ∧
      t.isPresent = true ∧ isPresentDirectory t.state = false := by
    intro op hop
    obtain ⟨s, hstate, heffective⟩ := h.effective_of_declared (mem_append_left synthesized hop)
    obtain ⟨found, hsome, hpres, hdir⟩ := declaredState_leaf (hleaves op hop) hstate
    obtain ⟨lifecycle, snap, t, hsnap, -, htarget, hsame, hfound⟩ :=
      mem_of_effectiveTarget (heffective found hsome hpres)
    cases hsnap
    exact ⟨t, htarget, hsame, by rw [StateTarget.isPresent, hfound]; exact hpres,
      by rw [hfound]; exact hdir⟩
  obtain ⟨lower, hlower, hlowerKey, hlowerPresent, -⟩ := heffective below hbelow
  obtain ⟨upper, hupper, hupperKey, hupperPresent, hupperLeaf⟩ := heffective above habove
  obtain ⟨decl, -, hrec⟩ := h.reconciled
  have hexclusive := hrec.valid.exclusive lower hlower hlowerPresent upper.key.2 (by
    rw [hupperKey]
    rw [← hlowerKey] at hunder
    exact mem_ancestorPaths_iff.2 hunder)
  refine hexclusive ?_
  have hauthority : lower.authority = upper.key.1 :=
    (congrArg Prod.fst hlowerKey).trans (by rw [hupperKey, hauth])
  rw [hauthority]
  exact mem_map.2 ⟨upper, mem_filter.2 ⟨hupper, by
    rw [hupperPresent, Bool.true_and, Bool.not_eq_true']
    exact hupperLeaf⟩, rfl⟩

section Operations

variable {required : List RequiredTargetMutation} {derived absences : List PreparedOperation}
  {op : PreparedOperation}
  (hsetting : Setting claimed extras bare full prev req)
  (hparts : ManifestParts config bare prev artifacts req synthesized desired required
    derived absences)

include hsetting hparts

/-- A directory that is still missing has nothing declared below it. -/
theorem Setting.nothing_below {missing : List Text} {first : Text}
    (hwalked : WalkedTo config bare key missing) (hfirst : first ∈ missing)
    (hcreated : (key.1, first) ∉ createdKeys derived) :
    ∀ placement ∈ req, isBelow (key.1, first) placement.key = false := by
  intro placement hplacement
  rw [Bool.eq_false_iff]
  intro hunder
  simp only [isBelow, Bool.and_eq_true, decide_eq_true_eq] at hunder
  have habove : (key.1, first) ∈ keysAbove placement.key :=
    mem_keysAbove.2 ⟨hunder.1.symm, hunder.2⟩
  obtain ⟨creation, hcreation, hcreates⟩ := hparts.created_above hplacement
    (declaresAbsence_of_leaf (hsetting.leaves placement hplacement).1) habove (by
      intro other hother hsame
      rw [← hsame] at habove
      exact absurd habove (hparts.toDerived.no_leaf_above
        (fun op hop => (hsetting.leaves op hop).1) hplacement hother))
    hwalked.authority (hwalked.probe_eq_notFound hfirst) (hwalked.entry_eq_none hfirst)
  refine hcreated (mem_filterMap.2 ⟨creation, mem_reverse.2 hcreation, ?_⟩)
  cases creation with
  | ensureDirectory obs mode => exact congrArg some (head_eq_of_cons_eq hcreates)
  | _ => cases hcreates

theorem Setting.pinned_free
    (hop : .removeLeaf obs ∈ derived) :
    extras (pinnedLeaf (createdKeys derived) obs) = none := by
  obtain ⟨mutation, hmut, hderivation⟩ := exists_left_of_forall₂ hparts.derivations hop
  have hkey : obs.key = mutation.key := hderivation.key
  have hclear := (hsetting.harmless hparts.toDerived hparts.mutations hmut).clear
  rw [← hkey] at hclear
  obtain ⟨asked, hobs⟩ := hparts.observed _ hop
  have hwalked : WalkedTo config bare obs.key (missingPaths obs) :=
    observeOperation_walked hobs
  rcases pinnedLeaf_walked hwalked with hplace | ⟨first, hfirst, hplace⟩
  · rw [hplace]
    exact hclear.none
  · have hmissing : first ∈ missingPaths obs := mem_of_mem_head? hfirst
    split at hplace
    · -- Nothing is below a directory that was missing.
      have hnone := hwalked.entry_eq_none hmissing
      rw [← hsetting.related.entry_above hclear
        (mem_cons_of_mem _ (hwalked.mem_ancestorPaths hmissing))] at hnone
      exact (hsetting.related.free_of_none hnone).none hplace
    · rename_i hcreated
      have hexp := (mem_required hparts.mutations).1 hmut
      have hremove : mutation = .removeLeaf mutation.key.1 mutation.key.2 := by
        cases hderivation
        rfl
      obtain ⟨hafter, before, hbefore, hkept⟩ :=
        effective_of_removeLeaf (hexp.trans (congrArg some hremove))
      obtain ⟨gen, t, hprev, htarget, -, hremoved⟩ := hsetting.removed hparts.toDerived
        (ordered_of_required hparts.mutations) hbefore hafter hkept
      rw [hplace, hkey, ← htarget]
      rw [hkey, ← htarget] at hwalked
      obtain ⟨rest, hrest⟩ : ∃ rest, missingPaths obs = first :: rest :=
        head?_eq_some_iff.1 hfirst
      rw [hrest] at hwalked
      have hauth : obs.authority = t.key.1 := congrArg Prod.fst (hkey.trans htarget.symm)
      rw [hauth] at hcreated
      exact hsetting.spares.leaves gen hprev t hremoved first (firstMissing_of_walked hwalked)
        (hsetting.nothing_below hparts hwalked mem_cons_self hcreated)

end Operations

theorem Setting.operations_apart (hsetting : Setting claimed extras bare full prev req) {ops : List PreparedOperation}
    (h : derivedManifest config bare prev observed artifacts req =
      .ok (desired, ops)) : ∀ op ∈ ops, Apart extras (createdKeys ops) op := by
  obtain ⟨synthesized, required, derived, absences, rfl, hparts⟩ := derivedManifest_parts h
  have hnil : absences = [] := hparts.absences_eq_nil fun op hop =>
    declaresAbsence_of_leaf (hsetting.leaves op hop).1
  rw [hnil, append_nil]
  intro op hop
  obtain ⟨mutation, hmut, hderivation⟩ := exists_left_of_forall₂ hparts.derivations hop
  obtain ⟨asked, hobs⟩ := hparts.observed op hop
  have hharmless := hsetting.harmless hparts.toDerived hparts.mutations hmut
  obtain ⟨obs, hat, hprep⟩ := observeOperation_ok hobs
  have hasked : op.key = asked.key := by
    rw [← hat.key, ← observation_of_prepared hprep]
    rfl
  refine ⟨?_, ?_, hderivation.apart hobs hsetting.related hharmless, ?_, ?_⟩
  · rw [hasked]
    exact hat.path
  · rw [hderivation.key]
    exact hharmless.clear
  · rintro observation rfl
    cases hderivation
  · rintro observation rfl
    exact hsetting.pinned_free hparts hop

/-! ## 4. One plan for both systems -/

theorem mutationOperation_key
    {replaces : TargetKey → Bool}
    (h : mutationOperation artifactId replaces mutation = .ok asked) :
    asked.key = mutation.key := by
  cases mutation with
  | placeFile auth path d byteLen mode =>
    simp only [mutationOperation, bind_ok] at h
    obtain ⟨id, -, hchecked⟩ := h
    rw [checked_ok hchecked]
    rfl
  | assertExact auth path s =>
    simp only [mutationOperation, bind_ok] at h
    obtain ⟨view, -, hchecked⟩ := h
    rw [checked_ok hchecked]
    rfl
  | ensureDirectory auth path mode =>
    rw [checked_ok h]
    rfl
  | placeSymlink auth path obj =>
    rw [checked_ok h]
    rfl
  | placeTree auth path tree prov =>
    rw [checked_ok h]
    rfl
  | removeLeaf auth path =>
    rw [checked_ok h]
    rfl

theorem reconcileFileAssertion_key
    {d : Digest} {byteLen : Nat} {mode : BitVec 32}
    {reconciled : PrepareOperation × LocalChange}
    (h : reconcileFileAssertion config system observed artifacts key d byteLen mode =
      .ok reconciled) : reconciled.1.key = key := by
  unfold reconcileFileAssertion at h
  split at h <;> split at h
  · cases h
    rfl
  · simp only [bind_ok, pure_ok] at h
    obtain ⟨id, -, placed, hchecked, rfl⟩ := h
    rw [checked_ok hchecked]
    rfl
  · cases h
    rfl
  · simp only [bind_ok, pure_ok] at h
    obtain ⟨id, -, placed, hchecked, rfl⟩ := h
    rw [checked_ok hchecked]
    rfl

theorem restoreMissing_key {assertion placement : PrepareOperation}
    {reconciled : PrepareOperation × LocalChange}
    (h : restoreMissing config system assertion placement = .ok reconciled)
    (hkey : placement.key = assertion.key) : reconciled.1.key = assertion.key := by
  rcases restoreMissing_ok h with ⟨-, rfl⟩ | ⟨-, rfl⟩
  · rfl
  · exact hkey

theorem reconcileOperation_key
    {reconciled : PrepareOperation × LocalChange}
    (h : reconcileOperation config system prev observed artifacts asked = .ok reconciled) :
    reconciled.1.key = asked.key := by
  unfold reconcileOperation at h
  split at h
  · exact reconcileFileAssertion_key h
  · exact restoreMissing_key h rfl
  · exact restoreMissing_key h rfl
  · exact restoreMissing_key h rfl
  all_goals
    cases h
    rfl

theorem Harmless.reconciled
    {replaces : TargetKey → Bool} {reconciled : PrepareOperation × LocalChange}
    (h : Harmless extras bare prev mutation) (hrelated : Target.Extends extras bare full)
    (hasked : mutationOperation artifactId replaces mutation = .ok asked)
    (hrec : reconcileOperation config system prev observed artifacts asked =
      .ok reconciled) (hdestructive : destructiveDirectoryChange reconciled.1 = true) :
    full.isEmptyDirectory reconciled.1.key = bare.isEmptyDirectory reconciled.1.key := by
  rw [reconcileOperation_key hrec, mutationOperation_key hasked]
  rcases h.free with hfree | ⟨dir, hmut⟩ | ⟨hfull, -⟩
  · exact hrelated.isEmptyDirectory_eq hfree
  · rw [hmut] at hasked
    simp only [mutationOperation, targetStateView, bind_ok, exists_unit, pure_ok] at hasked
    obtain ⟨view, ⟨-, rfl⟩, hchecked⟩ := hasked
    obtain rfl := checked_ok hchecked
    rcases restoreMissing_ok hrec with ⟨-, rfl⟩ | ⟨-, rfl⟩ <;> cases hdestructive
  · exact hrelated.isEmptyDirectory_of_full hfull

theorem Setting.deriveReconciliation_eq
    (hsetting : Setting claimed extras bare full prev req)
    (objects : CanonicalObjects) (findings : List PolicyFinding) :
    deriveReconciliation config full objects prev observed artifacts findings req =
      deriveReconciliation config bare objects prev observed artifacts findings req := by
  have hrelated := hsetting.related
  have hslots := Structural.slotsClear hrelated hsetting.structural hsetting.apart
  unfold deriveReconciliation
  rw [synthesizeAncestorDirectories_eq hrelated hslots fun op hop =>
    (hsetting.apart _ (hsetting.leaves op hop).2).1]
  refine bind_congr_ok fun synthesized hsynthesized => ?_
  refine bind_congr_ok fun desired hdesired => ?_
  refine bind_congr_ok fun operations hops => ?_
  -- Every operation comes from a harmless mutation.
  have hharmless : ∀ asked ∈ operations, ∃ mutation replaces, Harmless extras bare prev mutation ∧
      mutationOperation
        (fun d byteLen =>
          require (artifactWithContents artifacts d byteLen) (.missingArtifact d))
        replaces mutation = .ok asked := by
    unfold completeReconciliationOperations at hops
    simp only [bind_ok, pure_ok, asStateError, mapError_ok] at hops
    obtain ⟨required, hreq, mutated, hmutated, rfl⟩ := hops
    intro asked hasked
    rcases mem_append.1 hasked with hasked | hasked
    · obtain ⟨mutation, hmut, hmade⟩ :=
        exists_left_of_forall₂ (mapM_forall₂ hmutated) hasked
      exact ⟨mutation, _, hsetting.harmless ⟨hsynthesized, hdesired⟩ hreq hmut, hmade⟩
    · rw [mem_filter, Bool.and_eq_true] at hasked
      have hleaf := declaresAbsence_of_leaf (hsetting.leaves asked hasked.1).1
      rw [hleaf] at hasked
      cases hasked.2.1
  have hclear : ∀ asked ∈ operations, Clear extras asked.key := by
    intro asked hasked
    obtain ⟨mutation, replaces, hmut, hmade⟩ := hharmless asked hasked
    rw [mutationOperation_key hmade]
    exact hmut.clear
  unfold finishPlan
  have hlocal : reconcileLocalModifications config full prev observed artifacts operations =
      reconcileLocalModifications config bare prev observed artifacts operations := by
    unfold reconcileLocalModifications
    exact mapM_congr fun asked hasked => reconcileOperation_eq hrelated (hclear asked hasked)
  rw [hlocal]
  refine bind_congr_ok fun reconciled hrec => ?_
  have hobserve : (reconciled.map Prod.fst).mapM (observeOperation config full prev) =
      (reconciled.map Prod.fst).mapM (observeOperation config bare prev) := by
    refine mapM_congr fun op hop => ?_
    obtain ⟨change, hchange, rfl⟩ := mem_map.1 hop
    obtain ⟨asked, hasked, hmade⟩ := exists_left_of_forall₂ (mapM_forall₂ hrec) hchange
    obtain ⟨mutation, replaces, hmut, hmutated⟩ := hharmless asked hasked
    refine observeOperation_eq hrelated ?_ fun hdestructive =>
      hmut.reconciled hrelated hmutated hmade hdestructive
    rw [reconcileOperation_key hmade]
    exact hclear asked hasked
  dsimp only
  rw [hobserve]

end Setting

end Malm.Engine
