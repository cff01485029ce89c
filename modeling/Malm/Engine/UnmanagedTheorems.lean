/-
Malm.Engine.UnmanagedTheorems — reconciliation beside unmanaged files.

Two deployments that differ in additional regular files prepare and commit the same plan,
as long as no removed directory holds one of the files. The slots of the predecessor are
claimed leaves, or directories above claimed leaves (`Structural`).
-/
import Malm.Engine.Reconcile
import Malm.Engine.DiscardTheorems
import Malm.Engine.ManifestTheorems
import Malm.Commit.ApplyTheorems

namespace Malm.Engine

open Store Commit Target Checks List

variable {config : EngineConfig} {extras : Extras} {bare full : TargetSystem}
    {system : TargetSystem}
  {prev : Option StateGeneration} {artifacts : List PreparedArtifact}
  {observed : ObservedIdentities}

/-! ## 1. Observations -/

variable {key : TargetKey} {op : PrepareOperation}

theorem targetLeafExists_eq (h : Target.Extends extras bare full) (hclear : Clear extras key) :
    targetLeafExists config full key = targetLeafExists config bare key := by
  unfold targetLeafExists
  rw [h.probe_eq hclear]

theorem walkParents_eq :
    ∀ {paths : List Text} {ancestors : List FileIdentity} {cur : FileIdentity},
      (∀ path ∈ paths, full.entry (key.1, path) = bare.entry (key.1, path)) →
      walkParents config full key paths ancestors cur =
        walkParents config bare key paths ancestors cur
  | [], _, _, _ => rfl
  | path :: rest, ancestors, cur, hpaths => by
    unfold walkParents
    rw [hpaths path mem_cons_self]
    split
    · rfl
    · refine bind_congr fun ident => ?_
      exact walkParents_eq fun cand hcand =>
        hpaths cand (mem_cons_of_mem _ hcand)

theorem validateDirectoryLeaf_eq
    (hempty : destructiveDirectoryChange op = true →
      full.isEmptyDirectory op.key = bare.isEmptyDirectory op.key)
    (entry : Entry) :
    validateDirectoryLeaf config full prev op entry =
      validateDirectoryLeaf config bare prev op entry := by
  unfold validateDirectoryLeaf
  cases hdestructive : destructiveDirectoryChange op with
  | false => simp only [Bool.false_eq_true, false_and]
  | true => rw [hempty hdestructive]

section

variable (h : Target.Extends extras bare full) (hclear : Clear extras op.key)
  (hempty : destructiveDirectoryChange op = true →
    full.isEmptyDirectory op.key = bare.isEmptyDirectory op.key)

include h hclear hempty

theorem observeTarget_eq :
    observeTarget config full prev op =
      observeTarget config bare prev op := by
  have hwalk : ∀ anchor, walkParents config full op.key op.key.2.ancestorPaths []
        anchor =
      walkParents config bare op.key op.key.2.ancestorPaths [] anchor := by
    intro anchor
    exact walkParents_eq fun path hpath => h.entry_above hclear (mem_cons_of_mem _ hpath)
  have hleaf : leafAfter full op.key = leafAfter bare op.key := by
    funext traversal
    unfold leafAfter
    rw [h.entry_eq hclear]
  have hdir : validateDirectoryLeaf config full prev op =
      validateDirectoryLeaf config bare prev op :=
    funext (validateDirectoryLeaf_eq hempty)
  unfold observeTarget
  simp only [h.entry_above hclear mem_cons_self, hwalk, hleaf, hdir]

theorem observeOperation_eq :
    observeOperation config full prev op =
      observeOperation config bare prev op := by
  unfold observeOperation
  rw [observeTarget_eq h hclear hempty]

end

/-! ## 2. Local modifications -/

theorem diskContents_eq (h : Target.Extends extras bare full) (hclear : Clear extras key) :
    diskContents config full observed key = diskContents config bare observed key := by
  unfold diskContents observedContents
  rw [h.entry_eq hclear, h.probe_eq hclear, h.read_eq hclear]

theorem reconcileOperation_eq (h : Target.Extends extras bare full)
    (hclear : Clear extras op.key) :
    reconcileOperation config full prev observed artifacts op =
      reconcileOperation config bare prev observed artifacts op := by
  have hexists : targetLeafExists config full op.key =
      targetLeafExists config bare op.key := targetLeafExists_eq h hclear
  have hcontents : diskContents config full observed op.key =
      diskContents config bare observed op.key := diskContents_eq h hclear
  have hrestore : ∀ placement, restoreMissing config full op placement =
      restoreMissing config bare op placement := by
    intro placement
    unfold restoreMissing
    rw [hexists]
  have hmodified : isModified config full prev observed op.key =
      isModified config bare prev observed op.key := by
    unfold isModified
    rw [hcontents]
  unfold reconcileOperation
  split
  · unfold reconcileFileAssertion
    dsimp only [PrepareOperation.key] at hcontents hexists
    rw [hcontents, hexists]
  · exact hrestore _
  · exact hrestore _
  · exact hrestore _
  · rw [hmodified]
  · rw [hmodified]
  · rfl

/-! ## 3. Synthesized directories -/

def SlotsClear (extras : Extras) (previous : Option StateGeneration) : Prop :=
  ∀ generation, previous = some generation → ∀ target ∈ generation.targets,
    Clear extras target.key

section

variable (h : Target.Extends extras bare full) (hslots : SlotsClear extras prev)
  (req : List PrepareOperation)
include h hslots req

theorem retainedKeys_eq :
    retainedKeys config full prev req = retainedKeys config bare prev req := by
  unfold retainedKeys
  split
  · rfl
  · rename_i gen
    have hdirs : previousDirectories config full gen =
        previousDirectories config bare gen := by
      unfold previousDirectories
      refine congrArg (List.map StateTarget.key) (filter_congr fun t htarget => ?_)
      rw [targetLeafExists_eq h (hslots gen rfl t htarget)]
    rw [hdirs]

theorem ancestorKeys_eq :
    ancestorKeys config full prev req = ancestorKeys config bare prev req := by
  unfold ancestorKeys
  rw [retainedKeys_eq h hslots]

end

theorem mem_keysAbove {above : TargetKey} :
    above ∈ keysAbove key ↔ above.1 = key.1 ∧ above.2.isAncestor key.2 = true := by
  unfold keysAbove
  rw [mem_map]
  constructor
  · rintro ⟨path, hpath, rfl⟩
    exact ⟨rfl, mem_ancestorPaths_iff.1 hpath⟩
  · rintro ⟨hauth, hbelow⟩
    exact ⟨above.2, mem_ancestorPaths_iff.2 hbelow, Prod.ext hauth.symm rfl⟩

theorem mem_ancestorKeys {req : List PrepareOperation}
    (hkey : key ∈ ancestorKeys config system prev req) :
    (∃ op ∈ req, op.declaresAbsence = false ∧
        key ∈ keysAbove op.key) ∨
      ∃ gen, prev = some gen ∧ gen.lifecycle.isEnabled = true ∧
        ∃ t ∈ gen.targets, isPresentDirectory t.state = true ∧
          t.key = key ∧ targetLeafExists config system key = true := by
  unfold ancestorKeys at hkey
  rw [mem_map] at hkey
  obtain ⟨lexed, hlexed, rfl⟩ := hkey
  rw [mem_sortedSet, mem_map] at hlexed
  obtain ⟨key, hkey, rfl⟩ := hlexed
  rw [mem_append, mem_flatMap] at hkey
  rcases hkey with ⟨decl, hdecl, habove⟩ | hretained
  · unfold declaredPresent at hdecl
    rw [mem_map] at hdecl
    obtain ⟨op, hop, rfl⟩ := hdecl
    rw [mem_filter] at hop
    exact .inl ⟨op, hop.1, by simpa using hop.2, habove⟩
  · right
    unfold retainedKeys at hretained
    split at hretained
    · cases hretained
    · rename_i gen
      split at hretained
      · rename_i henabled
        rw [mem_flatMap] at hretained
        obtain ⟨released, -, hkey⟩ := hretained
        rw [mem_filter, decide_eq_true_eq] at hkey
        have hdir := hkey.2
        unfold previousDirectories at hdir
        rw [mem_map] at hdir
        obtain ⟨t, htarget, hsame⟩ := hdir
        rw [mem_filter, Bool.and_eq_true] at htarget
        have hexists := htarget.2.2
        rw [hsame] at hexists
        exact ⟨gen, rfl, henabled, t, htarget.1, htarget.2.1, hsame, hexists⟩
      · cases hretained

theorem clear_of_mem_keysAbove (h : Target.Extends extras bare full) {above : TargetKey}
    (hclear : Clear extras key) (habove : above ∈ keysAbove key) : Clear extras above := by
  obtain ⟨hauth, hbelow⟩ := mem_keysAbove.1 habove
  have hclear := hclear.above h.below (mem_cons_of_mem _ (mem_ancestorPaths_iff.2 hbelow))
  rwa [← hauth] at hclear

theorem ancestorKeys_clear (h : Target.Extends extras bare full)
    (hslots : SlotsClear extras prev)
    {req : List PrepareOperation}
    (hrequested : ∀ op ∈ req, Clear extras op.key)
    (hkey : key ∈ ancestorKeys config system prev req) : Clear extras key := by
  rcases mem_ancestorKeys hkey with ⟨op, hop, -, habove⟩ |
      ⟨gen, hprev, -, t, htarget, -, rfl, -⟩
  · exact clear_of_mem_keysAbove h (hrequested op hop) habove
  · exact hslots gen hprev t htarget

theorem synthesizeFrom_eq (h : Target.Extends extras bare full) {decl : List TargetKey} :
    ∀ {keys missingRoots : List TargetKey}, (∀ key ∈ keys, Clear extras key) →
      synthesizeFrom config full prev decl keys missingRoots =
        synthesizeFrom config bare prev decl keys missingRoots
  | [], _, _ => rfl
  | key :: rest, missingRoots, hclear => by
    have hrest : ∀ {roots : List TargetKey},
        synthesizeFrom config full prev decl rest roots =
          synthesizeFrom config bare prev decl rest roots :=
      synthesizeFrom_eq h fun cand hcand =>
        hclear cand (mem_cons_of_mem _ hcand)
    have hmiss : isMissing config full missingRoots key =
        isMissing config bare missingRoots key := by
      unfold isMissing
      rw [h.probe_eq (hclear key mem_cons_self)]
    unfold synthesizeFrom
    simp only [hrest, hmiss]

theorem synthesizeAncestorDirectories_eq (h : Target.Extends extras bare full)
    (hslots : SlotsClear extras prev) {req : List PrepareOperation}
    (hrequested : ∀ op ∈ req, Clear extras op.key) :
    synthesizeAncestorDirectories config full prev req =
      synthesizeAncestorDirectories config bare prev req := by
  unfold synthesizeAncestorDirectories
  rw [ancestorKeys_eq h hslots]
  exact synthesizeFrom_eq h fun key hkey => ancestorKeys_clear h hslots hrequested hkey

theorem entry_eq_none_of_probe (hkey : key.2 ≠ [])
    (h : system.probe key = .notFound) : system.entry key = none := by
  cases hentry : system.entry key with
  | none => rfl
  | some found =>
    -- All directories above an entry are there, so no probe misses it.
    have hprobe : ∀ {paths : List Text}, (∀ path ∈ paths, path ∈ directoriesAbove key.2) →
        system.probeFrom key paths ≠ .notFound := by
      intro paths
      induction paths with
      | nil =>
        intro _
        unfold TargetSystem.probeFrom
        simp [hentry]
      | cons path rest ih =>
        intro hpaths
        obtain ⟨dir, hdir, hkind⟩ :=
          TargetSystem.directory_above hentry hkey (hpaths path mem_cons_self)
        unfold TargetSystem.probeFrom
        rw [hdir]
        simp only [hkind]
        split
        · exact ih fun cand hcand => hpaths cand (mem_cons_of_mem _ hcand)
        · exact fun hfailed => Probe.noConfusion hfailed
    exact absurd h (hprobe fun _ hpath => hpath)

/-- A synthesized directory: an owned one with its mode, or a missing one. -/
structure Synthesized (system : TargetSystem) (previous : Option StateGeneration)
    (keys : List TargetKey) (operation : PrepareOperation) : Prop where
  above : operation.key ∈ keys
  path : operation.key.2 ≠ []
  directory : ∃ mode, operation =
      .ensureDirectory operation.key.1 operation.key.2 mode false ∧
    (previousDirectoryMode previous operation.key = some mode ∨
      system.entry operation.key = none)

theorem isMissing_entry {missingRoots : List TargetKey}
    (hkey : key.2 ≠ []) (hroots : ∀ root ∈ missingRoots, system.entry root = none)
    (h : isMissing config system missingRoots key = true) : system.entry key = none := by
  unfold isMissing at h
  simp only [Bool.or_eq_true, any_eq_true, Bool.and_eq_true, decide_eq_true_eq] at h
  rcases h with ⟨root, hroot, hauth, hbelow⟩ | ⟨-, hprobe⟩
  · cases hentry : system.entry key with
    | none => rfl
    | some found =>
      obtain ⟨dir, hdir, -⟩ := TargetSystem.directory_above hentry hkey
        (mem_cons_of_mem _ (mem_ancestorPaths_iff.2 hbelow))
      rw [← hauth, show (root.1, root.2) = root from rfl, hroots root hroot] at hdir
      cases hdir
  · exact entry_eq_none_of_probe hkey hprobe

theorem path_of_checked {r : PrepareOperation} (h : op.checked = .ok r) :
    op.key.2 ≠ [] := by
  unfold PrepareOperation.checked at h
  simp only [bind_ok, exists_unit, asRecordError, mapError_ok] at h
  exact ne_nil_of_validateRelativePath h.2.1

theorem synthesizeFrom_ok {decl : List TargetKey} :
    ∀ {keys missingRoots : List TargetKey} {ops : List PrepareOperation},
      (∀ root ∈ missingRoots, system.entry root = none) →
      synthesizeFrom config system prev decl keys missingRoots = .ok ops →
      ∀ op ∈ ops, Synthesized system prev keys op
  | [], _, _, _, h => by
    cases h
    simp
  | key :: rest, missingRoots, ops, hroots, h => by
    have hlater : ∀ {op : PrepareOperation},
        Synthesized system prev rest op →
        Synthesized system prev (key :: rest) op :=
      fun hop => { hop with above := mem_cons_of_mem _ hop.above }
    unfold synthesizeFrom at h
    split at h
    · intro op hop
      exact hlater (synthesizeFrom_ok hroots h op hop)
    · split at h
      · rename_i mode hmode
        simp only [bind_ok, pure_ok] at h
        obtain ⟨first, hchecked, later, hrest, rfl⟩ := h
        have hpath := path_of_checked hchecked
        obtain rfl := checked_ok hchecked
        intro op hop
        rcases mem_cons.1 hop with rfl | hop
        · exact ⟨mem_cons_self, hpath, mode, rfl, .inl hmode⟩
        · exact hlater (synthesizeFrom_ok hroots hrest op hop)
      · split at h
        · rename_i hmiss
          simp only [bind_ok, pure_ok] at h
          obtain ⟨first, hchecked, later, hrest, rfl⟩ := h
          have hpath := path_of_checked hchecked
          obtain rfl := checked_ok hchecked
          have hnone : system.entry key = none := isMissing_entry hpath hroots hmiss
          intro op hop
          rcases mem_cons.1 hop with rfl | hop
          · exact ⟨mem_cons_self, hpath, _, rfl, .inr hnone⟩
          · refine hlater (synthesizeFrom_ok ?_ hrest op hop)
            intro root hroot
            rcases mem_cons.1 hroot with rfl | hroot
            · exact hnone
            · exact hroots root hroot
        · intro op hop
          exact hlater (synthesizeFrom_ok hroots h op hop)

/-! ## 4. Slots -/

/-- A request that declares a file, a symbolic link or a tree. -/
def declaresLeaf : PrepareOperation → Bool
  | .placeFile _ _ _ _ _ => true
  | .placeSymlink _ _ _ _ => true
  | .placeTree _ _ _ _ _ => true
  | .assertExact _ _ (.directory _) => false
  | .assertExact _ _ _ => true
  | _ => false

theorem declaresAbsence_of_leaf (h : declaresLeaf op = true) :
    op.declaresAbsence = false := by
  cases op <;> first | rfl | cases h

/-- The slots of a ledger are claimed leaves, or directories above claimed leaves. -/
structure Structural (claimed : TargetKey → Prop) (targets : List StateTarget) : Prop where
  covered : ∀ target ∈ targets,
    claimed target.key ∨ ∃ leaf, claimed leaf ∧ target.key ∈ keysAbove leaf
  leaves : ∀ target ∈ targets, target.isPresent = true →
    isPresentDirectory target.state = false → claimed target.key

/-- No additional file at, above or below a claimed leaf. -/
def ApartFrom (claimed : TargetKey → Prop) (extras : Extras) : Prop :=
  ∀ leaf, claimed leaf → Clear extras leaf ∧ Free extras leaf

theorem Structural.slotsClear {claimed : TargetKey → Prop} (h : Target.Extends extras bare full)
    (hstruct : ∀ gen, prev = some gen →
      Structural claimed gen.targets)
    (hapart : ApartFrom claimed extras) : SlotsClear extras prev := by
  intro gen hprev t htarget
  rcases (hstruct gen hprev).covered t htarget with hclaimed |
      ⟨leaf, hclaimed, habove⟩
  · exact (hapart t.key hclaimed).1
  · exact clear_of_mem_keysAbove h (hapart leaf hclaimed).1 habove

theorem effectiveTarget_of_mem {lifecycle : LifecycleState} {snap : DesiredSnapshot}
    {t : StateTarget} (henabled : lifecycle.isEnabled = true)
    (hord : StrictlyOrdered snap.targets) (htarget : t ∈ snap.targets)
    (hpres : t.isPresent = true) :
    effectiveTarget (some (lifecycle, snap)) t.key = some t.state := by
  have hfound := hord.target_eq_some.2 ⟨htarget, rfl⟩
  simp only [effectiveTarget, Option.bind_some, henabled, ↓reduceIte, hfound, Option.map_some]
  exact Option.filter_eq_some_iff.2 ⟨rfl, hpres⟩

theorem effectiveTarget_of_previousDirectoryMode {mode : BitVec 32}
    (h : previousDirectoryMode prev key = some mode) :
    effectiveTarget (effectiveState prev) key = some (.directory (some ⟨mode⟩)) := by
  unfold previousDirectoryMode at h
  split at h
  · rename_i dir hrecorded
    cases h
    unfold recordedState at hrecorded
    cases prev with
    | none => cases hrecorded
    | some gen =>
      simp only [Option.bind_some] at hrecorded
      split at hrecorded
      · rename_i henabled
        simp only [effectiveTarget, effectiveState, Option.map_some, Option.bind_some, henabled,
          ↓reduceIte, hrecorded]
        rfl
      · cases hrecorded
  · cases h

theorem declaredTarget_ok {t : StateTarget}
    (h : declaredTarget prev artifacts op = .ok (some t)) :
    t.key = op.key ∧
      declaredState prev artifacts op = .ok (some t.state) := by
  unfold declaredTarget at h
  rw [bind_ok] at h
  obtain ⟨s, hstate, h⟩ := h
  cases s with
  | none => cases h
  | some s =>
    simp only [bind_ok, exists_unit, pure_ok] at h
    obtain ⟨-, htarget⟩ := h
    cases htarget
    exact ⟨rfl, hstate⟩

theorem declaredState_leaf {s : Option StateTargetState}
    (hleaf : declaresLeaf op = true)
    (h : declaredState prev artifacts op = .ok s) :
    ∃ found, s = some found ∧ found.isPresent = true ∧ isPresentDirectory found = false := by
  cases op with
  | placeFile auth path artifactId mode replaces =>
    simp only [declaredState, bind_ok, exists_unit, pure_ok] at h
    obtain ⟨art, -, -, rfl⟩ := h
    exact ⟨_, rfl, rfl, rfl⟩
  | placeSymlink auth path obj replaces =>
    cases h
    exact ⟨_, rfl, rfl, rfl⟩
  | placeTree auth path tree prov replaces =>
    simp only [declaredState, bind_ok, exists_unit, pure_ok] at h
    obtain ⟨-, rfl⟩ := h
    exact ⟨_, rfl, rfl, rfl⟩
  | assertExact auth path view =>
    simp only [declaredState, bind_ok, pure_ok] at h
    obtain ⟨found, hrecord, rfl⟩ := h
    refine ⟨found, rfl, ?_⟩
    cases view with
    | directory mode => cases hleaf
    | file d byteLen mode =>
      simp only [targetStateRecord, bind_ok, exists_unit, pure_ok] at hrecord
      obtain ⟨-, rfl⟩ := hrecord
      exact ⟨rfl, rfl⟩
    | symlink obj =>
      cases hrecord
      exact ⟨rfl, rfl⟩
    | tree tree prov =>
      simp only [targetStateRecord, bind_ok, exists_unit, pure_ok] at hrecord
      obtain ⟨-, rfl⟩ := hrecord
      exact ⟨rfl, rfl⟩
  | ensureDirectory auth path mode replaces => cases hleaf
  | removeLeaf auth path => cases hleaf
  | assertAbsent auth path => cases hleaf

theorem declaredState_directory {auth : DeploymentName} {path : Text}
    {mode : BitVec 32} {replaces : Bool} {s : Option StateTargetState}
    (h : declaredState prev artifacts
      (.ensureDirectory auth path mode replaces) = .ok s) :
    s = some (.directory (some ⟨mode⟩)) := by
  simp only [declaredState, bind_ok, exists_unit, pure_ok] at h
  exact h.2.symm

/-- The directories and the snapshot of a reconciliation. -/
structure Derived (config : EngineConfig) (system : TargetSystem)
    (previous : Option StateGeneration) (artifacts : List PreparedArtifact)
    (requested synthesized : List PrepareOperation) (desired : DesiredSnapshot) : Prop where
  directories : synthesizeAncestorDirectories config system previous requested = .ok synthesized
  snapshot : desiredSnapshotFromRequest previous artifacts requested synthesized = .ok desired

theorem ManifestParts.toDerived
    {req synthesized : List PrepareOperation} {next : DesiredSnapshot}
    {required : List RequiredTargetMutation} {derived absences : List PreparedOperation}
    (h : ManifestParts config system prev artifacts req synthesized next required
      derived absences) : Derived config system prev artifacts req synthesized next :=
  ⟨h.directories, h.snapshot⟩

variable {req synthesized : List PrepareOperation} {desired : DesiredSnapshot}

namespace Derived

variable {system : TargetSystem}

section

variable (h : Derived config system prev artifacts req synthesized desired)

include h

theorem reconciled :
    ∃ decl, (req ++ synthesized).mapM (declaredTarget prev artifacts) =
        .ok decl ∧
      Reconciled (prev.map StateGeneration.desiredSnapshot) (decl.filterMap id)
        desired := by
  have hdesired := h.snapshot
  unfold desiredSnapshotFromRequest at hdesired
  simp only [bind_ok, asStateError, mapError_ok] at hdesired
  obtain ⟨decl, hdecl, hdesired⟩ := hdesired
  exact ⟨decl, hdecl, reconcileDesiredSnapshot_ok hdesired⟩

theorem ordered :
    StrictlyOrdered desired.targets := by
  obtain ⟨decl, -, hrec⟩ := h.reconciled
  exact hrec.valid.ordered

end

section

variable (h : Derived config system prev artifacts req synthesized desired)
include h

theorem of_synthesized :
    ∀ op ∈ synthesized, Synthesized system prev
      (ancestorKeys config system prev req) op :=
  synthesizeFrom_ok (by simp) h.directories

theorem slot {t : StateTarget} (htarget : t ∈ desired.targets) :
    (∃ op ∈ req ++ synthesized, t.key = op.key ∧
        declaredState prev artifacts op = .ok (some t.state)) ∨
      ∃ gen, prev = some gen ∧
        ∃ before ∈ gen.targets, t = before.tombstone := by
  obtain ⟨decl, hdecl, hrec⟩ := h.reconciled
  rcases (hrec.slots t).1 htarget with hmem | ⟨before, hbefore, rfl, -⟩
  · left
    rw [mem_filterMap] at hmem
    obtain ⟨found, hfound, rfl⟩ := hmem
    obtain ⟨op, hop, htarget⟩ :=
      exists_left_of_forall₂ (mapM_forall₂ hdecl) hfound
    exact ⟨op, hop, declaredTarget_ok htarget⟩
  · right
    cases prev with
    | none => cases hbefore
    | some gen => exact ⟨gen, rfl, before, hbefore, rfl⟩

theorem effective_of_declared {op : PrepareOperation}
    (hop : op ∈ req ++ synthesized) :
    ∃ s, declaredState prev artifacts op = .ok s ∧
      ∀ present, s = some present → present.isPresent = true →
        effectiveTarget (some (.enabled, desired)) op.key = some present := by
  obtain ⟨decl, hdecl, hrec⟩ := h.reconciled
  obtain ⟨found, hfound, htarget⟩ := exists_right_of_forall₂ (mapM_forall₂ hdecl) hop
  unfold declaredTarget at htarget
  rw [bind_ok] at htarget
  obtain ⟨s, hstate, hrest⟩ := htarget
  refine ⟨s, hstate, ?_⟩
  rintro present rfl hpres
  simp only [bind_ok, exists_unit, pure_ok] at hrest
  obtain ⟨-, rfl⟩ := hrest
  have hmem : (⟨op.key.1, op.key.2, present⟩ : StateTarget) ∈ desired.targets :=
    (hrec.slots _).2 (.inl (mem_filterMap.2 ⟨_, hfound, rfl⟩))
  exact effectiveTarget_of_mem rfl h.ordered hmem hpres

theorem effective_of_leaf {op : PrepareOperation} (hop : op ∈ req)
    (hleaf : declaresLeaf op = true) :
    effectiveTargetIsPresent (some (.enabled, desired)) op.key = true := by
  obtain ⟨s, hstate, heffective⟩ :=
    h.effective_of_declared (mem_append_left synthesized hop)
  obtain ⟨present, hsome, hpres, -⟩ := declaredState_leaf hleaf hstate
  rw [← isSome_effectiveTarget, heffective present hsome hpres]
  rfl

theorem structural {claimed : TargetKey → Prop}
    (hrequested : ∀ op ∈ req, declaresLeaf op = true ∧ claimed op.key)
    (hstruct : ∀ gen, prev = some gen →
      Structural claimed gen.targets) : Structural claimed desired.targets := by
  have hsynthesized : ∀ op ∈ synthesized,
      claimed op.key ∨ ∃ leaf, claimed leaf ∧ op.key ∈ keysAbove leaf := by
    intro op hop
    rcases mem_ancestorKeys (h.of_synthesized op hop).above with
        ⟨decl, hdecl, -, habove⟩ | ⟨gen, hprev, -, t, htarget, -, hkey, -⟩
    · exact .inr ⟨decl.key, (hrequested decl hdecl).2, habove⟩
    · rw [← hkey]
      exact (hstruct gen hprev).covered t htarget
  constructor
  · intro t htarget
    rcases h.slot htarget with ⟨op, hop, hkey, -⟩ |
        ⟨gen, hprev, before, hbefore, rfl⟩
    · rw [hkey]
      rcases mem_append.1 hop with hop | hop
      · exact .inl (hrequested op hop).2
      · exact hsynthesized op hop
    · exact (hstruct gen hprev).covered before hbefore
  · intro t htarget hpres hdir
    rcases h.slot htarget with ⟨op, hop, hkey, hstate⟩ |
        ⟨gen, hprev, before, hbefore, rfl⟩
    · rcases mem_append.1 hop with hop | hop
      · rw [hkey]
        exact (hrequested op hop).2
      · obtain ⟨mode, hensure, -⟩ := (h.of_synthesized op hop).directory
        rw [hensure] at hstate
        have hfound := declaredState_directory hstate
        rw [Option.some.inj hfound] at hdir
        cases hdir
    · simp [StateTarget.isPresent, StateTarget.tombstone] at hpres

end

end Derived

end Malm.Engine
