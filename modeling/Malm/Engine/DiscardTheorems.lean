/-
Malm.Engine.DiscardTheorems — foreign content in the way of a plan.

Whether the content that goes is what the predecessor recorded is looked at twice:
preparation marks changed files and asks for approval, commit compares directories
and trees with the ledger. `overlooked` says what passes both.
-/
import Malm.Engine.ObserveTheorems
import Malm.Commit.Target
import Malm.Store.SnapshotTheorems

namespace Malm.Engine

open Store Commit Target Checks List PrepareOperation

variable {config : EngineConfig} {system : TargetSystem} {objects : CanonicalObjects}
  {prev : Option StateGeneration} {observed : ObservedIdentities}
  {artifacts : List PreparedArtifact}

variable {desired : DesiredSnapshot} {restored : List TargetKey}

/-! ## 1. Findings -/

/-- The actions of findings that can require approval. -/
def approvalActions : List String :=
  ["replace existing target", "remove existing target",
    "discard local modifications and restore"]

def PolicyFinding.Names (finding : PolicyFinding) (key : TargetKey) : Prop :=
  ∃ action ∈ approvalActions, finding.message = targetMessage action key

def AsksApproval (findings : List PolicyFinding) (key : TargetKey) : Prop :=
  ∃ finding ∈ findings, finding.approvalRequired = true ∧ finding.Names key

theorem append_cons_inj {α : Type} {sep : α} :
    ∀ {left right left' right' : List α}, sep ∉ left → sep ∉ left' →
      left ++ sep :: right = left' ++ sep :: right' → left = left' ∧ right = right'
  | [], _, [], _, _, _, h => ⟨rfl, (cons.inj h).2⟩
  | [], _, first :: _, _, _, hleft', h => by
    obtain ⟨rfl, -⟩ := cons.inj h
    exact absurd mem_cons_self hleft'
  | first :: _, _, [], _, hleft, _, h => by
    obtain ⟨rfl, -⟩ := cons.inj h
    exact absurd mem_cons_self hleft
  | first :: left, _, first' :: left', _, hleft, hleft', h => by
    obtain ⟨rfl, hrest⟩ := cons.inj h
    obtain ⟨rfl, hright⟩ := append_cons_inj (fun hmem => hleft (mem_cons_of_mem _ hmem))
      (fun hmem => hleft' (mem_cons_of_mem _ hmem)) hrest
    exact ⟨rfl, hright⟩

variable {key : TargetKey} {finding : PolicyFinding} {findings : List PolicyFinding}
  {synthesized : List TargetKey} {op : PreparedOperation} {drifted : List TargetKey}
  {obs : TargetObservation} {entry : Entry} {req : PrepareOperation}
  {auth : DeploymentName} {path : Text} {state : StateTargetState}

theorem targetMessage_inj {action action' : String} {key' : TargetKey}
    (haction : action ∈ approvalActions) (haction' : action' ∈ approvalActions)
    (hkey : ':' ∉ key.1) (hkey' : ':' ∉ key'.1)
    (h : targetMessage action key = targetMessage action' key') : key = key' := by
  -- The three texts differ within their first three characters.
  have htake : ∀ action ∈ approvalActions, ∀ key : TargetKey,
      (targetMessage action key).take 3 = action.toList.take 3 := by
    intro action haction key
    simp only [approvalActions, mem_cons, not_mem_nil, or_false] at haction
    rcases haction with rfl | rfl | rfl <;> rfl
  have hstart : action.toList.take 3 = action'.toList.take 3 :=
    (htake action haction key).symm.trans
      ((congrArg (List.take 3) h).trans (htake action' haction' key'))
  have hsame : action = action' := by
    simp only [approvalActions, mem_cons, not_mem_nil, or_false] at haction haction'
    rcases haction with rfl | rfl | rfl <;> rcases haction' with rfl | rfl | rfl <;>
      first
      | rfl
      | exact absurd hstart (by decide)
  subst hsame
  unfold targetMessage at h
  simp only [append_assoc, cons_append] at h
  obtain ⟨-, h⟩ := cons.inj (append_cancel_left h)
  obtain ⟨hauth, hpath⟩ := append_cons_inj hkey hkey' h
  exact Prod.ext hauth hpath

theorem mem_pushFindings :
    ∀ {added findings r : List PolicyFinding},
      added.foldlM pushFinding findings = .ok r →
      (finding ∈ r ↔ finding ∈ findings ∨ finding ∈ added)
  | [], findings, r, h => by
    rw [foldlM_nil, pure_ok] at h
    simp [h]
  | first :: rest, findings, r, h => by
    rw [foldlM_cons, bind_ok] at h
    obtain ⟨mid, hpush, hrest⟩ := h
    unfold pushFinding PolicyFinding.new at hpush
    simp only [bind_ok, exists_unit, pure_ok, asRecordError, mapError_ok] at hpush
    obtain ⟨pushed, ⟨-, -, rfl⟩, rfl⟩ := hpush
    rw [mem_pushFindings hrest, mem_cons]
    split
    · rename_i hmem
      constructor
      · rintro (h | h)
        · exact .inl h
        · exact .inr (.inr h)
      · rintro (h | rfl | h)
        · exact .inl h
        · exact .inl hmem
        · exact .inr h
    · rw [mem_append, mem_singleton, or_assoc]

theorem mapM_new {checked : List PolicyFinding}
    (h : findings.mapM PolicyFinding.new = .ok checked) : checked = findings := by
  rw [mapM_eq_map_of_ok h (g := id), map_id]
  intro finding r hnew
  unfold PolicyFinding.new at hnew
  simp only [bind_ok, exists_unit, pure_ok] at hnew
  exact hnew.2.2.symm

theorem restoreFinding_approval (h : restoreFinding restored synthesized op = some finding) :
    finding.approvalRequired = false := by
  unfold restoreFinding at h
  split at h
  · cases h
  · split at h
    · cases h
      rfl
    · split at h
      · split at h
        · cases h
          rfl
        · cases h
      · cases h

/-- The operation replaces or removes a present leaf. -/
def discards (operation : PreparedOperation) : Bool :=
  operation.observation.leaf.isPresent && (existingAction operation).isSome

theorem existingFinding_eq_some (h : existingFinding prev drifted op = some finding) :
    discards op = true ∧
      (finding.approvalRequired = true ↔
        op.key ∈ drifted ∨ previouslyOwnedTarget prev op.key = false) ∧
      ∃ action ∈ approvalActions, finding.message = targetMessage action op.key := by
  unfold existingFinding at h
  split at h
  · rename_i hpres
    obtain ⟨⟨code, action⟩, haction, rfl⟩ := Option.map_eq_some_iff.1 h
    have hfixed : action ∈ approvalActions := by
      unfold existingAction at haction
      split at haction <;> cases haction <;> decide
    refine ⟨by simp [discards, hpres, haction], ?_⟩
    dsimp only
    split
    · rename_i hdrifted
      exact ⟨by simp [targetFinding, hdrifted], "discard local modifications and restore",
        by decide, rfl⟩
    · rename_i hdrifted
      refine ⟨?_, action, hfixed, rfl⟩
      simp [targetFinding, hdrifted]
  · cases h

theorem existingFinding_isSome (h : discards op = true) :
    ∃ finding, existingFinding prev drifted op = some finding := by
  simp only [discards, Bool.and_eq_true] at h
  obtain ⟨hpres, hsome⟩ := h
  obtain ⟨action, haction⟩ := Option.isSome_iff_exists.1 hsome
  unfold existingFinding
  rw [if_pos hpres, haction]
  exact ⟨_, rfl⟩

/-- A plan asks for approval where the request does, the leaf was changed, or nobody owned it. -/
theorem asksApproval_iff {appended : List PolicyFinding} {ops : List PreparedOperation}
    (h : appendMandatoryFindings findings ops prev drifted restored synthesized =
      .ok appended) (hnames : ∀ cand ∈ ops, ':' ∉ cand.key.1) (hmem : op ∈ ops)
    (hdiscards : discards op = true) :
    AsksApproval appended op.key ↔
      AsksApproval findings op.key ∨ op.key ∈ drifted ∨
        previouslyOwnedTarget prev op.key = false := by
  unfold appendMandatoryFindings at h
  constructor
  · rintro ⟨finding, hfinding, happroval, hnamed⟩
    rcases (mem_pushFindings h).1 hfinding with hold | hnew
    · exact .inl ⟨finding, hold, happroval, hnamed⟩
    · right
      rcases mem_append.1 hnew with hrestore | hexisting
      · obtain ⟨cand, -, hcand⟩ := mem_filterMap.1 hrestore
        rw [restoreFinding_approval hcand] at happroval
        cases happroval
      · obtain ⟨cand, hcand, hexisting⟩ := mem_filterMap.1 hexisting
        obtain ⟨-, hiff, action, haction, hmessage⟩ := existingFinding_eq_some hexisting
        obtain ⟨named, hnamedAction, hnamedMessage⟩ := hnamed
        have hkey : cand.key = op.key :=
          targetMessage_inj haction hnamedAction (hnames cand hcand)
            (hnames op hmem) (hmessage.symm.trans hnamedMessage)
        rw [hkey] at hiff
        exact hiff.1 happroval
  · rintro (⟨finding, hold, happroval, hnamed⟩ | hmarked)
    · exact ⟨finding, (mem_pushFindings h).2 (.inl hold), happroval, hnamed⟩
    · obtain ⟨finding, hfinding⟩ := existingFinding_isSome hdiscards
      obtain ⟨-, hiff, hnamed⟩ := existingFinding_eq_some hfinding
      refine ⟨finding, (mem_pushFindings h).2 (.inr ?_), hiff.2 hmarked, hnamed⟩
      exact mem_append_right _ (mem_filterMap.2 ⟨op, hmem, hfinding⟩)

/-! ## 2. The mark of a changed file -/

/-- Every asserted file is the one that the predecessor records. -/
def AssertsRecordedFiles (previous : Option StateGeneration)
    (operations : List PrepareOperation) : Prop :=
  ∀ op ∈ operations, ∀ auth path digest byteLen mode,
    op = .assertExact auth path (.file digest byteLen mode) →
      previousFileContents previous (auth, path) = some ⟨digest, byteLen⟩

def looksForChanges : PreparedOperation → Bool
  | .placeFile _ _ _ _ => true
  | .removeLeaf _ => true
  | _ => false

section

variable {op : PrepareOperation}
  (hat : ObservedAt config system prev op obs)
  (hentry : system.entry op.key = some entry)
include hat hentry

theorem ObservedAt.read : system.read op.key = system.readEntry op.key entry := by
  unfold TargetSystem.read
  rw [readFrom_of_opened (hat.above (by rw [hentry]; rfl)), hentry]
  rfl

theorem diskContents_file (hsound : observed.Sound system) {data : Contents}
    (hkind : entry.kind = .file data) :
    diskContents config system observed op.key = some data ∨
      (entry.accessible = false ∧
        diskContents config system observed op.key = none) := by
  have hread := hat.read hentry
  unfold diskContents
  rw [if_pos hat.authority]
  cases hobs : observedContents system observed op.key with
  | some cached =>
    left
    unfold observedContents at hobs
    rw [hentry] at hobs
    split at hobs
    · rename_i ident d found hfind hfound
      obtain rfl := Option.some.inj hfound
      split at hobs
      · rename_i hmatches
        obtain ⟨-, -, hidentity⟩ := hmatches
        obtain rfl := Option.some.inj hobs
        have hhash := hsound _ _ _ _ _ hfind hentry hidentity hkind
        have hsize := entry.sized data hkind
        rw [hidentity] at hsize
        simp only [← hhash, hsize]
      · cases hobs
    · cases hobs
  | none =>
    simp only [hread, TargetSystem.readEntry, hkind]
    cases entry.accessible <;> simp

theorem diskContents_other (hkind : entry.kind.fileType ≠ .regularFile) :
    diskContents config system observed op.key =
      system.readEntry op.key entry := by
  have hread := hat.read hentry
  have hobs : observedContents system observed op.key = none := by
    unfold observedContents
    rw [hentry]
    split
    · rename_i ident d found hfind hfound
      obtain rfl := Option.some.inj hfound
      rw [if_neg fun h => hkind h.2.1]
    · rfl
  unfold diskContents
  rw [if_pos hat.authority, hobs, hread]

end

theorem entry_of_discards (h : observeOperation config system prev req = .ok op)
    (hdiscards : discards op = true) :
    op.key = req.key ∧ ∃ entry, system.entry req.key = some entry := by
  obtain ⟨obs, hat, hprep⟩ := observeOperation_ok h
  have hobs := observation_of_prepared hprep
  simp only [discards, Bool.and_eq_true, hobs, hat.isPresent] at hdiscards
  refine ⟨?_, Option.isSome_iff_exists.1 hdiscards.1⟩
  rw [← hat.key, ← hobs]
  rfl

theorem not_discards_assertExact {state : PrepareTargetState}
    (h : observeOperation config system prev (.assertExact auth path state) =
      .ok op) : discards op = false := by
  obtain ⟨obs, -, hprep⟩ := observeOperation_ok h
  simp only [preparedOperation, bind_ok, pure_ok] at hprep
  obtain ⟨recorded, -, rfl⟩ := hprep
  simp [discards, existingAction]

theorem not_discards_restored
    (h : observeOperation config system prev req = .ok op)
    (hexists : targetLeafExists config system req.key = false) :
    discards op = false := by
  obtain ⟨obs, hat, -⟩ := observeOperation_ok h
  rw [Bool.eq_false_iff]
  intro hdiscards
  obtain ⟨-, entry, hentry⟩ := entry_of_discards h hdiscards
  rw [hat.absent_of_not_leafExists hexists] at hentry
  cases hentry

/-- A discarding operation is marked as drifted exactly when it is compared and its file differs. -/
theorem drifted_iff {reconciled : PrepareOperation × LocalChange}
    (hasserts : AssertsRecordedFiles prev [req])
    (hrec : reconcileOperation config system prev observed artifacts req =
      .ok reconciled)
    (hobs : observeOperation config system prev reconciled.1 = .ok op)
    (hdiscards : discards op = true) :
    reconciled.2 = .drifted ↔
      looksForChanges op = true ∧
        isModified config system prev observed reconciled.1.key = true := by
  -- Only files are compared; what restores a missing target discards nothing.
  have hrestored : ∀ {auth : DeploymentName} {path : Text}
      {state : PrepareTargetState} {placement : PrepareOperation},
      restoreMissing config system (.assertExact auth path state) placement =
        .ok reconciled → placement.key = (auth, path) → False := by
    intro auth path state placement hmiss hkey
    unfold restoreMissing at hmiss
    split at hmiss
    · cases hmiss
      rw [not_discards_assertExact hobs] at hdiscards
      cases hdiscards
    · rename_i hexists
      simp only [bind_ok, pure_ok, checked, exists_unit] at hmiss
      obtain ⟨placed, ⟨-, -, rfl⟩, rfl⟩ := hmiss
      rw [not_discards_restored hobs (by rw [hkey]; simpa [key] using hexists)]
        at hdiscards
      cases hdiscards
  cases req with
  | ensureDirectory auth path mode replaces =>
    cases hrec
    obtain ⟨obs, -, hprep⟩ := observeOperation_ok hobs
    simp only [preparedOperation] at hprep
    split at hprep
    · simp only [bind_ok, exists_unit, pure_ok] at hprep
      rw [← hprep.2]
      simp [looksForChanges]
    · cases hprep
      simp [looksForChanges]
  | placeTree auth path tree prov replaces =>
    cases hrec
    obtain ⟨obs, -, hprep⟩ := observeOperation_ok hobs
    simp only [preparedOperation, bind_ok, exists_unit, pure_ok] at hprep
    rw [← hprep.2]
    simp [looksForChanges]
  | assertExact auth path state =>
    cases state with
    | directory mode => exact (hrestored hrec rfl).elim
    | symlink obj => exact (hrestored hrec rfl).elim
    | tree tree prov => exact (hrestored hrec rfl).elim
    | file d byteLen mode =>
      have hrecorded := hasserts _ mem_cons_self _ _ _ _ _ rfl
      simp only [reconcileOperation, reconcileFileAssertion] at hrec
      split at hrec
      · rename_i data hdisk
        split at hrec
        · cases hrec
          rw [not_discards_assertExact hobs] at hdiscards
          cases hdiscards
        · rename_i hdiffers
          simp only [bind_ok, require_ok, pure_ok, checked, exists_unit] at hrec
          obtain ⟨artifactId, -, placed, ⟨-, -, rfl⟩, rfl⟩ := hrec
          obtain ⟨obs, -, hprep⟩ := observeOperation_ok hobs
          cases hprep
          simp only [looksForChanges, true_and, true_iff]
          simp only [isModified, key, hrecorded, hdisk, Option.any_some]
          simpa using hdiffers
      · split at hrec
        · cases hrec
          rw [not_discards_assertExact hobs] at hdiscards
          cases hdiscards
        · rename_i hexists
          simp only [bind_ok, require_ok, pure_ok, checked, exists_unit] at hrec
          obtain ⟨artifactId, -, placed, ⟨-, -, rfl⟩, rfl⟩ := hrec
          rw [not_discards_restored hobs (by simpa [key] using hexists)]
            at hdiscards
          cases hdiscards
  | _ =>
    cases hrec
    obtain ⟨obs, -, hprep⟩ := observeOperation_ok hobs
    cases hprep
    simp [looksForChanges]

/-! ## 3. The leaf at commit -/

/-- Whether a live entry holds what the ledger records. -/
def holdsRecorded (objects : CanonicalObjects) (uid : Nat) (system : TargetSystem)
    (key : TargetKey) (entry : Entry) : StateTargetState → Bool
  | .file (some file) => entry.kind = .file ⟨file.digest, file.byteLen⟩
  | .symlink (some symlink) =>
    (objects.symlinks.get? symlink.object).any fun target => entry.kind = .symlink target
  | .directory (some _) => entry.kind = .directory
  | .tree (some tree) =>
    okAnd (requireTreeDirectory objects uid system (maxTreeDepth + 1) key tree.tree)
      fun _ => true
  | _ => false

/-- Whether commit gets rid of an entry without a recorded directory or tree. -/
def removable (system : TargetSystem) (key : TargetKey) (entry : Entry) : Bool :=
  match entry.kind with
  | .file _ => entry.accessible
  | .directory => system.isEmptyDirectory key
  | _ => true

theorem priorTargetState_of_effective
    (h : effectiveTarget (effectiveState prev) key = some state) :
    priorTargetState prev key = some state := by
  cases prev with
  | none => cases h
  | some gen =>
    simp only [effectiveTarget, effectiveState, Option.map_some, Option.bind_some] at h
    split at h
    · obtain ⟨hmap, -⟩ := Option.filter_eq_some_iff.1 h
      exact hmap
    · cases h

theorem discardLeaf_ok_iff {prior : Option StateTargetState} {uid : Nat}
    (hledger : ledgerDirectory prior = none) (hentry : system.entry op.key = some entry)
    (hopened : op = .removeLeaf op.observation → entry.kind = .directory →
      entry.accessible = true) :
    discardLeaf objects uid system prior op = .ok () ↔
      removable system op.key entry = true := by
  have hpin : pinPreparedSource system op.key = .ok () ↔
      (entry.kind.fileType = .regularFile → entry.accessible = true) := by
    unfold pinPreparedSource
    simp only [bind_ok, require_ok, hentry, Option.some.injEq, exists_eq_left',
      reject_ok, not_and, Bool.not_eq_false]
  have hfinish : finishPriorBackup objects uid system prior op.key entry = .ok () ↔
      (entry.kind = .directory → system.isEmptyDirectory op.key = true) := by
    unfold finishPriorBackup
    rw [hledger]
    simp only [reject_ok, not_and, Bool.not_eq_false]
  have hempty : requireEmptyDirectoryEntry system op.key = .ok () ↔
      entry.kind = .directory ∧ entry.accessible = true ∧
        system.isEmptyDirectory op.key = true := by
    unfold requireEmptyDirectoryEntry
    simp only [bind_ok, require_ok, hentry, Option.some.injEq, exists_eq_left',
      reject_ok, exists_unit, not_or, not_not, Bool.not_eq_false, and_assoc]
  have hremovable : removable system op.key entry = true ↔
      (entry.kind.fileType = .regularFile → entry.accessible = true) ∧
        (entry.kind = .directory → system.isEmptyDirectory op.key = true) := by
    unfold removable
    cases entry.kind <;> simp [EntryKind.fileType]
  have htree : ∀ removed : Except CommitError Unit,
      requireRemovableDirectory objects uid system prior op.key = removed →
      removed = requireEmptyDirectoryEntry system op.key := by
    rintro removed rfl
    unfold requireRemovableDirectory
    split
    · cases hledger
    · rfl
  unfold discardLeaf moveAside
  simp only [hentry, whenSome, bind_ok, exists_unit]
  rw [hfinish, hremovable]
  cases op with
  | removeLeaf obs =>
    simp only [bind_ok, exists_unit, when_ok, htree _ rfl, hempty, hpin]
    constructor
    · rintro ⟨⟨-, haccessible⟩, hdir⟩
      exact ⟨haccessible, hdir⟩
    · rintro ⟨haccessible, hdir⟩
      exact ⟨⟨fun hkind => ⟨hkind, hopened rfl hkind, hdir hkind⟩, haccessible⟩,
        hdir⟩
  | _ =>
    simp only [bind_ok, exists_unit, hpin, requirePriorBackupState, hledger, whenSome, and_true]

theorem holdsRecorded_of_discardLeaf {uid : Nat}
    (hledger : ledgerDirectory (some state) = some state) (hpres : state.isPresent = true)
    (hentry : system.entry op.key = some entry)
    (h : discardLeaf objects uid system (some state) op = .ok ()) :
    holdsRecorded objects uid system op.key entry state = true := by
  unfold discardLeaf at h
  simp only [hentry, whenSome, bind_ok, exists_unit] at h
  obtain ⟨-, hfinish⟩ := h
  unfold finishPriorBackup at hfinish
  simp only [hledger] at hfinish
  unfold requirePriorRemovalState at hfinish
  rw [bind_unit_ok] at hfinish
  obtain ⟨hstate, -⟩ := hfinish
  rcases state with (_ | _) | (_ | directory) | (_ | _) | (_ | tree)
  case directory.some =>
    simp only [requireTargetState, requireDirectoryState, bind_ok, require_ok, hentry,
      Option.some.injEq, exists_eq_left', exists_unit, reject_ok, not_or, not_not] at hstate
    obtain ⟨⟨hkind, -⟩, -⟩ := hstate
    unfold holdsRecorded
    cases hentryKind : entry.kind <;> simp [hentryKind, EntryKind.fileType] at hkind ⊢
  case tree.some =>
    simp only [requireTargetState] at hstate
    simp [holdsRecorded, hstate, okAnd]
  all_goals
    first
    | exact absurd hpres Bool.false_ne_true
    | cases hledger

/-! ## 4. Overlooked content -/

/-- The leaf is not owned, or not what the predecessor records for it. -/
def isForeign (objects : CanonicalObjects) (uid : Nat) (system : TargetSystem)
    (previous : Option StateGeneration) (key : TargetKey) : Bool :=
  (system.entry key).any fun entry =>
    (effectiveTarget (effectiveState previous) key).all fun state =>
      !holdsRecorded objects uid system key entry state

/-- What escapes both looks at the leaf: a recorded link, or a recorded file whose place something
else has taken. -/
def overlooked (system : TargetSystem) (previous : Option StateGeneration)
    (operation : PreparedOperation) : Bool :=
  (system.entry operation.key).any fun entry =>
    match effectiveTarget (effectiveState previous) operation.key with
    | some (.symlink (some _)) => removable system operation.key entry
    | some (.file (some file)) =>
      if looksForChanges operation then
        match entry.kind with
        | .file _ => false
        | .directory => system.isEmptyDirectory operation.key
        | _ => (system.readThrough operation.key).all (· = ⟨file.digest, file.byteLen⟩)
      else
        removable system operation.key entry
    | _ => false

/-- A leaf with foreign content goes away only with approval, or commit refuses. -/
def Guarded (objects : CanonicalObjects) (uid : Nat) (system : TargetSystem)
    (previous : Option StateGeneration) (findings : List PolicyFinding)
    (operation : PreparedOperation) : Prop :=
  discards operation = true → isForeign objects uid system previous operation.key = true →
    AsksApproval findings operation.key ∨
      ∃ error, discardLeaf objects uid system (priorTargetState previous operation.key)
        operation = .error error

def recordedContents : StateTargetState → Option Contents
  | .file (some file) => some ⟨file.digest, file.byteLen⟩
  | _ => none

theorem previousFileContents_of_effective
    (h : effectiveTarget (effectiveState prev) key = some state) :
    previousFileContents prev key = recordedContents state := by
  have hrecorded : recordedState prev key = some state := by
    cases prev with
    | none => cases h
    | some gen =>
      simp only [effectiveTarget, effectiveState, Option.map_some, Option.bind_some] at h
      split at h
      · rename_i henabled
        obtain ⟨hmap, -⟩ := Option.filter_eq_some_iff.1 h
        simp only [recordedState, Option.bind_some, henabled, ↓reduceIte]
        exact hmap
      · cases h
  unfold previousFileContents
  rw [hrecorded]
  rcases state with (_ | _) | (_ | _) | (_ | _) | (_ | _) <;> rfl

theorem exists_error_iff {α : Type} {ε : Type} {r : Except ε α} :
    (∃ error, r = .error error) ↔ ∀ value, r ≠ .ok value := by
  cases r <;> simp

theorem isRemoval_of_prepared {observation' : TargetObservation}
    (h : preparedOperation prev obs req = .ok (.removeLeaf observation')) :
    req.isRemoval = true := by
  cases req with
  | removeLeaf auth path => rfl
  | ensureDirectory auth path mode replaces =>
    simp only [preparedOperation] at h
    split at h
    · simp only [bind_ok, exists_unit, pure_ok, reduceCtorEq, and_false] at h
    · cases h
  | placeFile auth path artifactId mode replaces => cases h
  | placeSymlink auth path obj replaces => cases h
  | placeTree auth path tree prov replaces =>
    simp only [preparedOperation, bind_ok, exists_unit, pure_ok, reduceCtorEq, and_false] at h
  | assertAbsent auth path => cases h
  | assertExact auth path state =>
    simp only [preparedOperation, bind_ok, pure_ok, reduceCtorEq, and_false, exists_false] at h

/-- Foreign content of an owned slot is marked or refused unless it is overlooked. -/
theorem marked_or_refused_iff (hsound : observed.Sound system)
    (hobs : observeOperation config system prev req = .ok op)
    (hkey : op.key = req.key)
    (hrecorded : effectiveTarget (effectiveState prev) req.key = some state)
    (hentry : system.entry req.key = some entry)
    (hforeign : holdsRecorded objects config.effectiveUserId system req.key entry state =
      false) :
    ((looksForChanges op = true ∧
        isModified config system prev observed req.key = true) ∨
      ∃ error, discardLeaf objects config.effectiveUserId system (some state) op =
        .error error) ↔
      overlooked system prev op = false := by
  obtain ⟨obs, hat, hprep⟩ := observeOperation_ok hobs
  have hpres := effectiveTarget_isPresent hrecorded
  have hentry' : system.entry op.key = some entry := by rw [hkey, hentry]
  have hopened : op = .removeLeaf op.observation → entry.kind = .directory →
      entry.accessible = true := by
    intro hrem hkind
    have hdir := hat.directory entry hentry hkind
    have hdestructive : destructiveDirectoryChange req = true := by
      rw [hrem] at hprep
      simp [destructiveDirectoryChange, isRemoval_of_prepared hprep]
    unfold validateDirectoryLeaf at hdir
    simp only [bind_ok, exists_unit, reject_ok, hdestructive, true_and, Bool.not_eq_false] at hdir
    exact hdir.1
  have hmodified : isModified config system prev observed req.key =
      (recordedContents state).any fun expected =>
        (diskContents config system observed req.key).any (· ≠ expected) := by
    unfold isModified
    rw [previousFileContents_of_effective hrecorded]
  have hrefused : ledgerDirectory (some state) = none →
      ((∃ error, discardLeaf objects config.effectiveUserId system (some state) op =
        .error error) ↔ removable system req.key entry = false) := by
    intro hledger
    rw [exists_error_iff, ← Bool.not_eq_true, ← hkey, ← discardLeaf_ok_iff hledger hentry' hopened]
    constructor
    · intro h hok
      exact h () hok
    · rintro h ⟨⟩ hok
      exact h hok
  -- Directories and trees of the ledger are compared by commit.
  have hcompared : ledgerDirectory (some state) = some state →
      ∃ error, discardLeaf objects config.effectiveUserId system (some state) op =
        .error error := by
    intro hledger
    rw [exists_error_iff]
    rintro ⟨⟩ hok
    have hholds := holdsRecorded_of_discardLeaf hledger hpres hentry' hok
    rw [hkey, hforeign] at hholds
    cases hholds
  unfold overlooked
  rw [hkey, hentry, Option.any_some, hrecorded, hmodified]
  rcases state with (_ | file) | (_ | directory) | (_ | symlink) | (_ | tree)
  case symlink.some =>
    rw [hrefused rfl]
    simp [recordedContents]
  case file.some =>
    rw [hrefused rfl, recordedContents, Option.any_some]
    cases hlooks : looksForChanges op with
    | false => simp
    | true =>
      simp only [true_and, if_true]
      cases hkind : entry.kind with
      | file data =>
        have hne : data ≠ ⟨file.digest, file.byteLen⟩ := by
          simpa [holdsRecorded, hkind] using hforeign
        rcases diskContents_file hat hentry hsound hkind with hdisk | ⟨haccessible, hdisk⟩
        · rw [hdisk]
          simp [hne]
        · rw [hdisk]
          simp [removable, hkind, haccessible]
      | directory =>
        rw [diskContents_other hat hentry (by simp [hkind, EntryKind.fileType])]
        simp [TargetSystem.readEntry, hkind, removable]
      | _ =>
        rw [diskContents_other hat hentry (by simp [hkind, EntryKind.fileType])]
        cases hread : system.readThrough req.key <;>
          simp [TargetSystem.readEntry, hkind, removable, hread]
  case directory.some => simpa [recordedContents] using hcompared rfl
  case tree.some => simpa [recordedContents] using hcompared rfl
  all_goals exact absurd hpres Bool.false_ne_true

/-- The guard of one operation, once a plan is observed and its findings are pushed. -/
theorem finishPlan_guarded_iff {req : List PrepareOperation} {plan : DerivedPlan}
    (h : finishPlan config system objects prev observed artifacts findings synthesized
      desired req = .ok plan) (hsound : observed.Sound system)
    (hasserts : AssertsRecordedFiles prev req)
    (hnodup : (plan.operations.map PreparedOperation.key).Nodup)
    (hmem : op ∈ plan.operations) :
    Guarded objects config.effectiveUserId system prev plan.findings op ↔
      (discards op = true →
        isForeign objects config.effectiveUserId system prev op.key = true →
        overlooked system prev op = true → AsksApproval findings op.key) := by
  unfold finishPlan at h
  simp only [bind_ok, exists_unit, pure_ok, asRecordError, mapError_ok] at h
  obtain ⟨reconciled, hrec, -, ops, hoperations, -, checked, hchecked, appended,
    happended, rfl⟩ := h
  obtain rfl := mapM_new hchecked
  have hlocal := mapM_forall₂ hrec
  have hobs := forall₂_map_left_iff.1 (mapM_forall₂ hoperations)
  have hkeyOf : ∀ {req : PrepareOperation} {cand : PreparedOperation},
      observeOperation config system prev req = .ok cand →
      cand.key = req.key ∧ cand.key.1 ∈ config.targetAuthorities := by
    intro req cand hcand
    obtain ⟨obs, hat, hprep⟩ := observeOperation_ok hcand
    have hkey : cand.key = req.key := by
      rw [← hat.key, ← observation_of_prepared hprep]
      rfl
    exact ⟨hkey, by rw [hkey]; exact hat.authority⟩
  have hkeys : ops.map PreparedOperation.key =
      reconciled.map fun entry => entry.1.key := by
    clear happended hnodup hmem hlocal hrec hoperations
    induction hobs with
    | nil => rfl
    | cons hfirst _ ih => rw [map_cons, map_cons, (hkeyOf hfirst).1, ih]
  have hnames : ∀ cand ∈ ops, ':' ∉ cand.key.1 := by
    intro cand hcand
    obtain ⟨entry, -, hentry⟩ := exists_left_of_forall₂ hobs hcand
    exact config.named _ (hkeyOf hentry).2
  obtain ⟨entry, hentry, hobservedEntry⟩ := exists_left_of_forall₂ hobs hmem
  obtain ⟨src, hsource, hlocalEntry⟩ := exists_left_of_forall₂ hlocal hentry
  have hkey := (hkeyOf hobservedEntry).1
  unfold Guarded
  refine forall_congr' fun hdiscards => forall_congr' fun hforeign => ?_
  rw [asksApproval_iff happended hnames hmem hdiscards]
  -- The mark is on the entry of this operation: destinations are distinct.
  have hmarked : op.key ∈ changedKeys .drifted reconciled ↔ entry.2 = .drifted := by
    unfold changedKeys
    rw [mem_map]
    constructor
    · rintro ⟨cand, hcand, hsame⟩
      obtain ⟨hcand, hdrifted⟩ := mem_filter.1 hcand
      rw [hkeys] at hnodup
      have heq := inj_on_of_nodup_map hnodup hcand hentry (hsame.trans hkey)
      rw [← heq]
      simpa using hdrifted
    · intro hdrifted
      exact ⟨entry, mem_filter.2 ⟨hentry, by simpa using hdrifted⟩, hkey.symm⟩
  have hassertsSource : AssertsRecordedFiles prev [src] := by
    intro cand hcand
    rw [mem_singleton.1 hcand]
    exact hasserts src hsource
  rw [hmarked, drifted_iff hassertsSource hlocalEntry hobservedEntry hdiscards]
  obtain ⟨-, live, hlive⟩ := entry_of_discards hobservedEntry hdiscards
  have howned : previouslyOwnedTarget prev op.key =
      (effectiveTarget (effectiveState prev) entry.1.key).isSome := by
    rw [hkey, isSome_effectiveTarget]
    rfl
  rw [howned]
  cases hrecorded : effectiveTarget (effectiveState prev) entry.1.key with
  | none =>
    have hnot : overlooked system prev op = false := by
      unfold overlooked
      rw [hkey, hlive, hrecorded]
      rfl
    simp [hnot]
  | some state =>
    have hholds : holdsRecorded objects config.effectiveUserId system entry.1.key live state =
        false := by
      rw [isForeign, hkey, hlive, hrecorded] at hforeign
      simpa using hforeign
    have hprior : priorTargetState prev op.key = some state := by
      rw [hkey]
      exact priorTargetState_of_effective hrecorded
    have hiff : ((looksForChanges op = true ∧
          isModified config system prev observed entry.1.key = true) ∨
        ∃ error, discardLeaf objects config.effectiveUserId system (some state) op =
          .error error) ↔ overlooked system prev op = false :=
      marked_or_refused_iff hsound hobservedEntry hkey hrecorded hlive hholds
    rw [hprior]
    simp only [Option.isSome_some, Bool.true_eq_false, or_false]
    rw [or_assoc, hiff]
    cases overlooked system prev op <;> simp

theorem assertion_of_mutation {artifactId : Digest → Nat → Except EngineError ArtifactId}
    {replaces : TargetKey → Bool} {mutation : RequiredTargetMutation} {view : PrepareTargetState}
    (h : mutationOperation artifactId replaces mutation =
      .ok (.assertExact auth path view)) :
    ∃ state, targetStateView state = .ok view ∧
      mutation = .assertExact auth path state := by
  cases mutation with
  | assertExact mutationAuthority mutationPath state =>
    simp only [mutationOperation, bind_ok] at h
    obtain ⟨found, hview, hchecked⟩ := h
    cases checked_ok hchecked
    exact ⟨state, hview, rfl⟩
  | placeFile mutationAuthority mutationPath digest byteLen mode =>
    simp only [mutationOperation, bind_ok] at h
    obtain ⟨found, -, hchecked⟩ := h
    cases checked_ok hchecked
  | ensureDirectory mutationAuthority mutationPath mode => cases checked_ok h
  | placeSymlink mutationAuthority mutationPath object => cases checked_ok h
  | placeTree mutationAuthority mutationPath tree prov => cases checked_ok h
  | removeLeaf mutationAuthority mutationPath => cases checked_ok h

theorem before_of_assertExact {held : Bool} {before after : Option StateTargetState}
    (h : expectedMutation key held before after =
      some (.assertExact auth path state)) : before = some state := by
  cases after with
  | some after =>
    rw [expectedMutation_some, Option.some.injEq] at h
    split at h
    · rename_i hbefore
      cases h
      exact hbefore
    · exfalso
      rcases after with (_ | _) | (_ | _) | (_ | _) | (_ | _) <;> cases h
  | none =>
    cases before with
    | none => cases h
    | some before =>
      rw [expectedMutation_removed] at h
      split at h <;> cases h

/-- A file that a mutation asserts is recorded. -/
theorem recorded_of_mutation {artifactId : Digest → Nat → Except EngineError ArtifactId}
    {replaces : TargetKey → Bool} {required : List RequiredTargetMutation}
    (hreq : requiredTargetMutations (effectiveState prev) nextLifecycle desired = .ok required)
    {mutation : RequiredTargetMutation} (hmut : mutation ∈ required)
    (hplaced : mutationOperation artifactId replaces mutation =
      .ok (.assertExact auth path (.file digest byteLen mode))) :
    previousFileContents prev (auth, path) = some ⟨digest, byteLen⟩ := by
  obtain ⟨state, hstate, rfl⟩ := assertion_of_mutation hplaced
  rcases targetStateView_ok hstate with ⟨file, rfl, hview⟩ | ⟨dir, rfl, hview⟩ |
      ⟨symlink, rfl, hview⟩ | ⟨tree, rfl, hview⟩ <;> cases hview
  have hexp := (mem_required hreq).1 hmut
  have hbefore : effectiveTarget (effectiveState prev) (auth, path) =
      some (.file (some file)) := before_of_assertExact hexp
  rw [previousFileContents_of_effective hbefore]
  rfl

theorem completed_assertsRecordedFiles {req completed : List PrepareOperation}
    (h : completeReconciliationOperations prev desired artifacts req = .ok completed) :
    AssertsRecordedFiles prev completed := by
  unfold completeReconciliationOperations at h
  simp only [bind_ok, pure_ok, asStateError, mapError_ok] at h
  obtain ⟨required, hreq, mutated, hmutated, rfl⟩ := h
  rintro op hmem auth path digest byteLen mode rfl
  rcases mem_append.1 hmem with hmem | hmem
  · obtain ⟨mutation, hmut, hplaced⟩ :=
      exists_left_of_forall₂ (mapM_forall₂ hmutated) hmem
    exact recorded_of_mutation hreq hmut hplaced
  · have := (mem_filter.1 hmem).2
    simp [declaresAbsence] at this

/-- A lifecycle transition asserts only recorded files, too. -/
theorem selectedOperations_assertsRecordedFiles {current : StateGeneration}
    {operations : List PrepareOperation} {assertAbsentTargets : Bool}
    (h : selectedOperations current nextLifecycle desired assertAbsentTargets = .ok operations) :
    AssertsRecordedFiles (some current) operations := by
  unfold selectedOperations at h
  simp only [bind_ok, pure_ok, asStateError, mapError_ok] at h
  obtain ⟨required, hreq, ⟨lengths, mutated⟩, hfold, asserted, hasserted, rfl⟩ := h
  intro op hmem
  rcases mem_append.1 hmem with hmem | hmem
  · refine foldlM_preserves (P := fun state => AssertsRecordedFiles (some current) state.2) hfold ?_
      (fun _ h => by cases h) op hmem
    rintro mutation hmut ⟨lengths, before⟩ after hbefore hstep op hmem
    simp only [bind_ok, pure_ok] at hstep
    obtain ⟨_, -, placed, hplaced, rfl⟩ := hstep
    rcases mem_append.1 hmem with hmem | hmem
    · exact hbefore op hmem
    · obtain rfl := mem_singleton.1 hmem
      rintro auth path digest byteLen mode rfl
      exact recorded_of_mutation hreq hmut hplaced
  · obtain ⟨t, -, hchecked⟩ := exists_left_of_forall₂ (mapM_forall₂ hasserted) hmem
    rintro auth path digest byteLen mode rfl
    cases checked_ok hchecked

/-! ## 5. Prepared plans -/

theorem buildRecord_ok {codec : PlanCodec} {rec built : PreparedRecord}
    (h : buildRecord codec rec findings = .ok built) :
    built.operations = rec.operations ∧ built.desiredSnapshot = rec.desiredSnapshot ∧
      (rec.operations.map PreparedOperation.key).Nodup := by
  unfold buildRecord PreparedRecord.tryFrom withAuthority at h
  simp only [bind_ok, exists_unit, pure_ok, asRecordError, mapError_ok] at h
  obtain ⟨-, -, tried, htried, -, -, -, -, -, -, -, -, -, rfl⟩ := h
  obtain ⟨-, -, -, -, -, -, -, -, -, hduplicates, -, bytes, -, -, -, -, rfl⟩ := htried
  refine ⟨rfl, rfl, ?_⟩
  unfold rejectDuplicates at hduplicates
  split at hduplicates
  · assumption
  · cases hduplicates

section Plans

variable {codec : PlanCodec} {machine : Machine} {state : StoreState}
  {explicitState : Option ExplicitPreparedState} {trackedRoot : Option TrackedRoot}
  {request : PrepareRequest} {plan : PreparedPlan}

theorem prepareInner_ok
    (h : prepareInner codec machine state config system objects observed explicitState
      trackedRoot request = .ok plan)
    (hprevious : loadExpectedGeneration codec state request.namespaceName request.expectedHead =
      .ok prev) :
    ∃ derived, derivePlan config system objects prev observed explicitState request =
        .ok derived ∧
      plan.record.operations = derived.operations ∧ plan.findings = derived.findings ∧
      plan.record.desiredSnapshot = derived.desiredSnapshot ∧
      (derived.operations.map PreparedOperation.key).Nodup := by
  unfold prepareInner at h
  simp only [bind_ok, exists_unit, pure_ok, hprevious, Except.ok.injEq, exists_eq_left'] at h
  obtain ⟨-, -, -, derived, hderived, rec, hrecord, -, tr, -, rfl⟩ := h
  obtain ⟨hoperations, hsnap, hnodup⟩ := buildRecord_ok hrecord
  exact ⟨derived, hderived, hoperations, rfl, hsnap, hnodup⟩

/-- Every operation of a plan discards foreign content only with an approval or a refusal, exactly
when it is not overlooked or the request asks itself. A lifecycle transition asserts recorded
files (`selectedOperations_assertsRecordedFiles`). -/
theorem plan_guarded_iff {op : PreparedOperation}
    (hplan : prepareInner codec machine state config system objects observed explicitState
      trackedRoot request = .ok plan)
    (hprevious : loadExpectedGeneration codec state request.namespaceName request.expectedHead =
      .ok prev) (hsound : observed.Sound system) (hasserts : explicitState.isSome = true →
      AssertsRecordedFiles prev request.operations)
    (hmem : op ∈ plan.record.operations) :
    Guarded objects config.effectiveUserId system prev plan.findings op ↔
      (discards op = true →
        isForeign objects config.effectiveUserId system prev op.key = true →
        overlooked system prev op = true →
          AsksApproval request.findings op.key) := by
  obtain ⟨derived, hderived, hoperations, hfindings, -, hnodup⟩ := prepareInner_ok hplan hprevious
  rw [hfindings]
  rw [hoperations] at hmem
  unfold derivePlan at hderived
  split at hderived
  · unfold deriveReconciliation at hderived
    simp only [bind_ok] at hderived
    obtain ⟨synthesized, -, desired, -, completed, hcompleted, hfinished⟩ := hderived
    exact finishPlan_guarded_iff hfinished hsound (completed_assertsRecordedFiles hcompleted) hnodup
      hmem
  · exact finishPlan_guarded_iff hderived hsound (hasserts rfl) hnodup hmem

end Plans

/-! ## 6. A changed file -/

/-- A file that its owner can read. -/
def readableFile (contents : Contents) : Entry where
  kind := .file contents
  identity := ⟨1, 2, 1000, 1000, 0o100600#32, 1, contents.byteLen, 0, 0, 0, 0⟩
  accessible := true
  typed := by
    show FileType.fromRawMode 0o100600#32 = .regularFile
    decide
  sized := by
    intro found h
    cases h
    rfl

/-- A directory that its owner can use. -/
def privateDirectory : Entry where
  kind := .directory
  identity := ⟨1, 1, 1000, 1000, 0o040700#32, 2, 0, 0, 0, 0, 0⟩
  accessible := true
  typed := by decide
  sized := by
    intro contents h
    cases h

/-- The root of `d`, and at `x` other bytes than the recorded ones. -/
def changedFileSystem : TargetSystem where
  entries := (SortedMap.empty.insert (toLex (['d'], [])) privateDirectory).insert
    (toLex (['d'], ['x'])) (readableFile ⟨⟨9⟩, 4⟩)
  resolved := fun _ => .failed
  readThrough := fun _ => none
  closed := by decide

def changedFileConfig : EngineConfig := ⟨[['d']], 1000, fun _ => false, fun _ => false, fun _ => false, by decide⟩

/-- The link that a new request places at `x`. -/
def changedFileObjects : CanonicalObjects :=
  { CanonicalObjects.empty with symlinks := SortedMap.empty.insert ⟨2001⟩ ['t'] }

/-- The store after the file at `x` was committed. -/
def changedFileStore : ObjectStore :=
  { sampleObjects [sampleFilePlan ['w'] ['x'] 1] with
    symlinks := SortedMap.empty.insert ⟨2001⟩ (publishedFile (.canonical ['t'])) }

def changedFileCodec : PlanCodec := { sampleCodec with approvalDigest := fun _ => ⟨2⟩ }

/-- A reconciliation of the namespace after its first commit. -/
def changedFileRequest (operations : List PrepareOperation) : PrepareRequest where
  namespaceName := ['w']
  expectedHead := some ⟨101⟩
  graphDigest := ⟨0⟩
  inputs := []
  artifacts := []
  transforms := []
  findings := []
  operations := operations

/-- A request places a link at the changed file: the plan discards it without asking. -/
theorem changed_file_discarded :
    ∃ first prev plan op,
      commitStore sampleCodec sampleMachine ⟨changedFileStore, .empty⟩ (sampleRequest 1) =
        .ok first ∧
      loadExpectedGeneration changedFileCodec first.2 ['w'] (some ⟨101⟩) = .ok prev ∧
      prepareInner changedFileCodec sampleMachine first.2 changedFileConfig changedFileSystem
        changedFileObjects (fun _ => none) none none
        (changedFileRequest [.placeSymlink ['d'] ['x'] ⟨2001⟩ false]) = .ok plan ∧
      op ∈ plan.record.operations ∧
      ¬ Guarded changedFileObjects 1000 changedFileSystem prev plan.findings op := by
  have hcheck : okAnd (commitStore sampleCodec sampleMachine ⟨changedFileStore, .empty⟩
      (sampleRequest 1)) (fun first => okAnd
        (loadExpectedGeneration changedFileCodec first.2 ['w'] (some ⟨101⟩)) fun prev =>
        okAnd (prepareInner changedFileCodec sampleMachine first.2 changedFileConfig
          changedFileSystem changedFileObjects (fun _ => none) none none
          (changedFileRequest [.placeSymlink ['d'] ['x'] ⟨2001⟩ false])) fun plan =>
          plan.record.operations.any fun op =>
            discards op &&
            isForeign changedFileObjects 1000 changedFileSystem prev op.key &&
            plan.findings.all (fun finding => !finding.approvalRequired) &&
            okAnd (discardLeaf changedFileObjects 1000 changedFileSystem
              (priorTargetState prev op.key) op) fun _ => true) = true := by
    decide +kernel
  obtain ⟨first, hfirst, hprevious⟩ := okAnd_iff.1 hcheck
  obtain ⟨prev, hprevious, hplan⟩ := okAnd_iff.1 hprevious
  obtain ⟨plan, hplan, hop⟩ := okAnd_iff.1 hplan
  obtain ⟨op, hmem, hop⟩ := any_eq_true.1 hop
  simp only [Bool.and_eq_true, all_eq_true] at hop
  obtain ⟨⟨⟨hdiscards, hforeign⟩, hfindings⟩, hdiscarded⟩ := hop
  obtain ⟨⟨⟩, hdiscarded, -⟩ := okAnd_iff.1 hdiscarded
  refine ⟨first, prev, plan, op, hfirst, hprevious, hplan, hmem, fun hguarded => ?_⟩
  rcases hguarded hdiscards hforeign with ⟨finding, hfinding, happroval, -⟩ | ⟨error, herror⟩
  · have := hfindings finding hfinding
    rw [happroval] at this
    cases this
  · rw [hdiscarded] at herror
    cases herror

/-- The same change, and a request without targets: the removal is guarded. -/
theorem changed_file_removal_guarded :
    ∃ first prev plan op,
      commitStore sampleCodec sampleMachine ⟨changedFileStore, .empty⟩ (sampleRequest 1) =
        .ok first ∧
      loadExpectedGeneration changedFileCodec first.2 ['w'] (some ⟨101⟩) = .ok prev ∧
      prepareInner changedFileCodec sampleMachine first.2 changedFileConfig changedFileSystem
        changedFileObjects (fun _ => none) none none (changedFileRequest []) =
        .ok plan ∧
      op ∈ plan.record.operations ∧ discards op = true ∧
      isForeign changedFileObjects 1000 changedFileSystem prev op.key = true ∧
      Guarded changedFileObjects 1000 changedFileSystem prev plan.findings op := by
  have hcheck : okAnd (commitStore sampleCodec sampleMachine ⟨changedFileStore, .empty⟩
      (sampleRequest 1)) (fun first => okAnd
        (loadExpectedGeneration changedFileCodec first.2 ['w'] (some ⟨101⟩)) fun prev =>
        okAnd (prepareInner changedFileCodec sampleMachine first.2 changedFileConfig
          changedFileSystem changedFileObjects (fun _ => none) none none
          (changedFileRequest [])) fun plan =>
          plan.record.operations.any fun op =>
            discards op &&
            isForeign changedFileObjects 1000 changedFileSystem prev op.key &&
            !overlooked changedFileSystem prev op) = true := by
    decide +kernel
  obtain ⟨first, hfirst, hprevious⟩ := okAnd_iff.1 hcheck
  obtain ⟨prev, hprevious, hplan⟩ := okAnd_iff.1 hprevious
  obtain ⟨plan, hplan, hop⟩ := okAnd_iff.1 hplan
  obtain ⟨op, hmem, hop⟩ := any_eq_true.1 hop
  simp only [Bool.and_eq_true, Bool.not_eq_true'] at hop
  obtain ⟨⟨hdiscards, hforeign⟩, hoverlooked⟩ := hop
  refine ⟨first, prev, plan, op, hfirst, hprevious, hplan, hmem, hdiscards, hforeign,
    (plan_guarded_iff hplan hprevious (fun _ _ _ _ _ h => by cases h) (fun h => by cases h) hmem).2 fun _ _ h => ?_⟩
  rw [hoverlooked] at h
  cases h

end Malm.Engine
