/-
Malm.Engine.ManifestTheorems — the operations a reconciliation derives,
against the op manifest.

Every required mutation is rewritten up to three times. `Derivation` says once what it can
become; the validator's table of allowed pairs is then one case analysis.
-/
import Malm.Engine.ObserveTheorems
import Malm.Store.SnapshotTheorems

namespace Malm.Engine

open Store Commit Target Checks List Except Option PreparedOperation

variable {config : EngineConfig} {system : TargetSystem} {prev : Option StateGeneration}
  {observed : ObservedIdentities} {artifacts : List PreparedArtifact}

/-! ## 1. From a mutation to its operation -/

/-- What an observation says about the leaf of a destination. -/
structure ObservedLeaf (system : TargetSystem) (key : TargetKey)
    (observation : TargetObservation) : Prop where
  destination : observation.key = key
  leaf : observation.leaf = leafObservation (system.entry key)

/-- What a required mutation can become. -/
inductive Derivation (system : TargetSystem) (previous : Option StateGeneration)
    (artifacts : List PreparedArtifact) : RequiredTargetMutation → PreparedOperation → Prop
  | directory {auth path mode observation} :
    ObservedLeaf system (auth, path) observation →
    ¬ (previousOwnsTarget previous (auth, path) = false ∧
      isRequestedDirectory mode observation.leaf = true) →
    Derivation system previous artifacts (.ensureDirectory auth path mode)
      (.ensureDirectory observation mode)
  | adopted {auth path mode observation} :
    ObservedLeaf system (auth, path) observation →
    previousOwnsTarget previous (auth, path) = false →
    isRequestedDirectory mode observation.leaf = true →
    validateStateDirectory ⟨mode⟩ = .ok () →
    Derivation system previous artifacts (.ensureDirectory auth path mode)
      (.assertExact observation (.directory (some ⟨mode⟩)))
  | file {auth path digest byteLen mode artifactId observation} :
    ObservedLeaf system (auth, path) observation →
    artifactWithContents artifacts digest byteLen = some artifactId →
    Derivation system previous artifacts (.placeFile auth path digest byteLen mode)
      (.placeFile observation artifactId mode observation.leaf.isPresent)
  | symlink {auth path object observation} :
    ObservedLeaf system (auth, path) observation →
    Derivation system previous artifacts (.placeSymlink auth path object)
      (.placeSymlink observation object observation.leaf.isPresent)
  | tree {auth path tree archiveProvenance observation} :
    ObservedLeaf system (auth, path) observation →
    Derivation system previous artifacts
      (.placeTree auth path tree archiveProvenance)
      (.placeTree observation tree archiveProvenance observation.leaf.isPresent)
  | removal {auth path observation} :
    ObservedLeaf system (auth, path) observation →
    Derivation system previous artifacts (.removeLeaf auth path)
      (.removeLeaf observation)
  | asserted {auth path state observation} :
    ObservedLeaf system (auth, path) observation →
    observation.leaf.isPresent = true → validateTargetState state = .ok () →
    state.isPresent = true →
    Derivation system previous artifacts (.assertExact auth path state)
      (.assertExact observation state)
  | restoredFile {auth path file artifactId observation} :
    ObservedLeaf system (auth, path) observation →
    artifactWithContents artifacts file.digest file.byteLen = some artifactId →
    Derivation system previous artifacts
      (.assertExact auth path (.file (some file)))
      (.placeFile observation artifactId file.mode observation.leaf.isPresent)
  | restoredDirectory {auth path directory observation} :
    ObservedLeaf system (auth, path) observation →
    observation.leaf.isPresent = false →
    Derivation system previous artifacts
      (.assertExact auth path (.directory (some directory)))
      (.ensureDirectory observation directory.mode)
  | restoredSymlink {auth path symlink observation} :
    ObservedLeaf system (auth, path) observation →
    observation.leaf.isPresent = false →
    Derivation system previous artifacts
      (.assertExact auth path (.symlink (some symlink)))
      (.placeSymlink observation symlink.object false)
  | restoredTree {auth path tree observation} :
    ObservedLeaf system (auth, path) observation →
    observation.leaf.isPresent = false →
    Derivation system previous artifacts
      (.assertExact auth path (.tree (some tree)))
      (.placeTree observation tree.tree tree.archiveProvenance false)

theorem ObservedAt.observedLeaf {op : PrepareOperation} {obs : TargetObservation}
    (h : ObservedAt config system prev op obs) :
    ObservedLeaf system op.key obs :=
  ⟨h.key, h.leaf⟩

variable {auth : DeploymentName} {path : Text} {op : PreparedOperation}
  {mode : BitVec 32} {replaces : Bool} {reconciled : PrepareOperation × LocalChange}
  {mutation : RequiredTargetMutation} {operations : List PreparedOperation}
  {gen : StateGeneration} {next : DesiredSnapshot} {required : List RequiredTargetMutation}
  {req : List PrepareOperation}

theorem derivation_asserted {s : StateTargetState} {view : PrepareTargetState}
    (hview : targetStateView s = .ok view)
    (h : observeOperation config system prev (.assertExact auth path view) =
      .ok op) :
    Derivation system prev artifacts (.assertExact auth path s)
      op := by
  obtain ⟨obs, hat, hprep⟩ := observeOperation_ok h
  have hpres : obs.leaf.isPresent = true := by
    have hpolicy := hat.policy
    unfold validateLeafForOperation validateConflictPolicy at hpolicy
    simp only [bind_ok, exists_unit, reject_ok] at hpolicy
    rw [hat.isPresent]
    exact isSome_iff_ne_none.2 fun hnone => hpolicy.2.1 (by rw [hnone]; rfl)
  rcases targetStateView_ok hview with ⟨file, rfl, rfl⟩ | ⟨dir, rfl, rfl⟩ |
      ⟨symlink, rfl, rfl⟩ | ⟨tree, rfl, rfl⟩ <;>
    simp only [preparedOperation, targetStateRecord, bind_ok, exists_unit,
      pure_ok, asStateError, mapError_ok, ok.injEq] at hprep
  · obtain ⟨s, ⟨hvalid, rfl⟩, rfl⟩ := hprep
    exact .asserted hat.observedLeaf hpres hvalid rfl
  · obtain ⟨s, ⟨hvalid, rfl⟩, rfl⟩ := hprep
    exact .asserted hat.observedLeaf hpres hvalid rfl
  · obtain ⟨s, rfl, rfl⟩ := hprep
    exact .asserted hat.observedLeaf hpres rfl rfl
  · obtain ⟨s, ⟨hvalid, rfl⟩, rfl⟩ := hprep
    refine .asserted hat.observedLeaf hpres ?_ rfl
    simp only [asRecordError, mapError_ok, whenSome_ok] at hvalid
    simp only [validateTargetState, whenSome_ok, asState, mapError_ok]
    exact hvalid

theorem observeOperation_placeFile {artifactId : ArtifactId}
    (h : observeOperation config system prev
      (.placeFile auth path artifactId mode replaces) = .ok op) :
    ∃ obs, ObservedLeaf system (auth, path) obs ∧
      op = .placeFile obs artifactId mode obs.leaf.isPresent := by
  obtain ⟨obs, hat, hprep⟩ := observeOperation_ok h
  exact ⟨obs, hat.observedLeaf, (ok.inj hprep).symm⟩

theorem observeOperation_placeSymlink {obj : Digest}
    (h : observeOperation config system prev
      (.placeSymlink auth path obj replaces) = .ok op) :
    ∃ obs, ObservedAt config system prev
        (.placeSymlink auth path obj replaces) obs ∧
      op = .placeSymlink obs obj obs.leaf.isPresent := by
  obtain ⟨obs, hat, hprep⟩ := observeOperation_ok h
  exact ⟨obs, hat, (ok.inj hprep).symm⟩

theorem observeOperation_placeTree {tree : Digest} {prov : Option ArchiveProvenance}
    (h : observeOperation config system prev
      (.placeTree auth path tree prov replaces) = .ok op) :
    ∃ obs, ObservedAt config system prev
        (.placeTree auth path tree prov replaces) obs ∧
      op =
        .placeTree obs tree prov obs.leaf.isPresent := by
  obtain ⟨obs, hat, hprep⟩ := observeOperation_ok h
  simp only [preparedOperation, bind_ok, exists_unit, pure_ok] at hprep
  exact ⟨obs, hat, hprep.2.symm⟩

theorem observeOperation_ensureDirectory (h : observeOperation config system prev
      (.ensureDirectory auth path mode replaces) = .ok op) :
    ∃ obs, ObservedAt config system prev
        (.ensureDirectory auth path mode replaces) obs ∧
      ((previousOwnsTarget prev (auth, path) = false ∧
          isRequestedDirectory mode obs.leaf = true ∧
          validateStateDirectory ⟨mode⟩ = .ok () ∧
          op = .assertExact obs (.directory (some ⟨mode⟩))) ∨
        (¬ (previousOwnsTarget prev (auth, path) = false ∧
            isRequestedDirectory mode obs.leaf = true) ∧
          op = .ensureDirectory obs mode)) := by
  obtain ⟨obs, hat, hprep⟩ := observeOperation_ok h
  refine ⟨obs, hat, ?_⟩
  simp only [preparedOperation] at hprep
  split at hprep
  · rename_i hadopt
    simp only [Bool.and_eq_true, Bool.not_eq_true'] at hadopt
    simp only [bind_ok, exists_unit, pure_ok, asStateError, mapError_ok] at hprep
    exact .inl ⟨hadopt.1, hadopt.2, hprep.1, hprep.2.symm⟩
  · rename_i hadopt
    simp only [Bool.and_eq_true, Bool.not_eq_true'] at hadopt
    exact .inr ⟨hadopt, (ok.inj hprep).symm⟩

theorem derivation_fileAssertion {file : StateFile} (hview : targetStateView (.file (some file)) =
      .ok (.file file.digest file.byteLen file.mode))
    (hreconciled : reconcileFileAssertion config system observed artifacts
      (auth, path) file.digest file.byteLen file.mode = .ok reconciled)
    (h : observeOperation config system prev reconciled.1 = .ok op) :
    Derivation system prev artifacts
      (.assertExact auth path (.file (some file))) op := by
  -- Both placements are made from an artifact with the asserted contents.
  have hplaced : ∀ {replaces : Bool} {artifactId : ArtifactId} {placed : PrepareOperation},
      artifactWithContents artifacts file.digest file.byteLen = some artifactId →
      (PrepareOperation.placeFile auth path artifactId file.mode
        replaces).checked = .ok placed →
      observeOperation config system prev placed = .ok op →
      Derivation system prev artifacts
        (.assertExact auth path (.file (some file))) op := by
    intro replaces artifactId placed hartifact hchecked hplaced
    obtain rfl := checked_ok hchecked
    obtain ⟨obs, hleaf, rfl⟩ := observeOperation_placeFile hplaced
    exact .restoredFile hleaf hartifact
  unfold reconcileFileAssertion at hreconciled
  split at hreconciled
  · split at hreconciled
    · cases hreconciled
      exact derivation_asserted hview h
    · simp only [bind_ok, require_ok, pure_ok] at hreconciled
      obtain ⟨artifactId, hartifact, placed, hchecked, rfl⟩ := hreconciled
      exact hplaced hartifact hchecked h
  · split at hreconciled
    · cases hreconciled
      exact derivation_asserted hview h
    · simp only [bind_ok, require_ok, pure_ok] at hreconciled
      obtain ⟨artifactId, hartifact, placed, hchecked, rfl⟩ := hreconciled
      exact hplaced hartifact hchecked h

theorem restoreMissing_ok {assertion placement : PrepareOperation}
    (h : restoreMissing config system assertion placement = .ok reconciled) :
    (targetLeafExists config system assertion.key = true ∧ reconciled = (assertion, .none)) ∨
      (targetLeafExists config system assertion.key = false ∧
        reconciled = (placement, .restored)) := by
  unfold restoreMissing at h
  split at h
  · rename_i hexists
    exact .inl ⟨hexists, (ok.inj h).symm⟩
  · rename_i hexists
    simp only [bind_ok, pure_ok] at h
    obtain ⟨op, hchecked, rfl⟩ := h
    obtain rfl := checked_ok hchecked
    exact .inr ⟨by simpa using hexists, rfl⟩

theorem ObservedAt.isPresent_of_not_leafExists {op : PrepareOperation}
    {obs : TargetObservation}
    (h : ObservedAt config system prev op obs)
    (hexists : targetLeafExists config system op.key = false) :
    obs.leaf.isPresent = false := by
  rw [h.isPresent, h.absent_of_not_leafExists hexists]
  rfl

/-- How a mutation becomes an operation, one case for each kind of mutation. -/
theorem derivation_of_ok {replaces : TargetKey → Bool} {req : PrepareOperation}
    (hrequested : mutationOperation
      (fun d byteLen =>
        require (artifactWithContents artifacts d byteLen) (.missingArtifact d))
      replaces mutation = .ok req)
    (hreconciled : reconcileOperation config system prev observed artifacts req =
      .ok reconciled) (h : observeOperation config system prev reconciled.1 = .ok op) :
    Derivation system prev artifacts mutation op := by
  cases mutation with
  | ensureDirectory auth path mode =>
    obtain rfl := checked_ok hrequested
    cases hreconciled
    obtain ⟨obs, hat, ⟨howned, hrequest, hvalid, rfl⟩ | ⟨hnot, rfl⟩⟩ :=
      observeOperation_ensureDirectory h
    · exact .adopted hat.observedLeaf howned hrequest hvalid
    · exact .directory hat.observedLeaf hnot
  | placeFile auth path d byteLen mode =>
    simp only [mutationOperation, bind_ok, require_ok] at hrequested
    obtain ⟨artifactId, hartifact, hchecked⟩ := hrequested
    obtain rfl := checked_ok hchecked
    cases hreconciled
    obtain ⟨obs, hleaf, rfl⟩ := observeOperation_placeFile h
    exact .file hleaf hartifact
  | placeSymlink auth path obj =>
    obtain rfl := checked_ok hrequested
    cases hreconciled
    obtain ⟨obs, hat, rfl⟩ := observeOperation_placeSymlink h
    exact .symlink hat.observedLeaf
  | placeTree auth path tree prov =>
    obtain rfl := checked_ok hrequested
    cases hreconciled
    obtain ⟨obs, hat, rfl⟩ := observeOperation_placeTree h
    exact .tree hat.observedLeaf
  | removeLeaf auth path =>
    obtain rfl := checked_ok hrequested
    cases hreconciled
    obtain ⟨obs, hat, hprep⟩ := observeOperation_ok h
    cases hprep
    exact .removal hat.observedLeaf
  | assertExact auth path s =>
    simp only [mutationOperation, bind_ok] at hrequested
    obtain ⟨view, hview, hchecked⟩ := hrequested
    obtain rfl := checked_ok hchecked
    rcases targetStateView_ok hview with ⟨file, rfl, rfl⟩ | ⟨dir, rfl, rfl⟩ |
        ⟨symlink, rfl, rfl⟩ | ⟨tree, rfl, rfl⟩
    · exact derivation_fileAssertion hview hreconciled h
    · rcases restoreMissing_ok hreconciled with ⟨-, rfl⟩ | ⟨hexists, rfl⟩
      · exact derivation_asserted hview h
      · obtain ⟨obs, hat, ⟨-, hrequest, -, -⟩ | ⟨-, rfl⟩⟩ :=
          observeOperation_ensureDirectory h
        · have habsent := hat.isPresent_of_not_leafExists hexists
          cases hleaf : obs.leaf with
          | absent =>
            rw [hleaf] at hrequest
            cases hrequest
          | present ident =>
            rw [hleaf] at habsent
            cases habsent
        · exact .restoredDirectory hat.observedLeaf (hat.isPresent_of_not_leafExists hexists)
    · rcases restoreMissing_ok hreconciled with ⟨-, rfl⟩ | ⟨hexists, rfl⟩
      · exact derivation_asserted hview h
      · obtain ⟨obs, hat, rfl⟩ := observeOperation_placeSymlink h
        have habsent := hat.isPresent_of_not_leafExists hexists
        rw [habsent]
        exact .restoredSymlink hat.observedLeaf habsent
    · rcases restoreMissing_ok hreconciled with ⟨-, rfl⟩ | ⟨hexists, rfl⟩
      · exact derivation_asserted hview h
      · obtain ⟨obs, hat, rfl⟩ := observeOperation_placeTree h
        have habsent := hat.isPresent_of_not_leafExists hexists
        rw [habsent]
        exact .restoredTree hat.observedLeaf habsent

/-! ## 2. Destinations -/

/-- What `reject_destination_prefixes` reads of an operation. -/
structure Destination where
  key : TargetKey
  shape : DestinationShape
  absence : Bool
deriving DecidableEq, Repr

def operationDestination (operation : PreparedOperation) : Destination :=
  ⟨operation.key, destinationShape operation, absenceShaped operation⟩

def mutationDestination : RequiredTargetMutation → Destination
  | .ensureDirectory auth path _ => ⟨(auth, path), .directory, false⟩
  | .removeLeaf auth path => ⟨(auth, path), .removal, true⟩
  | .assertExact auth path (.directory (some _)) =>
    ⟨(auth, path), .directory, false⟩
  | mutation => ⟨mutation.key, .leaf, false⟩

/-- Only a directory may lie above another destination, and a removal above an absent one. -/
def neighboursAllowed (left right : Destination) : Bool :=
  !(left.key.1 = right.key.1 && left.key.2.isAncestor right.key.2) ||
  match left.shape with
  | .directory => true
  | .removal => right.absence
  | .leaf => false

/-- Whether all neighbours of a set of destinations are allowed. -/
def destinationsAllowed (destinations : List Destination) : Bool :=
  decide ((destinations.insertionSort fun left right =>
    toLex (left.key.1, left.key.2.segments) ≤ toLex (right.key.1, right.key.2.segments)).IsChain
      fun left right => neighboursAllowed left right)

theorem rejectDestinationPrefixes_ok :
    rejectDestinationPrefixes operations = .ok () ↔
      destinationsAllowed (operations.map operationDestination) = true := by
  rw [rejectDestinationPrefixes, reject_ok, not_not, destinationsAllowed, decide_eq_true_eq]
  rw [← map_insertionSort (fun left right : PreparedOperation => toLex (left.observation.authority,
    left.observation.relativePath.segments) ≤ toLex (right.observation.authority,
    right.observation.relativePath.segments)) _ operationDestination _ fun _ _ _ _ => Iff.rfl,
    isChain_map]
  exact Iff.rfl

theorem Derivation.destination (h : Derivation system prev artifacts mutation op) :
    operationDestination op = mutationDestination mutation := by
  have hmk : ∀ {obs : TargetObservation} {key : TargetKey} (shape : DestinationShape)
      (absence : Bool), ObservedLeaf system key obs →
      Destination.mk obs.key shape absence = ⟨key, shape, absence⟩ := by
    intro obs key shape absence hleaf
    rw [hleaf.destination]
  cases h with
  | directory hleaf => exact hmk .directory false hleaf
  | adopted hleaf => exact hmk .directory false hleaf
  | file hleaf => exact hmk .leaf false hleaf
  | symlink hleaf => exact hmk .leaf false hleaf
  | tree hleaf => exact hmk .leaf false hleaf
  | removal hleaf => exact hmk .removal true hleaf
  | restoredFile hleaf => exact hmk .leaf false hleaf
  | restoredDirectory hleaf => exact hmk .directory false hleaf
  | restoredSymlink hleaf => exact hmk .leaf false hleaf
  | restoredTree hleaf => exact hmk .leaf false hleaf
  | @asserted _ _ s _ hleaf =>
    rcases s with (_ | _) | (_ | _) | (_ | _) | (_ | _) <;>
      first
      | exact hmk .leaf false hleaf
      | exact hmk .directory false hleaf

/-! ## 3. The table of allowed pairs -/

/-- An owned directory exists; another is missing, or there with its mode and a destination. -/
def directoryObtainable (system : TargetSystem) (ownedBefore below : Bool) (key : TargetKey)
    (mode : BitVec 32) : Bool :=
  match system.entry key with
  | none => !ownedBefore
  | some entry =>
    ownedBefore ||
      (below && entry.kind = .directory && entry.identity.mode &&& 0o7777#32 = mode)

/-- A required directory can be had; nothing else is asked of other mutations. -/
def mutationObtainable (system : TargetSystem) (ownedBefore below : Bool) :
    RequiredTargetMutation → Bool
  | .ensureDirectory auth path mode =>
    directoryObtainable system ownedBefore below (auth, path) mode
  | _ => true

theorem isRequestedDirectory_iff {e : Entry} :
    isRequestedDirectory mode (leafObservation (some e)) = true ↔
      e.kind = .directory ∧ e.identity.mode &&& 0o7777#32 = mode := by
  simp only [isRequestedDirectory, leafObservation, Bool.and_eq_true, decide_eq_true_eq, e.typed]
  refine and_congr_left fun _ => ?_
  cases e.kind <;> simp [EntryKind.fileType]

theorem find?_of_artifactWithContents {sorted : List PreparedArtifact} {d : Digest}
    {byteLen : Nat} {artifactId : ArtifactId} (hperm : sorted.Perm artifacts)
    (hnodup : (artifacts.map PreparedArtifact.id).Nodup)
    (h : artifactWithContents artifacts d byteLen = some artifactId) :
    ∃ art, sorted.find? (fun art => decide (art.id = artifactId)) = some art ∧
      art.digest = d ∧ art.byteLen = byteLen := by
  obtain ⟨art, hfound, rfl⟩ := map_eq_some_iff.1 h
  have hmem : art ∈ artifacts := mem_reverse.1 (mem_of_find?_eq_some hfound)
  have hcontents : art.digest = d ∧ art.byteLen = byteLen := by
    simpa using find?_some hfound
  have hsorted : (sorted.map PreparedArtifact.id).Nodup := (hperm.map _).nodup_iff.2 hnodup
  exact ⟨art, (Keyed.find?_eq_some hsorted).2 ⟨hperm.mem_iff.2 hmem, rfl⟩, hcontents⟩

/-- Operations an owned slot is asserted or removed by. -/
def needsOwner : RequiredTargetMutation → Bool
  | .removeLeaf _ _ => true
  | .assertExact _ _ _ => true
  | _ => false

theorem Derivation.matches_iff {sorted : List PreparedArtifact} {below : Bool}
    (h : Derivation system prev artifacts mutation op) (hperm : sorted.Perm artifacts)
    (hnodup : (artifacts.map PreparedArtifact.id).Nodup)
    (howner : needsOwner mutation = true → previousOwnsTarget prev mutation.key = true) :
    validateRequiredOperation mutation op (previousOwnsTarget prev mutation.key) below
        sorted = .ok () ↔
      mutationObtainable system (previousOwnsTarget prev mutation.key) below mutation =
        true := by
  unfold validateRequiredOperation
  simp only [bind_ok, exists_unit, reject_ok, not_not]
  cases h with
  | @directory auth path mode obs hleaf hnot =>
    simp only [looksUpArtifact, requiredOperationMatches, mutationObtainable,
      directoryObtainable, observation, RequiredTargetMutation.key,
      Bool.false_eq_true, false_and, not_false_eq_true, true_and, decide_true, Bool.true_and]
    rw [hleaf.leaf] at hnot ⊢
    cases hentry : system.entry (auth, path) with
    | none =>
      cases previousOwnsTarget prev (auth, path) <;>
        simp [leafObservation, LeafObservation.isPresent]
    | some e =>
      rw [hentry, isRequestedDirectory_iff] at hnot
      cases howned : previousOwnsTarget prev (auth, path) with
      | true => simp [leafObservation, LeafObservation.isPresent]
      | false =>
        have := fun hkind hmode => hnot ⟨howned, hkind, hmode⟩
        simp only [leafObservation, LeafObservation.isPresent, beq_iff_eq, Bool.false_or,
          Bool.and_eq_true, decide_eq_true_eq]
        constructor
        · intro hfalse
          cases hfalse
        · rintro ⟨⟨-, hkind⟩, hmode⟩
          exact absurd hmode (this hkind)
  | @adopted auth path mode obs hleaf howned hrequest =>
    simp only [looksUpArtifact, requiredOperationMatches, mutationObtainable, directoryObtainable,
      observation, RequiredTargetMutation.key, howned, Bool.false_eq_true, false_and,
      not_false_eq_true, true_and, decide_true, Bool.true_and, Bool.not_false, Bool.and_true]
    rw [hleaf.leaf] at hrequest ⊢
    cases hentry : system.entry (auth, path) with
    | none =>
      rw [hentry] at hrequest
      cases hrequest
    | some e =>
      rw [hentry, isRequestedDirectory_iff] at hrequest
      simp [leafObservation, LeafObservation.isPresent, hrequest.1, hrequest.2]
  | file hleaf hartifact =>
    obtain ⟨art, hfound, hdigest, hlen⟩ :=
      find?_of_artifactWithContents hperm hnodup hartifact
    simp only [artifactId, some.injEq, hfound]
    simp [looksUpArtifact, requiredOperationMatches, mutationObtainable, observation, hdigest, hlen]
  | symlink hleaf =>
    simp [looksUpArtifact, requiredOperationMatches, mutationObtainable, observation]
  | tree hleaf =>
    simp [looksUpArtifact, requiredOperationMatches, mutationObtainable, observation]
  | removal hleaf =>
    simp [looksUpArtifact, requiredOperationMatches, mutationObtainable, howner rfl]
  | asserted hleaf hpres =>
    simp [looksUpArtifact, requiredOperationMatches, mutationObtainable, howner rfl,
      observation, hpres]
  | restoredFile hleaf hartifact =>
    obtain ⟨art, hfound, hdigest, hlen⟩ :=
      find?_of_artifactWithContents hperm hnodup hartifact
    simp only [artifactId, some.injEq, hfound]
    simp [looksUpArtifact, requiredOperationMatches, mutationObtainable, howner rfl,
      observation, hdigest, hlen]
  | restoredDirectory hleaf habsent =>
    simp [looksUpArtifact, requiredOperationMatches, mutationObtainable, howner rfl,
      observation, habsent]
  | restoredSymlink hleaf habsent =>
    simp [looksUpArtifact, requiredOperationMatches, mutationObtainable, howner rfl,
      observation, habsent]
  | restoredTree hleaf habsent =>
    simp [looksUpArtifact, requiredOperationMatches, mutationObtainable, howner rfl,
      observation, habsent]

section

variable (h : Derivation system prev artifacts mutation op)
include h

theorem Derivation.semantics :
    validateOperationSemantics op = .ok () := by
  cases h with
  | directory hleaf => rfl
  | adopted hleaf howned hrequest hvalid =>
    have hpres : ∀ {leaf : LeafObservation} {mode : BitVec 32},
        isRequestedDirectory mode leaf = true → leaf.isPresent = true := by
      intro leaf mode h
      cases leaf with
      | absent => cases h
      | present ident => rfl
    simp [validateOperationSemantics, bind_ok, exists_unit, reject_ok, hpres hrequest,
      StateTargetState.isPresent, asDesiredSnapshot, validateTargetState, hvalid, Except.mapError]
  | file hleaf => simp [validateOperationSemantics, reject_ok]
  | symlink hleaf => simp [validateOperationSemantics, reject_ok]
  | tree hleaf => simp [validateOperationSemantics, reject_ok]
  | removal hleaf => rfl
  | asserted hleaf hpres hvalid hstate =>
    simp [validateOperationSemantics, bind_ok, exists_unit, reject_ok,
      hpres, hstate, asDesiredSnapshot, hvalid, Except.mapError]
  | restoredFile hleaf => simp [validateOperationSemantics, reject_ok]
  | restoredDirectory hleaf => rfl
  | restoredSymlink hleaf habsent => simp [validateOperationSemantics, reject_ok, habsent]
  | restoredTree hleaf habsent => simp [validateOperationSemantics, reject_ok, habsent]

theorem Derivation.key :
    op.key = mutation.key := by
  have hdest := congrArg Destination.key h.destination
  have hmut : (mutationDestination mutation).key = mutation.key := by
    unfold mutationDestination
    split <;> rfl
  exact hdest.trans hmut

theorem Derivation.not_assertAbsent :
    op.isAssertAbsent = false := by
  cases h <;> rfl

end

/-! ## 4. The manifest -/

theorem previousOwnsTarget_eq {key : TargetKey}
    (hordered : StrictlyOrdered gen.desiredSnapshot.targets) :
    previousOwnsTarget (some gen) key = effectivePresent (some gen) key := by
  unfold previousOwnsTarget effectivePresent effectiveState effectiveTargetIsPresent
  simp only [any_some, map_some]
  congr 1
  rw [Bool.eq_iff_iff, List.any_eq_true, Option.any_eq_true]
  constructor
  · rintro ⟨t, hmem, htarget⟩
    simp only [Bool.and_eq_true, decide_eq_true_eq] at htarget
    exact ⟨t, hordered.target_eq_some.2 ⟨hmem, htarget.2⟩, htarget.1⟩
  · rintro ⟨t, htarget, hpres⟩
    obtain ⟨hmem, hkey⟩ := hordered.target_eq_some.1 htarget
    exact ⟨t, hmem, by simp [hpres, hkey]⟩

theorem owned_of_needsOwner {lifecycle : LifecycleState} {s : Option EffectiveState}
    (hrequired : requiredTargetMutations s lifecycle next = .ok required)
    (hmem : mutation ∈ required) (hneeds : needsOwner mutation = true) :
    effectiveTargetIsPresent s mutation.key = true := by
  rw [← isSome_effectiveTarget]
  have hexp := (mem_required hrequired).1 hmem
  cases hafter : effectiveTarget (some (lifecycle, next)) mutation.key with
  | none =>
    rw [hafter] at hexp
    cases hbefore : effectiveTarget s mutation.key with
    | none => simp [hbefore, expectedMutation] at hexp
    | some before => rfl
  | some after =>
    rw [hafter, expectedMutation_some, some.injEq] at hexp
    split at hexp
    · rename_i hbefore
      rw [hbefore]
      rfl
    · have hpres := effectiveTarget_isPresent hafter
      rw [← hexp] at hneeds
      rcases after with (_ | _) | (_ | _) | (_ | _) | (_ | _) <;>
        first
        | exact absurd hpres Bool.false_ne_true
        | exact absurd hneeds Bool.false_ne_true

/-- Synthesis, completion, drift reconciliation and observation. -/
def derivedManifest (config : EngineConfig) (system : TargetSystem)
    (previous : Option StateGeneration) (observed : ObservedIdentities)
    (artifacts : List PreparedArtifact) (requested : List PrepareOperation) :
    Except EngineError (DesiredSnapshot × List PreparedOperation) := do
  let synthesized ← synthesizeAncestorDirectories config system previous requested
  let desired ← desiredSnapshotFromRequest previous artifacts requested synthesized
  let operations ← completeReconciliationOperations previous desired artifacts requested
  let reconciled ←
    reconcileLocalModifications config system previous observed artifacts operations
  let operations ← (reconciled.map Prod.fst).mapM (observeOperation config system previous)
  return (desired, operations)

theorem derivedManifest_of_plan {objects : CanonicalObjects} {findings : List PolicyFinding}
    {plan : DerivedPlan}
    (h : deriveReconciliation config system objects prev observed artifacts findings
      req = .ok plan) :
    derivedManifest config system prev observed artifacts req =
      .ok (plan.desiredSnapshot, plan.operations) := by
  unfold deriveReconciliation finishPlan at h
  simp only [bind_ok, exists_unit, pure_ok] at h
  obtain ⟨synthesized, hsynthesized, desired, hdesired, operations, hops, reconciled,
    hreconciled, -, prep, hprep, -, accepted, -, appended, -, rfl⟩ := h
  unfold derivedManifest
  simp only [bind_ok, pure_ok]
  exact ⟨synthesized, hsynthesized, desired, hdesired, operations, hops, reconciled,
    hreconciled, prep, hprep, rfl⟩

/-- The directories, the snapshot, the operations of the mutations, and requested absences. -/
structure ManifestParts (config : EngineConfig) (system : TargetSystem)
    (previous : Option StateGeneration) (artifacts : List PreparedArtifact)
    (requested synthesized : List PrepareOperation) (next : DesiredSnapshot)
    (required : List RequiredTargetMutation) (derived absences : List PreparedOperation) :
    Prop where
  directories : synthesizeAncestorDirectories config system previous requested = .ok synthesized
  snapshot : desiredSnapshotFromRequest previous artifacts requested synthesized = .ok next
  mutations : requiredTargetMutations (effectiveState previous) .enabled next = .ok required
  derivations : List.Forall₂ (Derivation system previous artifacts) required derived
  observed : ∀ op ∈ derived, ∃ placed,
    observeOperation config system previous placed = .ok op
  absent : ∀ op ∈ absences, ∃ declared ∈ requested, declared.declaresAbsence = true ∧
    observeOperation config system previous declared = .ok op

theorem reconcileOperation_absence {declared : PrepareOperation}
    (habsence : declared.declaresAbsence = true)
    (h : reconcileOperation config system prev observed artifacts declared =
      .ok reconciled) : reconciled.1 = declared := by
  cases declared with
  | removeLeaf auth path =>
    cases h
    rfl
  | assertAbsent auth path =>
    cases h
    rfl
  | _ => cases habsence

theorem derivedManifest_parts
    (h : derivedManifest config system prev observed artifacts req =
      .ok (next, operations)) :
    ∃ synthesized required derived absences, operations = derived ++ absences ∧
      ManifestParts config system prev artifacts req synthesized next required derived
        absences := by
  unfold derivedManifest completeReconciliationOperations at h
  simp only [bind_ok, pure_ok, asStateError, mapError_ok, Prod.mk.injEq] at h
  obtain ⟨synthesized, hsynthesized, desired, hdesired, completed,
    ⟨required, hrequired, mutated, hmutated, rfl⟩, reconciled, hreconciled, prep, hprep,
    rfl, rfl⟩ := h
  have hcompleted := mapM_forall₂ hmutated
  have hobs := (forall₂_comp (mapM_forall₂ hreconciled)
    (forall₂_map_left_iff.1 (mapM_forall₂ hprep))).flip
  have hderived := (forall₂_take_append _ _ _ hobs).flip
  have habsent := (forall₂_drop_append _ _ _ hobs).flip
  refine ⟨synthesized, required, _, _, (take_append_drop mutated.length prep).symm,
    hsynthesized, hdesired, hrequired, ?_, ?_, ?_⟩
  · refine List.Forall₂.imp ?_ (forall₂_comp hcompleted hderived)
    intro mutation op hstep
    obtain ⟨placed, hplaced, change, hchange, hop⟩ := hstep
    exact derivation_of_ok hplaced hchange hop
  · intro op hmem
    obtain ⟨placed, -, change, -, hop⟩ := exists_left_of_forall₂ hderived hmem
    exact ⟨change.1, hop⟩
  · intro op hmem
    obtain ⟨decl, hdecl, change, hchange, hop⟩ :=
      exists_left_of_forall₂ habsent hmem
    rw [mem_filter, Bool.and_eq_true] at hdecl
    obtain ⟨hdecl, habsence, -⟩ := hdecl
    rw [reconcileOperation_absence habsence hchange] at hop
    exact ⟨decl, hdecl, habsence, hop⟩

theorem ManifestParts.absences_eq_nil {synthesized : List PrepareOperation}
    {derived absences : List PreparedOperation}
    (h : ManifestParts config system prev artifacts req synthesized next required
      derived absences) (hrequested : ∀ op ∈ req, op.declaresAbsence = false) :
    absences = [] := by
  refine eq_nil_iff_forall_not_mem.2 fun op hmem => ?_
  obtain ⟨decl, hdecl, habsence, -⟩ := h.absent op hmem
  rw [hrequested decl hdecl] at habsence
  cases habsence

theorem derivedManifest_ok
    (hrequested : ∀ op ∈ req, op.declaresAbsence = false)
    (h : derivedManifest config system prev observed artifacts req =
      .ok (next, operations)) :
    ∃ required, requiredTargetMutations (effectiveState prev) .enabled next = .ok required ∧
      List.Forall₂ (Derivation system prev artifacts) required operations ∧
      ∃ decl, Reconciled (prev.map StateGeneration.desiredSnapshot) decl next := by
  obtain ⟨synthesized, required, derived, absences, rfl, hparts⟩ := derivedManifest_parts h
  have hsnap := hparts.snapshot
  unfold desiredSnapshotFromRequest at hsnap
  simp only [bind_ok, asStateError, mapError_ok] at hsnap
  obtain ⟨decl, -, hreconciled⟩ := hsnap
  rw [hparts.absences_eq_nil hrequested, append_nil]
  exact ⟨required, hparts.mutations, hparts.derivations, _,
    reconcileDesiredSnapshot_ok hreconciled⟩

/-! ## 5. Acceptance -/

/-- The destination of a mutation lies strictly above another one's. -/
def isAboveAnother (required : List RequiredTargetMutation) (mutation : RequiredTargetMutation) :
    Bool :=
  required.any fun candidate =>
    candidate.key.1 = mutation.key.1 && mutation.key.2.isAncestor candidate.key.2

section

variable (h : List.Forall₂ (Derivation system prev artifacts) required operations)
include h

theorem map_key_of_derivations :
    operations.map key = required.map RequiredTargetMutation.key := by
  induction h with
  | nil => rfl
  | cons hfirst _ ih => rw [map_cons, map_cons, hfirst.key, ih]

theorem map_destination_of_derivations :
    operations.map operationDestination = required.map mutationDestination := by
  induction h with
  | nil => rfl
  | cons hfirst _ ih => rw [map_cons, map_cons, hfirst.destination, ih]

end

theorem any_below_of_derivations {required : List RequiredTargetMutation}
    {operations : List PreparedOperation} {key : TargetKey}
    (h : List.Forall₂ (Derivation system prev artifacts) required operations) :
    (operations.any fun cand =>
        cand.observation.authority = key.1 &&
          key.2.isAncestor cand.observation.relativePath) =
      required.any fun cand =>
        cand.key.1 = key.1 && key.2.isAncestor cand.key.2 := by
  have hkeys := congrArg
    (any · fun cand => decide (cand.1 = key.1) && key.2.isAncestor cand.2)
    (map_key_of_derivations h)
  simp only [List.any_map] at hkeys
  exact hkeys

theorem Derivation.find? (hnodup : (required.map RequiredTargetMutation.key).Nodup)
    (hmem : mutation ∈ required) (h : Derivation system prev artifacts mutation op) :
    required.find? (fun cand => cand.key = op.key) = some mutation :=
  (Keyed.find?_eq_some hnodup).2 ⟨hmem, h.key.symm⟩

theorem Derivation.validate_iff (hordered : StrictlyOrdered gen.desiredSnapshot.targets)
    (hrequired : requiredTargetMutations (effectiveState (some gen)) .enabled next =
      .ok required)
    (hall : List.Forall₂ (Derivation system (some gen) artifacts) required operations)
    (hnodup : (artifacts.map PreparedArtifact.id).Nodup) (hmem : mutation ∈ required)
    (h : Derivation system (some gen) artifacts mutation op) :
    validateManifestOperation (effectiveState (some gen)) .enabled next
        (sortArtifacts artifacts) operations required op = .ok () ↔
      mutationObtainable system (previousOwnsTarget (some gen) mutation.key)
        (isAboveAnother required mutation) mutation = true := by
  have hkey := h.key
  have howned : effectiveTargetIsPresent (effectiveState (some gen)) mutation.key =
      previousOwnsTarget (some gen) mutation.key :=
    (previousOwnsTarget_eq hordered).symm
  unfold validateManifestOperation
  rw [if_neg (by simp [h.not_assertAbsent]), bind_ok]
  simp only [require_ok, h.find? (required_keys_nodup hrequired) hmem, some.injEq, exists_eq_left']
  have hbelow : (operations.any fun cand =>
      cand.observation.authority = op.observation.authority &&
        op.observation.relativePath.isAncestor cand.observation.relativePath) =
      isAboveAnother required mutation := by
    have := @any_below_of_derivations _ _ _ _ _ op.key hall
    rw [hkey] at this
    rw [isAboveAnother, ← this, ← hkey]
    rfl
  rw [hbelow, hkey, howned]
  have hperm : (sortArtifacts artifacts).Perm artifacts := perm_insertionSort _ _
  rw [h.matches_iff hperm hnodup fun hneeds => by
    rw [← howned]
    exact owned_of_needsOwner hrequired hmem hneeds]
  cases mutation <;> simp [mutationObtainable]

/-- An owned slot that becomes a directory still exists. -/
def ownedDirectoryExists (system : TargetSystem) (previous : Option StateGeneration) :
    RequiredTargetMutation → Bool
  | .ensureDirectory auth path _ =>
    !previousOwnsTarget previous (auth, path) ||
      (system.entry (auth, path)).isSome
  | _ => true

/-- A new directory is missing, or there with its mode above another destination. -/
def newDirectoryFree (system : TargetSystem) (previous : Option StateGeneration)
    (required : List RequiredTargetMutation) (mutation : RequiredTargetMutation) : Bool :=
  match mutation with
  | .ensureDirectory auth path mode =>
    previousOwnsTarget previous (auth, path) ||
      (system.entry (auth, path)).all fun entry =>
        isAboveAnother required mutation && entry.kind = .directory &&
          entry.identity.mode &&& 0o7777#32 = mode
  | _ => true

theorem mutationObtainable_eq (h : ownedDirectoryExists system prev mutation = true) :
    mutationObtainable system (previousOwnsTarget prev mutation.key)
        (isAboveAnother required mutation) mutation =
      newDirectoryFree system prev required mutation := by
  cases mutation with
  | ensureDirectory auth path mode =>
    simp only [ownedDirectoryExists] at h
    simp only [mutationObtainable, directoryObtainable, newDirectoryFree,
      RequiredTargetMutation.key]
    cases hentry : system.entry (auth, path) <;>
      cases howned : previousOwnsTarget prev (auth, path) <;>
      simp_all
  | _ => rfl

theorem required_length_le {decl : List StateTarget}
    (hreconciled : Reconciled (some gen.desiredSnapshot) decl next)
    (hrequired : requiredTargetMutations (effectiveState (some gen)) .enabled next =
      .ok required) : required.length ≤ maxPreparedOperations := by
  have hsubset : required.map RequiredTargetMutation.key ⊆ next.targets.map StateTarget.key := by
    intro key hkey
    obtain ⟨mutation, hmut, rfl⟩ := mem_map.1 hkey
    rw [requiredTargetMutations_eq hrequired] at hmut
    obtain ⟨key, hunion, hexp⟩ := mem_filterMap.1 hmut
    rw [expectedMutation_key hexp]
    rcases mem_unionKeys.1 hunion with hbefore | hafter
    · exact hreconciled.keeps hbefore
    · exact hafter
  have hlength := (subperm_of_subset (required_keys_nodup hrequired) hsubset).length_le
  have hcount := hreconciled.valid.count
  rw [length_map, length_map] at hlength
  exact hlength.trans hcount

theorem reconciliation_manifest_iff {gen : StateGeneration}
    {req : List PrepareOperation} {next : DesiredSnapshot}
    {operations : List PreparedOperation} {required : List RequiredTargetMutation}
    (hrequested : ∀ op ∈ req, op.declaresAbsence = false)
    (hderived : derivedManifest config system (some gen) observed artifacts req =
      .ok (next, operations))
    (hrequired : requiredTargetMutations (effectiveState (some gen)) .enabled next =
      .ok required) (hexists : ∀ mutation ∈ required,
      ownedDirectoryExists system (some gen) mutation = true) :
    validateOperationManifest (effectiveState (some gen)) .enabled next
        (sortArtifacts artifacts) operations = .ok () ↔
      (artifacts.map PreparedArtifact.id).Nodup ∧
        destinationsAllowed (required.map mutationDestination) = true ∧
        ∀ mutation ∈ required,
          newDirectoryFree system (some gen) required mutation = true := by
  obtain ⟨required', hrequired', hall, declared, hreconciled⟩ :=
    derivedManifest_ok hrequested hderived
  obtain rfl := ok.inj (hrequired'.symm.trans hrequired)
  have hkeys := map_key_of_derivations hall
  have hordered : StrictlyOrdered gen.desiredSnapshot.targets := by
    unfold requiredTargetMutations at hrequired
    simp only [bind_ok, exists_unit, whenSome_ok] at hrequired
    exact (validateStateTargets_ok.1 (hrequired.2.1 _ rfl)).ordered
  have hartifacts : ((sortArtifacts artifacts).map PreparedArtifact.id).Nodup ↔
      (artifacts.map PreparedArtifact.id).Nodup :=
    ((perm_insertionSort _ _).map _).nodup_iff
  have hduplicates : rejectDuplicates "operation destination"
      (operations.map key) = .ok () := by
    rw [hkeys, rejectDuplicates, if_pos (required_keys_nodup hrequired)]
  have hcount : ¬ maxPreparedOperations < operations.length := by
    rw [not_lt, ← hall.length_eq]
    exact required_length_le hreconciled hrequired
  have hsemantics : ∀ op ∈ operations, validateOperationSemantics op = .ok () := by
    intro op hmem
    obtain ⟨mutation, -, hderivation⟩ := exists_left_of_forall₂ hall hmem
    exact hderivation.semantics
  unfold validateOperationManifest
  simp only [bind_ok, exists_unit, reject_ok, asState, mapError_ok,
    forM_ok, rejectSome_ok, hrequired, ok.injEq, exists_eq_left', hcount,
    not_false_eq_true, hduplicates, rejectDestinationPrefixes_ok,
    map_destination_of_derivations hall, true_and, hartifacts, not_not]
  have hsatisfied : ∀ mutation ∈ required', ¬ decide (mutation.key ∉
      (operations.filter (!·.isAssertAbsent)).map key) = true := by
    intro mutation hmem
    obtain ⟨op, hop, hderivation⟩ := exists_right_of_forall₂ hall hmem
    simp only [decide_eq_true_eq, not_not]
    refine mem_map.2 ⟨op, mem_filter.2 ⟨hop, ?_⟩, hderivation.key⟩
    rw [hderivation.not_assertAbsent]
    rfl
  constructor
  · rintro ⟨hdestinations, -, hnodup, hvalid, -⟩
    refine ⟨hnodup, hdestinations, fun mutation hmem => ?_⟩
    obtain ⟨op, hop, hderivation⟩ := exists_right_of_forall₂ hall hmem
    rw [← mutationObtainable_eq (hexists mutation hmem)]
    exact (hderivation.validate_iff hordered hrequired hall hnodup hmem).1
      (hvalid op hop)
  · rintro ⟨hnodup, hdestinations, hfree⟩
    refine ⟨hdestinations, hsemantics, hnodup, fun op hop => ?_,
      find?_eq_none.2 hsatisfied⟩
    obtain ⟨mutation, hmem, hderivation⟩ := exists_left_of_forall₂ hall hop
    refine (hderivation.validate_iff hordered hrequired hall hnodup hmem).2 ?_
    rw [mutationObtainable_eq (hexists mutation hmem)]
    exact hfree mutation hmem

/-! ## 6. A tree of directories -/

def entryIdentity (mode : BitVec 32) (size : Nat) : FileIdentity where
  device := 1
  inode := 1
  userId := 1000
  groupId := 1000
  mode := mode
  links := 1
  size := size
  modifiedSeconds := 0
  modifiedNanoseconds := 0
  changedSeconds := 0
  changedNanoseconds := 0

/-- A directory that its owner can use. -/
def sampleDirectory : Entry where
  kind := .directory
  identity := entryIdentity 0o040700#32 0
  accessible := true
  typed := by decide
  sized := by
    intro contents h
    cases h

/-- The root of `h` and the directory `d` in it. -/
def directorySystem : TargetSystem where
  entries := (SortedMap.empty.insert (toLex (['h'], [])) sampleDirectory).insert
    (toLex (['h'], ['d'])) sampleDirectory
  resolved := fun _ => .failed
  readThrough := fun _ => none
  closed := by decide

def sampleConfig : EngineConfig := ⟨[['h']], 1000, fun _ => false, fun _ => false, fun _ => false, by decide⟩

def enabledGeneration (targets : List StateTarget) : StateGeneration where
  namespaceName := ['w']
  planId := ⟨1⟩
  previousGeneration := none
  transition := .reconcile
  lifecycle := .enabled
  restorePoint := none
  retention := .default
  trackedRoot := none
  desiredSnapshot := ⟨targets⟩
  desiredSnapshotDigest := ⟨0⟩
  artifacts := []
  transforms := []

/-- A file in the existing directory, both declared. -/
def directoryRequest : List PrepareOperation :=
  [.ensureDirectory ['h'] ['d'] 0o700 false, .placeFile ['h'] ['d', '/', 'f'] ['a'] 0o600 false]

def directoryArtifacts : List PreparedArtifact := [⟨['a'], ⟨7⟩, 3, "text/plain".toList⟩]

/-- The directory is taken over, and the manifest accepts it above the file. -/
theorem reconciliation_manifest_takes_over :
    ∃ next operations,
      derivedManifest sampleConfig directorySystem (some (enabledGeneration []))
          (fun _ => none) directoryArtifacts directoryRequest = .ok (next, operations) ∧
      validateOperationManifest (effectiveState (some (enabledGeneration []))) .enabled next
        (sortArtifacts directoryArtifacts) operations = .ok () := by
  have hcheck : okAnd (derivedManifest sampleConfig directorySystem
      (some (enabledGeneration [])) (fun _ => none) directoryArtifacts directoryRequest)
      (fun derived => okAnd (requiredTargetMutations
        (effectiveState (some (enabledGeneration []))) .enabled derived.1) fun required =>
          (required.all fun mutation =>
            ownedDirectoryExists directorySystem (some (enabledGeneration [])) mutation) &&
          destinationsAllowed (required.map mutationDestination) &&
          required.all fun mutation =>
            newDirectoryFree directorySystem (some (enabledGeneration [])) required mutation) =
        true := by
    decide +kernel
  obtain ⟨⟨next, operations⟩, hderived, hrequired⟩ := okAnd_iff.1 hcheck
  obtain ⟨required, hrequired, hconditions⟩ := okAnd_iff.1 hrequired
  simp only [Bool.and_eq_true, List.all_eq_true] at hconditions
  obtain ⟨⟨hexists, hdestinations⟩, hfree⟩ := hconditions
  exact ⟨next, operations, hderived,
    (reconciliation_manifest_iff (by decide) hderived hrequired hexists).2
      ⟨by decide, hdestinations, hfree⟩⟩

/-- An empty declared directory is refused where an unowned one of its mode exists. -/
theorem unowned_directory_not_in_manifest :
    ∃ next operations,
      derivedManifest sampleConfig directorySystem (some (enabledGeneration []))
          (fun _ => none) [] [.ensureDirectory ['h'] ['d'] 0o700 false] =
        .ok (next, operations) ∧
      validateOperationManifest (effectiveState (some (enabledGeneration []))) .enabled next
        (sortArtifacts []) operations ≠ .ok () := by
  have hcheck : okAnd (derivedManifest sampleConfig directorySystem
      (some (enabledGeneration [])) (fun _ => none) []
      [.ensureDirectory ['h'] ['d'] 0o700 false])
      (fun derived => !okAnd (validateOperationManifest
        (effectiveState (some (enabledGeneration []))) .enabled derived.1 (sortArtifacts [])
        derived.2) fun _ => true) = true := by
    decide +kernel
  obtain ⟨⟨next, operations⟩, hderived, hrefused⟩ := okAnd_iff.1 hcheck
  refine ⟨next, operations, hderived, fun hok => ?_⟩
  simp only [hok, okAnd] at hrefused
  cases hrefused

end Malm.Engine
