/-
Malm.Engine.Prepare — from a request to the operations and findings of a plan
(`prepare_inner` of `prepared_store.rs`).

A lifecycle transition brings its snapshot and operations with it
(`ExplicitPreparedState`); `prepare_selected_state` of `lifecycle_prepare.rs` chooses
them. Artifact bytes are known by digest and length. A `BTreeMap` collected from a list
keeps the last value for a key. The canonical objects are those the store can load.
-/
import Malm.Engine.Observe
import Malm.Pack.Model
import Malm.Store.Prepared

namespace Malm.Engine

open Store Commit Target Checks

/-! ## 1. Probes of the file system -/

/-- `target_leaf_exists`: any failure but `NotFound` counts as present. -/
def targetLeafExists (config : EngineConfig) (system : TargetSystem) (key : TargetKey) : Bool :=
  key.1 ∉ config.targetAuthorities || system.probe key ≠ .notFound

def effectivePresent (previous : Option StateGeneration) (key : TargetKey) : Bool :=
  effectiveTargetIsPresent (effectiveState previous) key

/-- The state the enabled predecessor records, found by binary search. -/
def recordedState (previous : Option StateGeneration) (key : TargetKey) :
    Option StateTargetState :=
  previous.bind fun generation =>
    if generation.lifecycle.isEnabled then
      (generation.desiredSnapshot.target key).map StateTarget.state
    else
      none

def previousDirectoryMode (previous : Option StateGeneration) (key : TargetKey) :
    Option (BitVec 32) :=
  match recordedState previous key with
  | some (.directory (some directory)) => some directory.mode
  | _ => none

def previousFileContents (previous : Option StateGeneration) (key : TargetKey) :
    Option Contents :=
  match recordedState previous key with
  | some (.file (some file)) => some ⟨file.digest, file.byteLen⟩
  | _ => none

/-! ## 2. Ancestor directories -/

def synthesizedDirectoryMode : BitVec 32 := 0o755

def keysAbove (key : TargetKey) : List TargetKey :=
  key.2.ancestorPaths.map fun above => (key.1, above)

def declaredPresent (requested : List PrepareOperation) : List TargetKey :=
  (requested.filter fun operation => !operation.declaresAbsence).map PrepareOperation.key

def isPresentDirectory : StateTargetState → Bool
  | .directory (some _) => true
  | _ => false

def previousDirectories (config : EngineConfig) (system : TargetSystem)
    (generation : StateGeneration) : List TargetKey :=
  (generation.targets.filter fun target =>
    isPresentDirectory target.state && targetLeafExists config system target.key).map
    StateTarget.key

/-- The owned directories above targets that are no longer declared. -/
def retainedKeys (config : EngineConfig) (system : TargetSystem)
    (previous : Option StateGeneration) (requested : List PrepareOperation) : List TargetKey :=
  match previous with
  | none => []
  | some generation =>
    if generation.lifecycle.isEnabled then
      (generation.targets.filter fun target =>
        target.isPresent && target.key ∉ declaredPresent requested).flatMap fun target =>
          (keysAbove target.key).filter (· ∈ previousDirectories config system generation)
    else
      []

/-- The set of paths above declared or released targets, in order. -/
def ancestorKeys (config : EngineConfig) (system : TargetSystem)
    (previous : Option StateGeneration) (requested : List PrepareOperation) : List TargetKey :=
  (sortedSet (((declaredPresent requested).flatMap keysAbove ++
    retainedKeys config system previous requested).map toLex)).map ofLex

/-- Whether a directory has to be created: it is missing, or below one that is. -/
def isMissing (config : EngineConfig) (system : TargetSystem) (missingRoots : List TargetKey)
    (key : TargetKey) : Bool :=
  missingRoots.any (fun root => root.1 = key.1 && root.2.isAncestor key.2) ||
    (key.1 ∈ config.targetAuthorities && system.probe key = .notFound)

def synthesizeFrom (config : EngineConfig) (system : TargetSystem)
    (previous : Option StateGeneration) (declared : List TargetKey) :
    List TargetKey → List TargetKey → Except EngineError (List PrepareOperation)
  | [], _ => .ok []
  | key :: rest, missingRoots =>
    if key ∈ declared then
      synthesizeFrom config system previous declared rest missingRoots
    else
      match previousDirectoryMode previous key with
      | some mode => do
        let operation ← (PrepareOperation.ensureDirectory key.1 key.2 mode false).checked
        let operations ← synthesizeFrom config system previous declared rest missingRoots
        return operation :: operations
      | none =>
        if isMissing config system missingRoots key then do
          let operation ←
            (PrepareOperation.ensureDirectory key.1 key.2 synthesizedDirectoryMode false).checked
          let operations ←
            synthesizeFrom config system previous declared rest (key :: missingRoots)
          return operation :: operations
        else
          synthesizeFrom config system previous declared rest missingRoots

def synthesizeAncestorDirectories (config : EngineConfig) (system : TargetSystem)
    (previous : Option StateGeneration) (requested : List PrepareOperation) :
    Except EngineError (List PrepareOperation) :=
  synthesizeFrom config system previous (requested.map PrepareOperation.key)
    (ancestorKeys config system previous requested) []

/-! ## 3. The desired snapshot -/

def artifactWithId (artifacts : List PreparedArtifact) (artifactId : ArtifactId) :
    Option PreparedArtifact :=
  artifacts.reverse.find? fun artifact => artifact.id = artifactId

def artifactWithContents (artifacts : List PreparedArtifact) (digest : Digest) (byteLen : Nat) :
    Option ArtifactId :=
  (artifacts.reverse.find? fun artifact =>
    artifact.digest = digest && artifact.byteLen = byteLen).map PreparedArtifact.id

/-- A removal of an unknown slot and an assertion declare nothing. -/
def declaredState (previous : Option StateGeneration) (artifacts : List PreparedArtifact) :
    PrepareOperation → Except EngineError (Option StateTargetState)
  | .ensureDirectory _ _ mode _ => do
    asStateError (validateStateDirectory ⟨mode⟩)
    return some (.directory (some ⟨mode⟩))
  | .placeFile _ _ artifactId mode _ => do
    let artifact ← require (artifactWithId artifacts artifactId)
      (.unknownArtifact artifactId)
    asStateError (validateStateFile ⟨artifact.digest, artifact.byteLen, mode⟩)
    return some (.file (some ⟨artifact.digest, artifact.byteLen, mode⟩))
  | .placeSymlink _ _ object _ => .ok (some (.symlink (some ⟨object⟩)))
  | .placeTree _ _ tree archiveProvenance _ => do
    whenSome archiveProvenance fun provenance =>
      asRecordError (validateLabel "archive decoder" provenance.decoder)
    return some (.tree (some ⟨tree, archiveProvenance⟩))
  | .removeLeaf authority relativePath =>
    .ok ((((previous.map StateGeneration.targets).getD []).find? fun target =>
      target.key = (authority, relativePath)).map fun target => target.state.absent)
  | .assertAbsent _ _ => .ok none
  | .assertExact _ _ state => do
    let state ← targetStateRecord state
    return some state

/-- The slot one operation declares, checked by `StateTargetV1::new`. -/
def declaredTarget (previous : Option StateGeneration) (artifacts : List PreparedArtifact)
    (operation : PrepareOperation) : Except EngineError (Option StateTarget) := do
  let state ← declaredState previous artifacts operation
  match state with
  | none => return none
  | some state => do
    let target : StateTarget := ⟨operation.key.1, operation.key.2, state⟩
    asStateError (validateStateTargets [target])
    return some target

def desiredSnapshotFromRequest (previous : Option StateGeneration)
    (artifacts : List PreparedArtifact) (requested synthesized : List PrepareOperation) :
    Except EngineError DesiredSnapshot := do
  let declared ← (requested ++ synthesized).mapM (declaredTarget previous artifacts)
  asStateError
    (reconcileDesiredSnapshot (previous.map StateGeneration.desiredSnapshot)
      (declared.filterMap id))

/-! ## 4. The operations of a reconciliation and of a lifecycle transition -/

/-- The operation for one mutation, given the artifacts and what may be replaced. -/
def mutationOperation (artifactId : Digest → Nat → Except EngineError ArtifactId)
    (replaces : TargetKey → Bool) :
    RequiredTargetMutation → Except EngineError PrepareOperation
  | .ensureDirectory authority relativePath mode =>
    (PrepareOperation.ensureDirectory authority relativePath mode
      (replaces (authority, relativePath))).checked
  | .placeFile authority relativePath digest byteLen mode => do
    let artifactId ← artifactId digest byteLen
    (PrepareOperation.placeFile authority relativePath artifactId mode
      (replaces (authority, relativePath))).checked
  | .placeSymlink authority relativePath object =>
    (PrepareOperation.placeSymlink authority relativePath object
      (replaces (authority, relativePath))).checked
  | .placeTree authority relativePath tree archiveProvenance =>
    (PrepareOperation.placeTree authority relativePath tree archiveProvenance
      (replaces (authority, relativePath))).checked
  | .removeLeaf authority relativePath =>
    (PrepareOperation.removeLeaf authority relativePath).checked
  | .assertExact authority relativePath state => do
    let state ← targetStateView state
    (PrepareOperation.assertExact authority relativePath state).checked

def requestedReplacement (requested : List PrepareOperation) (key : TargetKey) : Bool :=
  requested.any fun operation => operation.key = key && operation.replacesExisting

def completeReconciliationOperations (previous : Option StateGeneration)
    (desired : DesiredSnapshot) (artifacts : List PreparedArtifact)
    (requested : List PrepareOperation) : Except EngineError (List PrepareOperation) := do
  let required ← asStateError
    (requiredTargetMutations (effectiveState previous) .enabled desired)
  let operations ← required.mapM (mutationOperation
    (fun digest byteLen =>
      require (artifactWithContents artifacts digest byteLen) (.missingArtifact digest))
    (fun key => effectivePresent previous key || requestedReplacement requested key))
  return operations ++ requested.filter fun operation =>
    operation.declaresAbsence && operation.key ∉ operations.map PrepareOperation.key

/-- `retained_artifact_id`: the hexadecimal digits of the digest, under `retained`. -/
def retainedArtifactId (digest : Digest) : ArtifactId :=
  "retained/".toList ++ (Pack.digestText digest).drop 7

/-- The lengths of the files to place, by digest. -/
def addRetained (lengths : SortedMap Digest Nat) :
    RequiredTargetMutation → Except EngineError (SortedMap Digest Nat)
  | .placeFile _ _ digest byteLen _ =>
    match lengths.get? digest with
    | some previousLen => do
      reject (previousLen ≠ byteLen)
        (.invalidRecord "retained digest has conflicting byte lengths")
      return lengths
    | none => .ok (lengths.insert digest byteLen)
  | _ => .ok lengths

/-- The operations of `prepare_selected_state`. -/
def selectedOperations (current : StateGeneration) (nextLifecycle : LifecycleState)
    (desired : DesiredSnapshot) (assertAbsentTargets : Bool) :
    Except EngineError (List PrepareOperation) := do
  let required ← asStateError
    (requiredTargetMutations (effectiveState (some current)) nextLifecycle desired)
  let (_, operations) ← required.foldlM (fun (lengths, operations) mutation => do
      let lengths ← addRetained lengths mutation
      let operation ← mutationOperation (fun digest _ => .ok (retainedArtifactId digest))
        (effectivePresent (some current)) mutation
      return (lengths, operations ++ [operation])) (.empty, [])
  let absent := desired.targets.filter fun target =>
    assertAbsentTargets && !target.isPresent &&
      target.key ∉ operations.map PrepareOperation.key &&
        !effectivePresent (some current) target.key
  let asserted ← absent.mapM fun target =>
    (PrepareOperation.assertAbsent target.authority target.relativePath).checked
  return operations ++ asserted

/-! ## 5. Local modifications -/

/-- The identities that a preparation finds recorded, with their digests. -/
abbrev ObservedIdentities := TargetKey → Option (FileIdentity × Digest)

/-- An entry that still has its recorded identity has the recorded contents, as the kernel changes
`ctime` with every modification. -/
def ObservedIdentities.Sound (observed : ObservedIdentities) (system : TargetSystem) : Prop :=
  ∀ key identity digest entry contents, observed key = some (identity, digest) →
    system.entry key = some entry → entry.identity = identity → entry.kind = .file contents →
      contents.hash = digest

section Local

variable (config : EngineConfig) (system : TargetSystem)

/-- The recorded digest of an entry with the recorded metadata; below a linked directory the file
is read. -/
def observedContents (observed : ObservedIdentities) (key : TargetKey) : Option Contents :=
  match observed key, system.entry key with
  | some (identity, digest), some entry =>
    if system.probe key = .found ∧ entry.kind.fileType = .regularFile ∧
        entry.identity = identity then
      some ⟨digest, identity.size⟩
    else
      none
  | _, _ => none

def diskContents (observed : ObservedIdentities) (key : TargetKey) : Option Contents :=
  if key.1 ∈ config.targetAuthorities then
    match observedContents system observed key with
    | some contents => some contents
    | none => system.read key
  else
    none

/-- What reconciliation with the live state found at a destination. -/
inductive LocalChange where
  | none
  | drifted
  | restored
deriving DecidableEq, Repr

/-- An assertion is kept while the leaf exists, else the target is placed again. -/
def restoreMissing (assertion placement : PrepareOperation) :
    Except EngineError (PrepareOperation × LocalChange) :=
  if targetLeafExists config system assertion.key then
    .ok (assertion, .none)
  else do
    let operation ← placement.checked
    return (operation, .restored)

def reconcileFileAssertion (observed : ObservedIdentities)
    (artifacts : List PreparedArtifact) (key : TargetKey) (digest : Digest) (byteLen : Nat)
    (mode : BitVec 32) : Except EngineError (PrepareOperation × LocalChange) :=
  match diskContents config system observed key with
  | some contents =>
    if contents = ⟨digest, byteLen⟩ then
      .ok (.assertExact key.1 key.2 (.file digest byteLen mode), .none)
    else do
      let artifactId ← require (artifactWithContents artifacts digest byteLen)
        (.unrestorableLocalModification key.1 key.2)
      let operation ← (PrepareOperation.placeFile key.1 key.2 artifactId mode true).checked
      return (operation, .drifted)
  | none =>
    if targetLeafExists config system key then
      .ok (.assertExact key.1 key.2 (.file digest byteLen mode), .none)
    else do
      let artifactId ← require (artifactWithContents artifacts digest byteLen)
        (.unrestorableMissingTarget key.1 key.2)
      let operation ← (PrepareOperation.placeFile key.1 key.2 artifactId mode false).checked
      return (operation, .restored)

/-- Whether a file that goes away no longer holds what the predecessor recorded. -/
def isModified (previous : Option StateGeneration) (observed : ObservedIdentities)
    (key : TargetKey) : Bool :=
  (previousFileContents previous key).any fun expected =>
    (diskContents config system observed key).any (· ≠ expected)

/-- The body of the loop of `reconcile_local_modifications`. -/
def reconcileOperation (previous : Option StateGeneration)
    (observed : ObservedIdentities) (artifacts : List PreparedArtifact)
    (operation : PrepareOperation) : Except EngineError (PrepareOperation × LocalChange) :=
  match operation with
  | .assertExact authority relativePath (.file digest byteLen mode) =>
    reconcileFileAssertion config system observed artifacts (authority, relativePath) digest
      byteLen mode
  | .assertExact authority relativePath (.directory mode) =>
    restoreMissing config system operation (.ensureDirectory authority relativePath mode false)
  | .assertExact authority relativePath (.symlink object) =>
    restoreMissing config system operation (.placeSymlink authority relativePath object false)
  | .assertExact authority relativePath (.tree tree archiveProvenance) =>
    restoreMissing config system operation
      (.placeTree authority relativePath tree archiveProvenance false)
  | .placeFile _ _ _ _ _ =>
    .ok (operation, if isModified config system previous observed operation.key then .drifted
      else .none)
  | .removeLeaf _ _ =>
    .ok (operation, if isModified config system previous observed operation.key then .drifted
      else .none)
  | _ => .ok (operation, .none)

/-- Every operation with what was found; drifted and restored targets are marked. -/
def reconcileLocalModifications (previous : Option StateGeneration)
    (observed : ObservedIdentities) (artifacts : List PreparedArtifact)
    (operations : List PrepareOperation) :
    Except EngineError (List (PrepareOperation × LocalChange)) :=
  operations.mapM (reconcileOperation config system previous observed artifacts)

end Local

def changedKeys (change : LocalChange) (reconciled : List (PrepareOperation × LocalChange)) :
    List TargetKey :=
  (reconciled.filter fun entry => entry.2 = change).map fun entry => entry.1.key

end Malm.Engine
