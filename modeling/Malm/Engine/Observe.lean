/-
Malm.Engine.Observe — observing the destinations of a plan
(`observe_target`, `observe_operation` of `prepared_store.rs`).

The walk never follows a link, and a first missing directory ends it. Nothing
changes between the probes of one observation. Which destinations overlap the
engine's own state, which directories lie in it and which contain it are three
predicates of the configuration.
-/
import Malm.Engine.Operation
import Malm.Store.Transition

namespace Malm.Engine

open Store Commit Target Checks

/-! ## 1. What the predecessor owns -/

/-- `EngineConfig` of the targets; names hold letters, digits, underscores and hyphens. -/
structure EngineConfig where
  targetAuthorities : List DeploymentName
  effectiveUserId : Nat
  /-- `paths_overlap` of a destination and the state root. -/
  overlapsState : TargetKey → Bool
  /-- The directory at a path lies in the state root. -/
  insideState : TargetKey → Bool
  /-- The directory at a path contains the state root. -/
  containsState : TargetKey → Bool
  named : ∀ authority ∈ targetAuthorities, ':' ∉ authority

def effectiveState (previous : Option StateGeneration) : Option EffectiveState :=
  previous.map fun generation => (generation.lifecycle, generation.desiredSnapshot)

def previousOwnsTarget (previous : Option StateGeneration) (key : TargetKey) : Bool :=
  previous.any fun generation =>
    generation.lifecycle.isEnabled &&
      generation.targets.any fun target => target.isPresent && target.key = key

def previousTargetState (previous : Option StateGeneration) (key : TargetKey) :
    Option StateTargetState :=
  previous.bind fun generation =>
    if generation.lifecycle.isEnabled then
      (generation.targets.find? fun target => target.key = key).map StateTarget.state
    else
      none

/-! ## 2. The walk to the parent -/

def validateTargetDirectory (config : EngineConfig) (key : TargetKey) (entry : Entry) :
    Except EngineError Unit := do
  reject (FileType.fromRawMode entry.identity.mode ≠ .directory)
    (.unsafeTarget key.1 key.2 "path component is not a directory")
  reject (entry.identity.userId ≠ config.effectiveUserId)
    (.unsafeTarget key.1 key.2 "directory is owned by another user")
  reject (entry.identity.mode &&& 0o7022#32 ≠ 0)
    (.unsafeTarget key.1 key.2 "directory is group/other writable or has special mode bits")

def openTargetDirectory (config : EngineConfig) (operation : String)
    (destination key : TargetKey) (entry : Entry) : Except EngineError FileIdentity := do
  reject (entry.kind ≠ .directory ∨ entry.accessible = false)
    (.targetIo operation key.1 key.2)
  validateTargetDirectory config key entry
  reject (config.insideState key)
    (.unsafeTarget destination.1 destination.2 "destination is physically inside protected state")
  return entry.identity

/-- Where the walk to a destination ended. -/
structure Traversal where
  ancestors : List FileIdentity
  parent : FileIdentity
  missingAncestors : Nat
deriving DecidableEq, Repr

/-- The loop over the parent segments; the deepest directory is the parent. -/
def walkParents (config : EngineConfig) (system : TargetSystem) (destination : TargetKey) :
    List Text → List FileIdentity → FileIdentity → Except EngineError Traversal
  | [], ancestors, current => .ok ⟨ancestors, current, 0⟩
  | path :: rest, ancestors, current =>
    match system.entry (destination.1, path) with
    | none => .ok ⟨ancestors.dropLast, current, rest.length + 1⟩
    | some entry => do
      let identity ← openTargetDirectory config "open managed target ancestor" destination
        (destination.1, path) entry
      walkParents config system destination rest
        (if rest.isEmpty then ancestors else ancestors ++ [identity]) identity

/-! ## 3. The leaf -/

/-- The guard of a placement that replaces nothing. -/
def requireAbsentLeaf (key : TargetKey) (leaf : Option Entry) (previouslyOwned : Bool) :
    Except EngineError Unit :=
  reject (leaf.isSome ∧ ¬ previouslyOwned)
    (.unsafeTarget key.1 key.2 "placement conflict policy requires the leaf to be absent")

def validateConflictPolicy (operation : PrepareOperation) (leaf : Option Entry)
    (previouslyOwned : Bool) : Except EngineError Unit :=
  match operation with
  | .placeFile _ _ _ _ false => requireAbsentLeaf operation.key leaf previouslyOwned
  | .placeSymlink _ _ _ false => requireAbsentLeaf operation.key leaf previouslyOwned
  | .placeTree _ _ _ _ false => requireAbsentLeaf operation.key leaf previouslyOwned
  | .assertAbsent _ _ =>
    reject leaf.isSome
      (.unsafeTarget operation.key.1 operation.key.2 "assert-absent requires an absent leaf")
  | .assertExact _ _ _ =>
    reject (leaf.isNone = true)
      (.unsafeTarget operation.key.1 operation.key.2 "assert-exact requires a present leaf")
  | _ => .ok ()

def validateLeafForOperation (config : EngineConfig) (operation : PrepareOperation)
    (leaf : Option Entry) (previouslyOwned : Bool) : Except EngineError Unit := do
  reject (leaf.any fun entry => entry.identity.userId ≠ config.effectiveUserId)
    (.unsafeTarget operation.key.1 operation.key.2 "target leaf is owned by another user")
  validateConflictPolicy operation leaf previouslyOwned
  reject
    (leaf.any fun entry =>
      FileType.fromRawMode entry.identity.mode ≠ .directory && entry.identity.links ≠ 1)
    (.unsafeTarget operation.key.1 operation.key.2
      "non-directory leaf has multiple hard links")

def destructiveDirectoryChange (operation : PrepareOperation) : Bool :=
  operation.isRemoval || operation.replacesExisting

def priorIsManagedTree (previous : Option StateGeneration) (key : TargetKey) : Bool :=
  (previousTargetState previous key).any fun state =>
    match state with
    | .tree (some _) => true
    | _ => false

/-- A directory is opened, is not the engine's state or around it, and is empty when it goes away,
unless it is a managed tree. -/
def validateDirectoryLeaf (config : EngineConfig) (system : TargetSystem)
    (previous : Option StateGeneration) (operation : PrepareOperation) (entry : Entry) :
    Except EngineError Unit := do
  reject (destructiveDirectoryChange operation ∧ entry.accessible = false)
    (.targetIo "open managed target directory leaf" operation.key.1 operation.key.2)
  reject (config.insideState operation.key ∨ config.containsState operation.key)
    (.unsafeTarget operation.key.1 operation.key.2
      "destination is physically inside protected state")
  reject
    (destructiveDirectoryChange operation ∧ ¬ priorIsManagedTree previous operation.key ∧
      ¬ system.isEmptyDirectory operation.key)
    (.unsafeTarget operation.key.1 operation.key.2
      "remove-leaf can remove only an empty directory")

/-! ## 4. The observation -/

def withMissingAncestors (key : TargetKey) (traversalAnchor : FileIdentity)
    (traversal : Traversal) (leaf : LeafObservation) :
    Except PreparedRecordError TargetObservation := do
  validateRelativePath key.2
  checkLimit "target ancestors" traversal.ancestors.length 64
  reject (0 < traversal.missingAncestors ∧ leaf.isPresent)
    (.invalidField "target observation" "missing ancestors require an absent leaf")
  reject
    (0 < traversal.missingAncestors ∧
      (key.2.ancestorPaths.length < traversal.missingAncestors ∨
        traversal.ancestors.length ≠
          key.2.ancestorPaths.length - traversal.missingAncestors - 1))
    (.invalidField "target observation"
      "missing ancestor count does not match the traversal shape")
  return ⟨key.1, key.2, traversalAnchor, traversal.ancestors, traversal.parent, leaf,
    traversal.missingAncestors⟩

/-- The leaf, once the walk is over; below a missing directory there is none. -/
def leafAfter (system : TargetSystem) (key : TargetKey) (traversal : Traversal) : Option Entry :=
  if 0 < traversal.missingAncestors then none else system.entry key

def leafObservation : Option Entry → LeafObservation
  | none => .absent
  | some entry => .present entry.identity

def observeTarget (config : EngineConfig) (system : TargetSystem)
    (previous : Option StateGeneration) (operation : PrepareOperation) :
    Except EngineError TargetObservation := do
  let key := operation.key
  reject (key.1 ∉ config.targetAuthorities) (.unknownTargetAuthority key.1)
  reject (config.overlapsState key)
    (.unsafeTarget key.1 key.2 "destination enters protected state")
  let root ← require (system.entry (key.1, []))
    (.targetIo "open managed target authority" key.1 [])
  let anchor ← openTargetDirectory config "open managed target authority" key (key.1, []) root
  let traversal ← walkParents config system key key.2.ancestorPaths [] anchor
  let leaf := leafAfter system key traversal
  validateLeafForOperation config operation leaf (previousOwnsTarget previous key)
  whenSome (leaf.filter fun entry => entry.kind = .directory)
    (validateDirectoryLeaf config system previous operation)
  asRecordError (withMissingAncestors key anchor traversal (leafObservation leaf))

/-- Whether an observed leaf is already the directory an unowned slot asks for. -/
def isRequestedDirectory (mode : BitVec 32) : LeafObservation → Bool
  | .absent => false
  | .present identity =>
    FileType.fromRawMode identity.mode = .directory && identity.mode &&& 0o7777#32 = mode

def preparedOperation (previous : Option StateGeneration) (observation : TargetObservation) :
    PrepareOperation → Except EngineError PreparedOperation
  | .ensureDirectory authority relativePath mode _ =>
    if !previousOwnsTarget previous (authority, relativePath) &&
        isRequestedDirectory mode observation.leaf then do
      asStateError (validateStateDirectory ⟨mode⟩)
      return .assertExact observation (.directory (some ⟨mode⟩))
    else
      .ok (.ensureDirectory observation mode)
  | .placeFile _ _ artifactId mode _ =>
    .ok (.placeFile observation artifactId mode observation.leaf.isPresent)
  | .placeSymlink _ _ object _ =>
    .ok (.placeSymlink observation object observation.leaf.isPresent)
  | .placeTree _ _ tree archiveProvenance _ => do
    whenSome archiveProvenance fun provenance =>
      asRecordError (validateLabel "archive decoder" provenance.decoder)
    return .placeTree observation tree archiveProvenance observation.leaf.isPresent
  | .removeLeaf _ _ => .ok (.removeLeaf observation)
  | .assertAbsent _ _ => .ok (.assertAbsent observation)
  | .assertExact _ _ state => do
    let state ← targetStateRecord state
    return .assertExact observation state

def observeOperation (config : EngineConfig) (system : TargetSystem)
    (previous : Option StateGeneration) (operation : PrepareOperation) :
    Except EngineError PreparedOperation := do
  let observation ← observeTarget config system previous operation
  preparedOperation previous observation operation

end Malm.Engine
