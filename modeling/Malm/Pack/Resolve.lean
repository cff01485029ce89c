/-
Malm.Pack.Resolve — `resolve_graph` (`lock_operation.rs`): the lock of a root
pack and of everything it depends on.

What a source holds is a fixed function of the source, and so are the pack
objects that the store answers with; a pack that cannot be published counts as a
source that cannot be read. Of the errors of the engine only the source is kept.
-/
import Malm.Pack.Store

namespace Malm.Pack

open Commit Checks

def maxProcessedPackBytes : Nat := maxGraphObjectBytes * 2

/-! ## 1. Sources in order -/

def LockedSource.sortKey : LockedSource → Nat ×ₗ Text ×ₗ Text ×ₗ Text
  | .root => toLex (0, toLex ([], toLex ([], [])))
  | .git source => toLex (1, toLex (source.url, toLex (source.commit, source.subdir)))
  | .localLocator locator => toLex (2, toLex (locator, toLex ([], [])))

theorem LockedSource.sortKey_injective : Function.Injective LockedSource.sortKey := by
  intro left right h
  have hkey := congrArg ofLex h
  cases left with
  | root => cases right <;> simp_all [LockedSource.sortKey]
  | git src =>
    cases right with
    | root => simp [LockedSource.sortKey] at hkey
    | localLocator locator => simp [LockedSource.sortKey] at hkey
    | git other =>
      cases src
      cases other
      simpa [LockedSource.sortKey] using hkey
  | localLocator locator => cases right <;> simp_all [LockedSource.sortKey]

instance : LinearOrder LockedSource :=
  LinearOrder.lift' LockedSource.sortKey LockedSource.sortKey_injective

/-! ## 2. Requests and errors -/

/-- `LockResolutionInputs`: grants, Git sources with a scratch directory, and the format
profile. -/
structure LockResolutionInputs where
  localLocators : List Text
  gitUrls : List Text
  gitScratchRoots : List GitSource
  formatComponentExecutionProfile : Option Digest

/-- What the engine reaches while it resolves. -/
structure SourceWorld where
  /-- The files at a source. -/
  filesAt : LockedSource → Option (List PackFile)
  /-- `load_pack_object_raw`. -/
  objects : Digest → Except PackStoreError (List PackFile)
  /-- `descriptor_count` of the root. -/
  rootDescriptors : Nat
  /-- `resolved_locator_descriptor_count`. -/
  locatorDescriptors : Text → Nat
  /-- `open_file_soft_limit`. -/
  openFileSoftLimit : Option Nat

/-- `LockOperationError`, as far as the resolution returns it. -/
inductive LockOperationError where
  | source (source : LockedSource)
  | localSourceNotGranted (locator : Text)
  | gitSourceNotGranted (url : Text)
  | missingGitScratch (source : GitSource)
  | cachedPackInvalid (source : LockedSource) (digest : Digest)
  | packageMismatch (source : LockedSource) (expected actual : PackageId)
  | missingFormatComponentExecutionProfile
  | resourceLimitExceeded (resource : String) (limit actual : Nat)
  | validation (error : LockValidationError)
deriving DecidableEq, Repr

def SourceWorld.pinnedDescriptorLimit (world : SourceWorld) : Nat :=
  let available := min (world.openFileSoftLimit.getD 16384) 16384
  available - max (available / 4) 64

/-! ## 3. Discovery of one source -/

section Resolution

variable (packCodec : PackCodec) (world : SourceWorld) (inputs : LockResolutionInputs)

def capturePack (source : LockedSource) : Except LockOperationError VerifiedPack := do
  let files ← require (world.filesAt source) (.source source)
  let digest ← (packContentDigest packCodec files).mapError fun _ => .source source
  (VerifiedPack.fromFiles packCodec digest files).mapError fun _ => .source source

def reuseCached (git : GitSource) : Option Digest → Except LockOperationError (Option VerifiedPack)
  | none => .ok none
  | some expected =>
    match world.objects expected with
    | .error .missing => .ok none
    | .error _ => .error (.source (.git git))
    | .ok files => do
      let pack ← (VerifiedPack.fromFiles packCodec expected files).mapError
        fun _ => .source (.git git)
      return some pack

/-- `acquire_for_lock`: the cached pack, else what a fetch finds. -/
def acquireForLock (git : GitSource) (expected : Option Digest) :
    Except LockOperationError VerifiedPack := do
  let cached ← reuseCached packCodec world git expected
  match cached with
  | some pack => return pack
  | none => do
    let pack ← capturePack packCodec world (.git git)
    reject (expected.any fun digest => digest ≠ pack.contentDigest) (.source (.git git))
    return pack

/-- A Git source that the old lock pins and that has no scratch directory. -/
def loadPinned (git : GitSource) (expected : Digest) : Except LockOperationError VerifiedPack :=
  match world.objects expected with
  | .error .missing => .error (.missingGitScratch git)
  | .error _ => .error (.source (.git git))
  | .ok files =>
    (VerifiedPack.fromFiles packCodec expected files).mapError
      fun _ => .cachedPackInvalid (.git git) expected

variable {codec : LockCodec} (oldLock : Option (Lock codec))

def oldGit (git : GitSource) : Option Digest :=
  oldLock.bind fun lock =>
    (lock.nodes.find? fun node => node.source = .git git).map fun node => node.contentDigest

def discoverGit (git : GitSource) : Except LockOperationError VerifiedPack := do
  reject (git.url ∉ inputs.gitUrls) (.gitSourceNotGranted git.url)
  match oldGit oldLock git, decide (git ∈ inputs.gitScratchRoots) with
  | none, false => .error (.missingGitScratch git)
  | some expected, false => loadPinned packCodec world git expected
  | expected, true => acquireForLock packCodec world git expected

/-- `discover_dependency`, with the pinned descriptors so far. No dependency
names the root. -/
def discoverDependency (pinnedDescriptors : Nat) :
    LockedSource → Except LockOperationError (VerifiedPack × Nat)
  | .root => .error (.source .root)
  | .localLocator locator => do
    reject (locator ∉ inputs.localLocators) (.localSourceNotGranted locator)
    let actual := pinnedDescriptors + world.locatorDescriptors locator
    reject (world.pinnedDescriptorLimit < actual)
      (.resourceLimitExceeded "pinned source descriptors" world.pinnedDescriptorLimit actual)
    let pack ← capturePack packCodec world (.localLocator locator)
    return (pack, actual)
  | .git git => do
    let pack ← discoverGit packCodec world inputs oldLock git
    return (pack, pinnedDescriptors)

/-! ## 4. The walk -/

structure Walk where
  discovered : SortedMap LockedSource VerifiedPack
  pending : List LockedSource
  edgeCount : Nat
  processedBytes : Nat
  uniqueDigests : List Digest
  uniqueBytes : Nat
  pinnedDescriptors : Nat

def validatePackage (source : LockedSource) (expected : PackageId) (manifest : PackManifest) :
    Except LockOperationError Unit :=
  reject (manifest.packageId ≠ expected)
    (.packageMismatch source expected manifest.packageId)

/-- The bytes of a pack count once for a digest. -/
def chargeUnique (walk : Walk) (pack : VerifiedPack) :
    Except LockOperationError (List Digest × Nat) :=
  if pack.contentDigest ∈ walk.uniqueDigests then
    .ok (walk.uniqueDigests, walk.uniqueBytes)
  else do
    let bytes := walk.uniqueBytes + pack.totalBytes
    reject (maxGraphObjectBytes < bytes)
      (.resourceLimitExceeded "unique pack bytes" maxGraphObjectBytes bytes)
    return (pack.contentDigest :: walk.uniqueDigests, bytes)

def discoverTarget (walk : Walk) (target : LockedSource) (packageId : PackageId) :
    Except LockOperationError Walk := do
  reject (walk.discovered.entries.length = maxLockNodes)
    (.validation (.tooManyNodes maxLockNodes (maxLockNodes + 1)))
  let (pack, pinned) ← discoverDependency packCodec world inputs oldLock walk.pinnedDescriptors
    target
  let processed := walk.processedBytes + pack.totalBytes
  reject (maxProcessedPackBytes < processed)
    (.resourceLimitExceeded "processed pack bytes" maxProcessedPackBytes processed)
  let (digests, bytes) ← chargeUnique walk pack
  validatePackage target packageId pack.manifest
  return { walk with
    discovered := walk.discovered.insert target pack
    pending := walk.pending.orderedInsert (· ≤ ·) target
    processedBytes := processed
    uniqueDigests := digests
    uniqueBytes := bytes
    pinnedDescriptors := pinned }

def walkDependency (walk : Walk) (dependency : PackDependency) : Except LockOperationError Walk :=
  let target := LockedSource.fromDependency dependency.source
  match walk.discovered.get? target with
  | none => discoverTarget packCodec world inputs oldLock walk target dependency.packageId
  | some pack => do
    validatePackage target dependency.packageId pack.manifest
    return walk

def walkSource (walk : Walk) (source : LockedSource) : Except LockOperationError Walk := do
  let dependencies := ((walk.discovered.get? source).map fun pack =>
    pack.manifest.dependencies).getD []
  let edges := walk.edgeCount + dependencies.length
  reject (maxLockEdges < edges) (.validation (.tooManyEdges maxLockEdges edges))
  dependencies.foldlM (walkDependency packCodec world inputs oldLock) { walk with edgeCount := edges }

/-- The loop: a source is pending once, and the limit of nodes bounds the turns. -/
def walkPending : Nat → Walk → Except LockOperationError Walk
  | 0, walk => .ok walk
  | turns + 1, walk =>
    match walk.pending with
    | [] => .ok walk
    | source :: rest => do
      let walk ← walkSource packCodec world inputs oldLock { walk with pending := rest } source
      walkPending turns walk

def startWalk (root : VerifiedPack) : Except LockOperationError Walk := do
  reject (maxGraphObjectBytes < root.totalBytes)
    (.resourceLimitExceeded "unique pack bytes" maxGraphObjectBytes root.totalBytes)
  reject (world.pinnedDescriptorLimit < world.rootDescriptors)
    (.resourceLimitExceeded "pinned source descriptors" world.pinnedDescriptorLimit
      world.rootDescriptors)
  return {
    discovered := SortedMap.empty.insert .root root
    pending := [.root]
    edgeCount := 0
    processedBytes := root.totalBytes
    uniqueDigests := [root.contentDigest]
    uniqueBytes := root.totalBytes
    pinnedDescriptors := world.rootDescriptors }

/-! ## 5. The lock -/

variable (codec) in
def discoveredNodeId (discovered : SortedMap LockedSource VerifiedPack) (source : LockedSource) :
    PackNodeId :=
  match discovered.get? source with
  | some pack => codec.nodeId source pack.manifest.packageId pack.contentDigest
  | none => ⟨0⟩

def lockedDependencies (nodeIds : LockedSource → PackNodeId) (manifest : PackManifest) :
    List LockedDependency :=
  manifest.dependencies.map fun dependency =>
    ⟨dependency.aliasName, nodeIds (.fromDependency dependency.source)⟩

/-- The components of a node; without a profile there are none. -/
def lockedComponents (profile : Option Digest) (manifest : PackManifest) : List LockedComponent :=
  profile.toList.flatMap fun profile =>
    manifest.components.map fun component => .fromDeclaration component profile

variable (codec) in
def lockedNode (nodeIds : LockedSource → PackNodeId) (entry : LockedSource × VerifiedPack) :
    Except LockOperationError (LockedPack codec) :=
  (LockedPack.new codec entry.2.manifest.packageId entry.1 entry.2.contentDigest
    (lockedDependencies nodeIds entry.2.manifest)
    (lockedComponents inputs.formatComponentExecutionProfile entry.2.manifest)).mapError
    .validation

variable (codec) in
def lockDiscovered (discovered : SortedMap LockedSource VerifiedPack) :
    Except LockOperationError (Lock codec) := do
  reject (inputs.formatComponentExecutionProfile = none ∧
      discovered.entries.any fun entry => entry.2.manifest.components ≠ [])
    .missingFormatComponentExecutionProfile
  let nodeIds := discoveredNodeId codec discovered
  let nodes ← discovered.entries.mapM (lockedNode inputs codec nodeIds)
  (Lock.new (nodeIds .root) nodes).mapError .validation

/-- What `resolve_graph` returns. -/
structure Resolution (codec : LockCodec) where
  lock : Lock codec
  discovered : SortedMap LockedSource VerifiedPack
  processedBytes : Nat

def resolveGraph : Except LockOperationError (Resolution codec) := do
  let root ← capturePack packCodec world .root
  let walk ← startWalk world root
  let walk ← walkPending packCodec world inputs oldLock maxLockNodes walk
  let lock ← lockDiscovered inputs codec walk.discovered
  return ⟨lock, walk.discovered, walk.processedBytes⟩

end Resolution

/-! ## 6. The store after a resolution -/

def VerifiedPack.packFiles (pack : VerifiedPack) : List PackFile :=
  pack.files.entries.map fun entry => ⟨entry.1, entry.2⟩

/-- The pack objects after a resolution. -/
def SourceWorld.published (world : SourceWorld)
    (discovered : SortedMap LockedSource VerifiedPack) (digest : Digest) :
    Except PackStoreError (List PackFile) :=
  match discovered.entries.find? fun entry => entry.2.contentDigest = digest with
  | some entry => .ok entry.2.packFiles
  | none => world.objects digest

def SourceWorld.publish (world : SourceWorld)
    (discovered : SortedMap LockedSource VerifiedPack) : SourceWorld :=
  { world with objects := world.published discovered }

end Malm.Pack
