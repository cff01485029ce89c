/-
Malm.Commit.Fsck — `fsck_v1` (`inspection.rs`): the read-only check of a whole store.

Each defect becomes a finding, and what was found broken is missing from the loaded maps.
The store has no transaction journal and well-formed names; the observation of targets is
a parameter. The loop of `mark_canonical_tree` reads a tree at most once, so it recurses on
the trees not yet marked.
-/
import Malm.Commit.Retention
import Malm.Lib.Scan

namespace Malm.Commit

open Store

/-! ## 1. Requests and reports -/

def maxFsckFindings : Nat := 16384
def maxFsckObjects : Nat := 262144
def maxFsckDecodedBytes : Nat := 512 * 1024 * 1024
def maxFsckTargets : Nat := 65536
def maxFsckObservedBytes : Nat := 512 * 1024 * 1024

/-- `FsckRequestV1`: every limit is positive and within its maximum. -/
structure FsckRequest where
  maxFindings : Nat
  maxObjects : Nat
  maxDecodedBytes : Nat
  observeTargets : Bool
  maxTargetObservations : Nat
  maxObservedBytes : Nat
  findings : 0 < maxFindings ∧ maxFindings ≤ maxFsckFindings
  objects : 0 < maxObjects ∧ maxObjects ≤ maxFsckObjects
  decodedBytes : 0 < maxDecodedBytes ∧ maxDecodedBytes ≤ maxFsckDecodedBytes
  targets : 0 < maxTargetObservations ∧ maxTargetObservations ≤ maxFsckTargets
  observedBytes : 0 < maxObservedBytes ∧ maxObservedBytes ≤ maxFsckObservedBytes

def FsckRequest.default : FsckRequest where
  maxFindings := maxFsckFindings
  maxObjects := maxFsckObjects
  maxDecodedBytes := maxFsckDecodedBytes
  observeTargets := false
  maxTargetObservations := maxFsckTargets
  maxObservedBytes := maxFsckObservedBytes
  findings := by decide
  objects := by decide
  decodedBytes := by decide
  targets := by decide
  observedBytes := by decide

inductive FsckStoreArea where
  | root
  | state
  | generations
  | prepared
  | transactions
  | objects
  | artifactBlobs
  | packObjects
  | canonicalFiles
  | canonicalSymlinks
  | canonicalTrees
deriving DecidableEq, Repr

inductive FsckSubject where
  | transactionLock
  | maintenanceLock
  | catalog
  | namespaceName (name : NamespaceName)
  | generation (digest : Digest)
  | preparedPlan (planId : PreparedId)
  | artifactBlob (digest : Digest)
  | packObject (digest : Digest)
  | canonicalFile (digest : Digest)
  | canonicalSymlink (digest : Digest)
  | canonicalTree (digest : Digest)
  | target (authority : DeploymentName) (relativePath : Text)
  | storeArea (area : FsckStoreArea)
  | retention
  | ownership
  | coverage
deriving DecidableEq, Repr

inductive FsckFindingCode where
  | invalidCatalog
  | missingGeneration
  | invalidGeneration
  | cyclicHistory
  | crossNamespaceHistory
  | sharedGeneration
  | missingPreparedPlan
  | invalidPreparedPlan
  | invalidPreparedTransition
  | missingArtifactBlob
  | corruptArtifactBlob
  | artifactLengthMismatch
  | missingPackObject
  | corruptPackObject
  | missingCanonicalObject
  | corruptCanonicalObject
  | invalidLockMetadata
  | invalidStaging
  | malformedStoreEntry
  | unreachableImmutableObject
  | targetDrift
  | targetObservationFailed
  | invalidOwnership
  | traversalLimitExceeded
  | decodedByteLimitExceeded
  | findingLimitExceeded
deriving DecidableEq, Repr

inductive FsckSeverity where
  | error
  | warning
deriving DecidableEq, Repr

structure FsckFinding where
  code : FsckFindingCode
  severity : FsckSeverity
  subject : FsckSubject
  detail : String
deriving DecidableEq, Repr

structure FsckReport where
  findings : List FsckFinding
  checkedGenerations : Nat
  checkedPreparedPlans : Nat
  checkedArtifactBlobs : Nat
  checkedPackObjects : Nat
  checkedCanonicalFiles : Nat
  checkedCanonicalSymlinks : Nat
  checkedCanonicalTrees : Nat
  checkedTargets : Nat
  decodedBytes : Nat
  observedBytes : Nat
  findingsTruncated : Bool
  complete : Bool
deriving DecidableEq, Repr

def FsckReport.isClean (report : FsckReport) : Bool :=
  report.findings.all fun finding => finding.severity ≠ .error

/-! ## 2. The state of a scan -/

/-- The names an area was seen to hold, `checked_*`. -/
structure FsckChecked where
  generations : List Digest
  prepared : List PreparedId
  blobs : List Digest
  packs : List Digest
  files : List Digest
  symlinks : List Digest
  trees : List Digest

structure FsckScan where
  request : FsckRequest
  findings : List FsckFinding
  findingsTruncated : Bool
  complete : Bool
  enumeratedEntries : Nat
  traversedObjects : Nat
  traversalLimitReported : Bool
  decodedByteLimitReported : Bool
  decodedBytes : Nat
  observedBytes : Nat
  checkedTargets : Nat
  checked : FsckChecked

abbrev FsckM := StateM FsckScan

namespace FsckScan

def new (request : FsckRequest) : FsckScan where
  request := request
  findings := []
  findingsTruncated := false
  complete := true
  enumeratedEntries := 0
  traversedObjects := 0
  traversalLimitReported := false
  decodedByteLimitReported := false
  decodedBytes := 0
  observedBytes := 0
  checkedTargets := 0
  checked := ⟨[], [], [], [], [], [], []⟩

/-- `FsckScan::finding`: at the limit the last finding says so. -/
def finding (scan : FsckScan) (finding : FsckFinding) : FsckScan :=
  if scan.findings.length < scan.request.maxFindings then
    { scan with findings := scan.findings ++ [finding] }
  else if scan.findingsTruncated then
    scan
  else
    { scan with
      findingsTruncated := true
      complete := false
      findings := scan.findings.dropLast ++
        [⟨.findingLimitExceeded, .error, .coverage,
          "additional fsck findings were omitted at the requested finding limit"⟩] }

end FsckScan

def fsckError (code : FsckFindingCode) (subject : FsckSubject) (detail : String) : FsckM Unit :=
  modify fun scan => { scan with complete := false }.finding ⟨code, .error, subject, detail⟩

def fsckWarning (code : FsckFindingCode) (subject : FsckSubject) (detail : String) : FsckM Unit :=
  modify fun scan => scan.finding ⟨code, .warning, subject, detail⟩

def coverageGap : FsckM Unit :=
  modify fun scan => { scan with complete := false }

def reportTraversalLimit (subject : FsckSubject) (detail : String) : FsckM Unit := do
  let scan ← get
  if scan.traversalLimitReported then
    pure ()
  else do
    modify fun scan => { scan with traversalLimitReported := true }
    fsckError .traversalLimitExceeded subject detail

def chargeObject (subject : FsckSubject) : FsckM Bool := do
  let scan ← get
  if scan.traversedObjects = scan.request.maxObjects then do
    reportTraversalLimit subject "physical object traversal exceeded the requested object limit"
    pure false
  else do
    modify fun scan => { scan with traversedObjects := scan.traversedObjects + 1 }
    pure true

def reportDecodedByteLimit (subject : FsckSubject) (detail : String) : FsckM Unit := do
  let scan ← get
  if scan.decodedByteLimitReported then
    pure ()
  else do
    modify fun scan => { scan with decodedByteLimitReported := true }
    fsckError .decodedByteLimitExceeded subject detail

def chargeBytes (bytes : Nat) (subject : FsckSubject) : FsckM Bool := do
  let scan ← get
  if scan.request.maxDecodedBytes < scan.decodedBytes + bytes then do
    reportDecodedByteLimit subject "physical object bytes exceed the requested decoded-byte limit"
    pure false
  else do
    modify fun scan => { scan with decodedBytes := scan.decodedBytes + bytes }
    pure true

/-- `FsckScan::directory_entries`: the names, as far as the limit admits them. -/
def directoryEntries {α : Type} (area : FsckStoreArea) (names : List α) : FsckM (List α) := do
  let scan ← get
  let left := scan.request.maxObjects - scan.enumeratedEntries
  if left < names.length then do
    modify fun scan => { scan with enumeratedEntries := scan.request.maxObjects }
    reportTraversalLimit (.storeArea area)
      "store directory enumeration exceeded the requested object limit"
    pure (names.take left)
  else do
    modify fun scan => { scan with enumeratedEntries := scan.enumeratedEntries + names.length }
    pure names

/-! ## 3. The fixed part of the layout -/

/-- The names above the object areas, and whether the two lock files are safe. -/
structure StoreLayout where
  root : List Text
  objects : Option (List Text)
  state : Option (List Text)
  transactions : Option (List Text)
  transactionLock : Bool
  maintenanceLock : Bool

def inspectDirectoryShape (area : FsckStoreArea) (allowed : List Text) (names : List Text) :
    FsckM Unit := do
  let names ← directoryEntries area names
  names.forM fun name =>
    if name ∈ allowed then
      pure ()
    else
      fsckError (if name.head? = some '.' then .invalidStaging else .malformedStoreEntry)
        (.storeArea area) "the store area contains an unrecognized entry"

def inspectStoreShape (layout : StoreLayout) : FsckM Unit := do
  inspectDirectoryShape .root
    ["descriptor.json".toList, "transaction.lock".toList, "maintenance.lock".toList,
      "prepared".toList, "objects".toList, "transactions".toList, "state".toList] layout.root
  layout.objects.toList.forM (inspectDirectoryShape .objects
    ["blobs".toList, "packs".toList, "pack-manifests".toList, "files".toList,
      "symlinks".toList, "trees".toList])
  layout.state.toList.forM (inspectDirectoryShape .state
    ["catalog.json".toList, ".catalog.json.new".toList, "generations".toList,
      "observed.json".toList, ".observed.json.new".toList])
  layout.transactions.toList.forM (inspectDirectoryShape .transactions
    ["current.json".toList, ".current.json.update".toList, ".current.json.new".toList])

def inspectLock (safe : Bool) (subject : FsckSubject) : FsckM Unit :=
  if safe then
    pure ()
  else
    fsckError .invalidLockMetadata subject
      "an existing store lock has unsafe metadata or changed while inspected"

/-! ## 4. Loading the areas -/

/-- What the loops over the areas differ in. -/
structure FsckArea (κ α β : Type) where
  area : FsckStoreArea
  subject : κ → FsckSubject
  check : κ → FsckChecked → FsckChecked
  sizeOf : α → Nat
  limit : Nat
  code : FsckFindingCode
  decode : κ → α → Except String β

def readImmutableEntry {α : Type} (sizeOf : α → Nat) (limit : Nat) (code : FsckFindingCode)
    (subject : FsckSubject) (file : StoreFile α) : FsckM (Option α) :=
  if limit < sizeOf file.bytes then do
    fsckError code subject "the store entry exceeds its format-specific encoded-size limit"
    pure none
  else do
    let charged ← chargeBytes (sizeOf file.bytes) subject
    if charged = false then
      pure none
    else
      match readImmutable sizeOf limit (some file) with
      | .ok found => pure found
      | .error _ => do
        fsckError code subject "the immutable entry is unsafe, corrupt, or changed while inspected"
        pure none

def decodeEntry {κ α β : Type} [LinearOrder κ] (area : FsckArea κ α β) (loaded : SortedMap κ β)
    (key : κ) : Option α → FsckM (SortedMap κ β)
  | none => pure loaded
  | some bytes =>
    match area.decode key bytes with
    | .ok value => pure (loaded.insert key value)
    | .error detail => do
      fsckError area.code (area.subject key) detail
      pure loaded

def loadEntryOf {κ α β : Type} [LinearOrder κ] (area : FsckArea κ α β) (loaded : SortedMap κ β)
    (entry : κ × StoreFile α) : FsckM (SortedMap κ β) := do
  let charged ← chargeObject (area.subject entry.1)
  if charged = false then
    pure loaded
  else do
    modify fun scan => { scan with checked := area.check entry.1 scan.checked }
    let found ← readImmutableEntry area.sizeOf area.limit area.code (area.subject entry.1) entry.2
    decodeEntry area loaded entry.1 found

/-- The loop over an area, from the records loaded before. -/
def loadAreaOf {κ α β : Type} [LinearOrder κ] (area : FsckArea κ α β)
    (files : SortedMap κ (StoreFile α)) (loaded : SortedMap κ β) : FsckM (SortedMap κ β) := do
  let entries ← directoryEntries area.area files.entries
  entries.foldlM (loadEntryOf area) loaded

def decodeOr {ε β : Type} (result : Except ε β) (detail : String) : Except String β :=
  result.mapError fun _ => detail

/-- What `pack_object::validate` requires of a monolithic object besides its hash. -/
structure PackEnvelope where
  valid : Contents → Bool

section Loading

variable (codec : ObjectCodec) (packEnvelope : PackEnvelope) (store : ObjectStore)

def fsckLoadCatalog (catalog : StateCatalog) : FsckM (Option StateCatalog) := do
  let charged ← chargeObject .catalog
  if charged = false then
    pure none
  else if maxStateCatalogBytes < codec.catalogBytes catalog then do
    fsckError .invalidCatalog .catalog
      "the store entry exceeds its format-specific encoded-size limit"
    pure none
  else do
    let charged ← chargeBytes (codec.catalogBytes catalog) .catalog
    if charged = false then
      pure none
    else
      match validateCatalogLineages codec store none .full catalog with
      | .ok () => pure (some catalog)
      | .error _ => do
        fsckError .invalidCatalog .catalog "a namespace's retained generation lineage is invalid"
        pure (some catalog)

def preparedArea : FsckArea PreparedId (Encoded PreparedRecord) PreparedRecord where
  area := .prepared
  subject := .preparedPlan
  check planId checked := { checked with prepared := planId :: checked.prepared }
  sizeOf := Encoded.byteLen codec.preparedBytes
  limit := maxPreparedRecordBytes
  code := .invalidPreparedPlan
  decode planId bytes := decodeOr (decodePreparedRecord codec planId bytes)
    "the prepared record is corrupt, noncanonical, unsupported, or misnamed"

def generationArea : FsckArea Digest (Encoded StateGeneration) StateGeneration where
  area := .generations
  subject := .generation
  check digest checked := { checked with generations := digest :: checked.generations }
  sizeOf := Encoded.byteLen codec.generationBytes
  limit := maxStateRecordBytes
  code := .invalidGeneration
  decode digest bytes := decodeOr (decodeStateGeneration codec digest bytes)
    "the state generation is corrupt, noncanonical, unsupported, or misnamed"

def blobArea : FsckArea Digest Contents Nat where
  area := .artifactBlobs
  subject := .artifactBlob
  check digest checked := { checked with blobs := digest :: checked.blobs }
  sizeOf := Contents.byteLen
  limit := maxArtifactBlobBytes
  code := .corruptArtifactBlob
  decode digest bytes :=
    if bytes.hash ≠ digest then
      .error "the artifact blob bytes do not match their content address"
    else
      .ok bytes.byteLen

def validatePackObject (digest : Digest) (bytes : Contents) : Bool :=
  bytes.byteLen ≤ maxPackObjectBytes && bytes.hash = digest && packEnvelope.valid bytes

def packArea : FsckArea Digest Contents Unit where
  area := .packObjects
  subject := .packObject
  check digest checked := { checked with packs := digest :: checked.packs }
  sizeOf := Contents.byteLen
  limit := maxPackObjectBytes
  code := .corruptPackObject
  decode digest bytes :=
    if validatePackObject packEnvelope digest bytes then
      .ok ()
    else
      .error "the pack object is corrupt, noncanonical, unsupported, or misnamed"

def memberStored (member : PackMember) : Bool :=
  match store.blobs.get? member.blob with
  | some file => file.bytes.byteLen = member.byteLen
  | none => false

def packManifestArea : FsckArea Digest (Encoded (List PackMember)) Unit where
  area := .packObjects
  subject := .packObject
  check digest checked := { checked with packs := digest :: checked.packs }
  sizeOf := Encoded.byteLen packManifestLen
  limit := maxPackManifestBytes
  code := .corruptPackObject
  decode _ bytes :=
    match decodePackManifestMembers bytes with
    | .error _ => .error "the pack manifest is corrupt, noncanonical, or unsupported"
    | .ok members =>
      if members.all (memberStored store) then
        .ok ()
      else
        .error "a pack manifest member blob is missing or has the wrong length"

def fsckLoadPacks : FsckM (SortedMap Digest Unit) := do
  let packs ← loadAreaOf (packArea packEnvelope) store.packs .empty
  loadAreaOf (packManifestArea store) store.packManifests packs

/-- The files of `FsckScan::load_canonical_objects`. -/
def fileArea : FsckArea Digest (Encoded Contents) Contents where
  area := .canonicalFiles
  subject := .canonicalFile
  check digest checked := { checked with files := digest :: checked.files }
  sizeOf := Encoded.byteLen fileObjectLen
  limit := maxFileObjectBytes
  code := .corruptCanonicalObject
  decode digest bytes := decodeOr (decodeFile codec digest bytes)
    "the canonical file object is corrupt, noncanonical, or misnamed"

/-- The symlinks of `FsckScan::load_canonical_objects`. -/
def symlinkArea : FsckArea Digest (Encoded Text) Text where
  area := .canonicalSymlinks
  subject := .canonicalSymlink
  check digest checked := { checked with symlinks := digest :: checked.symlinks }
  sizeOf := Encoded.byteLen symlinkObjectLen
  limit := maxSymlinkObjectBytes
  code := .corruptCanonicalObject
  decode digest bytes := decodeOr (decodeSymlink codec digest bytes)
    "the canonical symlink object is corrupt, noncanonical, or misnamed"

/-- The trees of `FsckScan::load_canonical_objects`. -/
def treeArea : FsckArea Digest (Encoded TreeObject) TreeObject where
  area := .canonicalTrees
  subject := .canonicalTree
  check digest checked := { checked with trees := digest :: checked.trees }
  sizeOf := Encoded.byteLen TreeObject.encodedLen
  limit := maxTreeObjectBytes
  code := .corruptCanonicalObject
  decode digest bytes := decodeOr (decodeTree codec digest bytes)
    "the canonical tree object is corrupt, noncanonical, or misnamed"

def fsckLoadCanonicalObjects : FsckM CanonicalObjects := do
  let files ← loadAreaOf (fileArea codec) store.files .empty
  let symlinks ← loadAreaOf (symlinkArea codec) store.symlinks .empty
  let trees ← loadAreaOf (treeArea codec) store.trees .empty
  return ⟨files, symlinks, trees⟩

end Loading

end Malm.Commit
