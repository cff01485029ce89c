/-
Malm.Store.Validate — the checks `malm-store` runs on its records
(`tracked_root.rs`, `state.rs`, `validate.rs`, `prepared.rs`).

`StateRecordError.record` stands for `prepared_error_as_state`. `windows(2)` checks of
strict order are `List.IsChain`. Serialized sizes and identities are functions of a
`Codec`.
-/
import Malm.Store.Records

namespace Malm.Store

open Checks

/-! ## 1. Errors -/

inductive StateRecordError where
  | tooLarge (limit actual : Nat)
  | unsupportedVersion (expected found : Nat)
  | nonCanonical
  | digestMismatch (expected actual : Digest)
  | invalidState (reason : String)
  | targetsOverlap (authority : DeploymentName) (ancestor relativePath : Text)
  | operationAt (reason : String) (authority : DeploymentName) (relativePath : Text)
  | record (error : PreparedRecordError)
deriving DecidableEq, Repr

def asState {α : Type} (result : Except PreparedRecordError α) : Except StateRecordError α :=
  result.mapError .record

/-- `map_err` to `InvalidDesiredSnapshot(error.to_string())`. -/
def asDesiredSnapshot {α : Type} (result : Except StateRecordError α) :
    Except PreparedRecordError α :=
  result.mapError fun _ => .invalidDesiredSnapshot "invalid state record"

/-! ## 2. Tracked roots -/

/-- `b.is_ascii_hexdigit() && !b.is_ascii_uppercase()`. -/
def isLowerHex (character : Char) : Bool :=
  character.isDigit || ('a' ≤ character && character ≤ 'f')

def isDigestText (value : Text) : Bool :=
  value.length = 71 && value.take 7 = ['s', 'h', 'a', '2', '5', '6', '-'] &&
    (value.drop 7).all isLowerHex

def isSafeIdentifier (value : Text) : Bool :=
  value.byteLen ≤ 128 && !value.isEmpty &&
    value.all fun character => character.isAlphanum || character = '_' || character = '-'

/-- Segments no repository path may use. -/
def reservedSegments : List Text :=
  [['.', 'g', 'i', 't'], ['m', 'a', 'l', 'm', '.', 'l', 'o', 'c', 'k'],
    ['.', 'm', 'a', 'l', 'm', '-', 'l', 'o', 'c', 'k', '.', 't', 'm', 'p']]

/-- The segment loop of `validate_local_acquisition_locator`. -/
def localSegmentsValid : Bool → List Text → Bool
  | _, [] => true
  | sawNormal, segment :: rest =>
    if segment.isEmpty || segment = ['.'] || 255 < segment.byteLen ||
        segment ∈ reservedSegments || (segment = ['.', '.'] && sawNormal) then
      false
    else
      localSegmentsValid (sawNormal || segment ≠ ['.', '.']) rest

def validateLocalAcquisitionLocator (value : Text) : Except PreparedRecordError Unit :=
  if value = ['.'] then
    .ok ()
  else do
    validateText "local acquisition grant locator" value 4096
    reject
      (value.head? = some '/' ∨ '\\' ∈ value ∨ value.any Text.isControl ∨
        64 < value.segments.length ∨ ¬ localSegmentsValid false value.segments)
      (.invalidField "local acquisition grant locator"
        "must be a bounded canonical root-relative local locator")

def isCanonicalPort (port : Text) : Bool :=
  !port.isEmpty && port.head? ≠ some '0' && port.all Char.isDigit &&
    (let number := port.foldl (fun total digit => 10 * total + (digit.toNat - 48)) 0
     number ≤ 65535 && number ≠ 0 && number ≠ 443)

/-- The DNS-label part of `is_canonical_https_authority`. -/
def isCanonicalHost (host : Text) : Bool :=
  !host.isEmpty && (host.splitOn '.').all fun label =>
    !label.isEmpty && label.head? ≠ some '-' && label.getLast? ≠ some '-' &&
      label.all fun character => character.isLower || character.isDigit || character = '-'

def isCanonicalHttpsAuthority (authority : Text) : Bool :=
  match authority with
  | '[' :: rest =>
    if ']' ∉ rest then false
    else
      let host := rest.takeWhile (· ≠ ']')
      let remainder := (rest.dropWhile (· ≠ ']')).drop 1
      !host.isEmpty && host.contains ':' &&
        host.all (fun character => character.isDigit || ('a' ≤ character && character ≤ 'f') ||
          ('A' ≤ character && character ≤ 'F') || character = ':' || character = '.') &&
        match remainder with
        | [] => true
        | ':' :: port => isCanonicalPort port
        | _ => false
  | _ =>
    if ':' ∈ authority then
      let reversed := authority.reverse
      let port := (reversed.takeWhile (· ≠ ':')).reverse
      let host := ((reversed.dropWhile (· ≠ ':')).drop 1).reverse
      isCanonicalHost host && isCanonicalPort port
    else
      isCanonicalHost authority

def urlPathBytesValid : Text → Bool
  | '%' :: high :: low :: rest =>
    let upperHex := fun character : Char =>
      character.isDigit || ('A' ≤ character && character ≤ 'F')
    upperHex high && upperHex low && urlPathBytesValid rest
  | '%' :: _ => false
  | character :: rest =>
    character ∉ ['"', '<', '>', '[', ']', '\x7b', '\x7d', '|'] && urlPathBytesValid rest
  | [] => true

def isCanonicalUrlPath (path : Text) : Bool :=
  path.segments.all (fun segment => segment ≠ ['.'] && segment ≠ ['.', '.']) &&
    urlPathBytesValid path

def validateCanonicalHttpsLocator (field : String) (value : Text) (limit : Nat) :
    Except PreparedRecordError Unit := do
  validateText field value limit
  let scheme := ['h', 't', 't', 'p', 's', ':', '/', '/']
  let remainder := value.drop scheme.length
  let authority := remainder.takeWhile (· ≠ '/')
  let path := (remainder.dropWhile (· ≠ '/')).drop 1
  reject
    (value.take scheme.length ≠ scheme ∨ '/' ∉ remainder ∨
      ¬ value.all (fun character => 0x20 < character.toNat && character.toNat < 0x7f) ∨
      '\\' ∈ value ∨ '?' ∈ value ∨ '#' ∈ value ∨ authority.isEmpty ∨ '@' ∈ authority ∨
      authority.any Char.isUpper ∨ ¬ isCanonicalHttpsAuthority authority ∨
      ¬ isCanonicalUrlPath path)
    (.invalidField field "must be a canonical credential-free HTTPS locator")

def validateAcquisitionGrant (grant : AcquisitionGrant) : Except PreparedRecordError Unit :=
  match grant.kind with
  | .localSource => validateLocalAcquisitionLocator grant.locator
  | .gitSource => validateCanonicalHttpsLocator "Git acquisition grant locator" grant.locator 4096
  | .formatComponent =>
    reject (¬ isDigestText grant.locator)
      (.invalidField "format component acquisition grant locator"
        "must be a full canonical SHA-256 digest")
  | .targetAuthority =>
    reject (¬ isSafeIdentifier grant.locator)
      (.invalidField "target authority acquisition grant locator"
        "must be a valid deployment authority name")

/-- The derived order of `AcquisitionGrantV1`: kind, then locator. -/
def AcquisitionGrant.key (grant : AcquisitionGrant) : Nat ×ₗ Text :=
  toLex (grant.kind.rank, grant.locator)

def validateTrackedRoot (trackedRoot : TrackedRoot) : Except PreparedRecordError Unit := do
  reject (trackedRoot.schemaVersion ≠ 1)
    (.unsupportedVersion 1 trackedRoot.schemaVersion)
  checkLimit "tracked-root acquisition grants" trackedRoot.acquisitionGrants.length
    maxTrackedRootAcquisitionGrants
  trackedRoot.acquisitionGrants.forM validateAcquisitionGrant
  checkLimit "tracked-root acquisition grant bytes"
    (trackedRoot.acquisitionGrants.map fun grant => grant.locator.byteLen).sum
    maxTrackedRootAcquisitionBytes
  reject
    (¬ (trackedRoot.acquisitionGrants.map AcquisitionGrant.key).IsChain (· < ·))
    (.invalidField "tracked-root acquisition grants"
      "must be strictly sorted by kind and locator")

/-! ## 3. Retention authority -/

def validateRestorePoint (point : RestorePoint) (namespaceName : Option NamespaceName) :
    Except PreparedRecordError Unit := do
  reject (namespaceName.any (· ≠ point.namespaceName))
    (.invalidField "restore point namespace" "must match the prepared namespace")
  whenSome point.trackedRoot validateTrackedRoot

def validateRetentionAuthority (authority : RetentionAuthority)
    (namespaceName : Option NamespaceName) : Except PreparedRecordError Unit := do
  reject (authority.history = 0 ∨ maxHistoryRetentionGenerations < authority.history)
    (.invalidField "history retention generations" "must be in 1..=65536")
  checkLimit "restore points" authority.restorePoints.length maxRestorePoints
  checkLimit "explicit pins" authority.explicitPins.length maxExplicitPins
  authority.restorePoints.forM fun point => validateRestorePoint point namespaceName
  reject (¬ (authority.restorePoints.map RestorePoint.generation).IsChain (· < ·))
    (.invalidField "restore points" "must be strictly ordered by generation")
  reject (¬ authority.explicitPins.IsChain fun left right => left.before right)
    (.invalidField "explicit pins" "must be strictly ordered")

def validateSelectedRestoreAuthority (lifecycle : LifecycleState)
    (selected : Option RestorePoint) (authority : RetentionAuthority) :
    Except PreparedRecordError Unit :=
  match lifecycle, selected with
  | .enabled, none => .ok ()
  | .enabled, some _ =>
    .error (.invalidField "selected restore point"
      "an enabled generation cannot select a restore point")
  | .disabled, none =>
    .error (.invalidField "selected restore point"
      "a disabled generation must select a restore point")
  | .disabled, some point =>
    reject (point ∉ authority.restorePoints)
      (.invalidField "selected restore point"
        "must be included exactly in the generation retention authority")

/-! ## 4. Target states and snapshots -/

/-- The SHA-256 of no bytes. -/
def emptyDigest : Digest :=
  ⟨0xe3b0c44298fc1c149afbf4c8996fb92427ae41e4649b934ca495991b7852b855⟩

def validateStateFile (file : StateFile) : Except StateRecordError Unit := do
  reject (file.mode &&& ~~~0o777#32 ≠ 0 ∨ file.mode &&& 0o400#32 = 0)
    (.invalidState
      "target file mode must contain only permission bits and remain owner-readable")
  reject (maxArtifactBlobBytes < file.byteLen)
    (.invalidState "target file exceeds the per-blob size limit")
  reject (file.byteLen = 0 ∧ file.digest ≠ emptyDigest)
    (.invalidState "zero-byte target files must have the empty SHA-256 digest")

def validateStateDirectory (directory : StateDirectory) : Except StateRecordError Unit :=
  reject
    (directory.mode &&& ~~~0o777#32 ≠ 0 ∨ directory.mode &&& 0o500#32 ≠ 0o500#32)
    (.invalidState "target directory mode must contain only permission bits and remain owner-readable and owner-searchable")

/-- `validate_target_state`; also the per-slot match of `validate_state_targets`. -/
def validateTargetState : StateTargetState → Except StateRecordError Unit
  | .file (some file) => validateStateFile file
  | .directory (some directory) => validateStateDirectory directory
  | .tree (some tree) =>
    whenSome tree.archiveProvenance fun provenance =>
      asState (validateLabel "archive decoder" provenance.decoder)
  | _ => .ok ()

def presentLeaves (targets : List StateTarget) : List (DeploymentName × Text) :=
  (targets.filter fun target =>
    target.isPresent && !(match target.state with | .directory (some _) => true | _ => false)).map
    StateTarget.key

def noteDigestLength (lengths : List (Digest × Nat)) (state : StateTargetState) :
    Except StateRecordError (List (Digest × Nat)) :=
  match state with
  | .file (some file) => do
    reject (lengths.any fun (digest, length) =>
        digest = file.digest && length ≠ file.byteLen)
      (.invalidState "one target digest cannot have conflicting lengths")
    return (file.digest, file.byteLen) :: lengths
  | _ => .ok lengths

def validateTargetSlots (leaves : List (DeploymentName × Text)) :
    Option StateTarget → List (Digest × Nat) → List StateTarget → Except StateRecordError Unit
  | _, _, [] => .ok ()
  | previous, lengths, target :: rest => do
    asState (validateRelativePath target.relativePath)
    reject (previous.any fun before => ¬ toLex before.key < toLex target.key)
      (.invalidState "target slots must be strictly ordered by authority and path")
    validateTargetState target.state
    let lengths ← noteDigestLength lengths target.state
    Checks.when (target.isPresent = true)
      (rejectSome
        (target.relativePath.ancestorPaths.find? fun ancestor =>
          (target.authority, ancestor) ∈ leaves)
        fun ancestor => .targetsOverlap target.authority ancestor target.relativePath)
    validateTargetSlots leaves (some target) lengths rest

def validateStateTargets (targets : List StateTarget) : Except StateRecordError Unit := do
  reject (maxDesiredTargets < targets.length)
    (.invalidState "complete desired snapshot exceeds its target count limit")
  validateTargetSlots (presentLeaves targets) none [] targets

def sortTargets (targets : List StateTarget) : List StateTarget :=
  targets.insertionSort fun left right => toLex left.key ≤ toLex right.key

def DesiredSnapshot.new (targets : List StateTarget) : Except StateRecordError DesiredSnapshot := do
  validateStateTargets (sortTargets targets)
  return ⟨sortTargets targets⟩

def DesiredSnapshot.target (snapshot : DesiredSnapshot) (key : DeploymentName × Text) :
    Option StateTarget :=
  snapshot.targets.find? fun target => target.key = key

/-! ## 5. Transform provenance -/

def maxTransformDiagnostics : Nat := 256
def maxTransformResources : Nat := 1024
def maxTransformDiagnosticTextBytes : Nat := 16 * 1024
def maxTransformDiagnosticNotes : Nat := 64
def maxTransformDiagnosticTotalTextBytes : Nat := 1024 * 1024
def maxTransformSourceDocumentBytes : Nat := 1024 * 1024

def validateDiagnosticCode (value : Text) : Except PreparedRecordError Unit := do
  reject (value.isEmpty ∨ 128 < value.byteLen)
    (.invalidField "transform diagnostic code" "must contain between 1 and 128 bytes")
  (value.splitOn '.').forM fun segment =>
    match segment with
    | [] =>
      .error (.invalidField "transform diagnostic code"
        "must not contain empty dot-separated segments")
    | first :: rest =>
      reject
        (¬ first.isLower ∨ ¬ rest.all (fun character =>
          character.isLower || character.isDigit || character = '-' || character = '_'))
        (.invalidField "transform diagnostic code"
          "must use canonical lowercase dotted-name syntax")

def TransformDiagnosticLocation.validate :
    TransformDiagnosticLocation → Except PreparedRecordError Unit
  | .source _ _ documentPath sourceByteLen start stop => do
    validateRelativePath documentPath
    reject (maxTransformSourceDocumentBytes < sourceByteLen)
      (.invalidField "transform diagnostic source byte length" "exceeds its byte limit")
    reject (stop < start)
      (.invalidField "transform diagnostic source range" "start must not exceed end")
    reject (sourceByteLen < stop)
      (.invalidField "transform diagnostic source range"
        "end exceeds the exact captured source byte length")
  | .output start stop =>
    reject (stop < start)
      (.invalidField "transform diagnostic output range" "start must not exceed end")

def TransformDiagnostic.textBytes (diagnostic : TransformDiagnostic) : Nat :=
  diagnostic.message.byteLen + (diagnostic.notes.map Text.byteLen).sum

def TransformDiagnostic.validate (diagnostic : TransformDiagnostic) :
    Except PreparedRecordError Unit := do
  reject (diagnostic.severity = .error)
    (.invalidField "transform diagnostic severity"
      "successful transforms cannot contain error diagnostics")
  validateDiagnosticCode diagnostic.code
  checkLimit "transform diagnostic message" diagnostic.message.byteLen
    maxTransformDiagnosticTextBytes
  checkLimit "transform diagnostic notes" diagnostic.notes.length maxTransformDiagnosticNotes
  diagnostic.notes.forM fun note =>
    checkLimit "transform diagnostic note" note.byteLen maxTransformDiagnosticTextBytes
  checkLimit "transform diagnostic text bytes" diagnostic.textBytes
    maxTransformDiagnosticTotalTextBytes
  whenSome diagnostic.primary TransformDiagnosticLocation.validate

def TransformDiagnosticSeverity.rank : TransformDiagnosticSeverity → Nat
  | .error => 0
  | .warning => 1
  | .info => 2

/-- A location as its fields in declaration order. -/
def TransformDiagnosticLocation.fields : TransformDiagnosticLocation → List (Nat ×ₗ Text)
  | .source label identity path byteLen start stop =>
    [toLex (0, []), toLex (0, label), toLex (identity.value, []), toLex (0, path),
      toLex (byteLen, []), toLex (start, []), toLex (stop, [])]
  | .output start stop => [toLex (1, []), toLex (start, []), toLex (stop, [])]

/-- A diagnostic's fields in declaration order, as the derived `Ord` compares
them. -/
def TransformDiagnostic.key (diagnostic : TransformDiagnostic) :
    Nat ×ₗ Text ×ₗ Text ×ₗ List (Nat ×ₗ Text) ×ₗ List Text :=
  toLex (diagnostic.severity.rank, toLex (diagnostic.code, toLex (diagnostic.message,
    toLex ((diagnostic.primary.map TransformDiagnosticLocation.fields).getD [],
      diagnostic.notes))))

def formatComponentInterface : Text :=
  ['f', 'o', 'r', 'm', 'a', 't', '-', 'c', 'o', 'm', 'p', 'o', 'n', 'e', 'n', 't', '/', 'v', '1']

def TransformImplementation.validate : TransformImplementation → Except PreparedRecordError Unit
  | .builtIn implementation => validateLabel "built-in transform implementation" implementation
  | .component _ _ componentPath _ interfaceVersion _ => do
    validateRelativePath componentPath
    reject (interfaceVersion ≠ formatComponentInterface)
      (.invalidField "format component interface version" "must be exactly format-component/v1")

def TransformProvenance.validate (transform : TransformProvenance) :
    Except PreparedRecordError Unit := do
  validateLabel "transform name" transform.name
  transform.implementation.validate
  checkLimit "transform resources" transform.resources.length maxTransformResources
  transform.resources.forM fun resource => validateLabel "transform resource name" resource.name
  rejectDuplicates "transform resource" (transform.resources.map TransformResource.name)
  checkLimit "transform diagnostics" transform.diagnostics.length maxTransformDiagnostics
  transform.diagnostics.forM TransformDiagnostic.validate
  reject (¬ (transform.diagnostics.map TransformDiagnostic.key).IsChain (· < ·))
    (.invalidField "transform diagnostics" "must be unique and in canonical order")
  checkLimit "transform diagnostic text bytes"
    (transform.diagnostics.map TransformDiagnostic.textBytes).sum
    maxTransformDiagnosticTotalTextBytes

end Malm.Store
