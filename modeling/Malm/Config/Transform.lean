/-
Malm.Config.Transform — requests and responses of format transforms, and their
identities (`malm-config/src/transform.rs`, `rich.rs`).

An identity is the hash of a preimage. Documents and resources are in the preimage of a
request by their own hashes. The maps of a request are their entries in name order.
-/
import Malm.Config.Canonical

namespace Malm.Config

open Pack Pack.Object Malm.Tree Bytes Checks

/-! ## 1. Limits and errors -/

def formatTransformVersion : UInt32 := 1
def maxRichDiagnostics : Nat := 256
def maxRichDiagnosticBytes : Nat := 16 * 1024
def maxRichDiagnosticNotes : Nat := 64
def maxRichTotalDiagnosticBytes : Nat := 1024 * 1024
def maxTransformOptions : Nat := 256
def maxTransformResources : Nat := 1024
def maxTransformResourceBytes : Nat := 64 * 1024 * 1024
def maxTransformTotalResourceBytes : Nat := 256 * 1024 * 1024
def maxTransformOutputBytes : Nat := 64 * 1024 * 1024
def formatComponentInterfaceV1 : Text := "format-component/v1".toList

/-- `TransformContractErrorV1`; a repeated diagnostic is `RichModel` with `DuplicateName`. -/
inductive TransformContractError where
  | richModel (error : RichConfigError)
  | duplicateName (resource : String) (name : RichName)
  | unsupportedVersion (expected actual : UInt32)
  | resourceDigestMismatch (name : RichName)
  | invalidIdentity (reason : String)
  | invalidMediaType
  | errorDiagnosticOnSuccess
deriving DecidableEq

def checkTransformLimit (resource : String) (actual limit : Nat) :
    Except TransformContractError Unit :=
  (checkRichLimit resource actual limit).mapError .richModel

/-! ## 2. Transforms -/

inductive TransformImplementation where
  | builtIn (implementation : Text)
  | component (componentDigest : ObjectDigest) (interfaceVersion : Text)
      (executionProfileDigest : ObjectDigest)
deriving DecidableEq

structure TransformIdentity where
  contractVersion : UInt32
  name : RichName
  implementation : TransformImplementation
deriving DecidableEq

def validateIdentityText (value : Text) : Except TransformContractError Unit := do
  reject (value = []) (.invalidIdentity "implementation version must not be empty")
  reject (256 < value.byteLen)
    (.invalidIdentity "implementation version must be at most 256 bytes")
  reject (value.any Text.isControl = true)
    (.invalidIdentity "implementation version must not contain control characters")

def TransformIdentity.validate (identity : TransformIdentity) :
    Except TransformContractError Unit := do
  reject (identity.contractVersion ≠ formatTransformVersion)
    (.unsupportedVersion formatTransformVersion identity.contractVersion)
  match identity.implementation with
  | .builtIn implementation => validateIdentityText implementation
  | .component _ interfaceVersion _ =>
    reject (interfaceVersion ≠ formatComponentInterfaceV1)
      (.invalidIdentity "component interface must be exactly format-component/v1")

/-! ## 3. Requests -/

structure TransformOption where
  name : RichName
  value : TypedValue

structure DeclaredTransformResource where
  name : RichName
  digest : ObjectDigest
  bytes : List UInt8
deriving DecidableEq

structure TransformRequest where
  contractVersion : UInt32
  document : CanonicalTypedDocument
  options : SortedMap RichName TransformOption
  resources : SortedMap RichName DeclaredTransformResource

section Requests

variable (sha256 : List UInt8 → ObjectDigest)

def DeclaredTransformResource.validate (resource : DeclaredTransformResource) :
    Except TransformContractError Unit := do
  checkTransformLimit "transform resource bytes" resource.bytes.length maxTransformResourceBytes
  reject (sha256 resource.bytes ≠ resource.digest) (.resourceDigestMismatch resource.name)

/-- One option in the loop of `TransformRequestV1::validate`, with the bytes so far. -/
def validateOption (total : Nat) (entry : RichName × TransformOption) :
    Except TransformContractError Nat := do
  reject (entry.1 ≠ entry.2.name)
    (.invalidIdentity "option map key does not match option name")
  entry.2.value.validate.mapError .richModel
  let bytes ← (canonicalValueBytes entry.2.value).mapError .richModel
  return total + bytes.length

/-- One resource in the loop of `validate`, with the bytes so far. -/
def validateResource (total : Nat) (entry : RichName × DeclaredTransformResource) :
    Except TransformContractError Nat := do
  reject (entry.1 ≠ entry.2.name)
    (.invalidIdentity "resource map key does not match resource name")
  entry.2.validate sha256
  return total + entry.2.bytes.length

def TransformRequest.validate (request : TransformRequest) :
    Except TransformContractError Unit := do
  reject (request.contractVersion ≠ formatTransformVersion)
    (.unsupportedVersion formatTransformVersion request.contractVersion)
  let _ ← (canonicalTypedDocumentBytes request.document).mapError .richModel
  checkTransformLimit "transform options" request.options.entries.length maxTransformOptions
  let optionBytes ← request.options.entries.foldlM validateOption 0
  checkTransformLimit "canonical transform option bytes" optionBytes
    maxCanonicalTypedDocumentBytes
  checkTransformLimit "transform resources" request.resources.entries.length maxTransformResources
  let resourceBytes ← request.resources.entries.foldlM (validateResource sha256) 0
  checkTransformLimit "total transform resource bytes" resourceBytes
    maxTransformTotalResourceBytes

/-! ## 4. The identity of a request -/

def putU32 (value : UInt32) : List UInt8 := bigEndian 4 value.toNat

def putU64 (value : UInt64) : List UInt8 := bigEndian 8 value.toNat

def putLen (value : Nat) : List UInt8 := bigEndian 8 value

def putBytes (value : List UInt8) : List UInt8 := putLen value.length ++ value

def putText (value : Text) : List UInt8 := putBytes (utf8 value)

def putDigest (value : ObjectDigest) : List UInt8 := putText (digestText value.val)

def putImplementation : TransformImplementation → List UInt8
  | .builtIn implementation => 0 :: putText implementation
  | .component componentDigest interfaceVersion executionProfileDigest =>
    1 :: (putDigest componentDigest ++ (putText interfaceVersion ++
      putDigest executionProfileDigest))

/-- One option in the loop of `format_transform_request_digest_v1`. -/
def putOption (entry : RichName × TransformOption) : Except TransformContractError (List UInt8) := do
  let value ← (canonicalValueBytes entry.2.value).mapError .richModel
  return putText entry.1.val ++ putBytes value

/-- One resource in the loop of `format_transform_request_digest_v1`. -/
def putResource (entry : RichName × DeclaredTransformResource) : List UInt8 :=
  putText entry.1.val ++ (putDigest entry.2.digest ++ putLen entry.2.bytes.length)

def canonicalTypedDocumentDigest (document : CanonicalTypedDocument) :
    Except RichConfigError ObjectDigest := do
  let bytes ← canonicalTypedDocumentBytes document
  return sha256 bytes

def formatTransformRequestPreimage (identity : TransformIdentity) (request : TransformRequest) :
    Except TransformContractError (List UInt8) := do
  identity.validate
  request.validate sha256
  let document ← (canonicalTypedDocumentDigest sha256 request.document).mapError .richModel
  let options ← request.options.entries.mapM putOption
  return putText "malm-format-transform-request".toList ++ (putU32 formatTransformVersion ++
    (putText identity.name.val ++ (putImplementation identity.implementation ++
      (putDigest document ++ (putLen request.options.entries.length ++ (options.flatten ++
        (putLen request.resources.entries.length ++
          request.resources.entries.flatMap putResource)))))))

end Requests

/-! ## 5. Diagnostics -/

structure TransformOutputRange where
  start : UInt64
  stop : UInt64
  ordered : start ≤ stop
deriving DecidableEq

inductive RichDiagnosticSeverity where
  | error
  | warning
  | info
deriving DecidableEq

def RichDiagnosticSeverity.byte : RichDiagnosticSeverity → UInt8
  | .error => 0
  | .warning => 1
  | .info => 2

inductive RichDiagnosticLocation where
  | source (location : SourceLocation)
  | output (range : TransformOutputRange)
deriving DecidableEq

def checkDiagnostic (message : Text) (notes : List Text) : Except RichConfigError Unit := do
  checkRichLimit "diagnostic message bytes" message.byteLen maxRichDiagnosticBytes
  checkRichLimit "diagnostic notes" notes.length maxRichDiagnosticNotes
  notes.forM fun note => checkRichLimit "diagnostic note bytes" note.byteLen maxRichDiagnosticBytes
  checkRichLimit "diagnostic text bytes" (message.byteLen + (notes.map Text.byteLen).sum)
    maxRichTotalDiagnosticBytes

/-- `RichDiagnosticV1`, as its constructor accepts it. -/
structure RichDiagnostic where
  severity : RichDiagnosticSeverity
  code : RichName
  message : Text
  primary : Option RichDiagnosticLocation
  notes : List Text
  valid : checkDiagnostic message notes = .ok ()
deriving DecidableEq

/-- The derived order of a location: sources before outputs. -/
def RichDiagnosticLocation.sortKey : RichDiagnosticLocation →
    (CapturedDocumentId ×ₗ Nat ×ₗ Nat) ⊕ₗ (Nat ×ₗ Nat)
  | .source location =>
    toLex (.inl (toLex (location.document,
      toLex (location.range.start.toNat, location.range.stop.toNat))))
  | .output range => toLex (.inr (toLex (range.start.toNat, range.stop.toNat)))

def RichDiagnostic.sortKey (diagnostic : RichDiagnostic) :
    Nat ×ₗ RichName ×ₗ Text ×ₗ
      WithBot ((CapturedDocumentId ×ₗ Nat ×ₗ Nat) ⊕ₗ (Nat ×ₗ Nat)) ×ₗ List Text :=
  toLex (diagnostic.severity.byte.toNat, toLex (diagnostic.code, toLex (diagnostic.message,
    toLex (diagnostic.primary.map RichDiagnosticLocation.sortKey, diagnostic.notes))))

/-- The first diagnostic that the loop over `windows(2)` finds repeated. -/
def duplicateDiagnostic : List RichDiagnostic → Option RichDiagnostic
  | first :: second :: rest =>
    if first = second then some first else duplicateDiagnostic (second :: rest)
  | _ => none

def canonicalDiagnostics (diagnostics : List RichDiagnostic) :
    Except TransformContractError (List RichDiagnostic) := do
  checkTransformLimit "diagnostics" diagnostics.length maxRichDiagnostics
  checkTransformLimit "diagnostic text bytes"
    (diagnostics.map fun diagnostic =>
      diagnostic.message.byteLen + (diagnostic.notes.map Text.byteLen).sum).sum
    maxRichTotalDiagnosticBytes
  let sorted := diagnostics.insertionSort fun left right => left.sortKey ≤ right.sortKey
  rejectSome (duplicateDiagnostic sorted)
    fun diagnostic => .duplicateName "diagnostic" diagnostic.code
  return sorted

/-! ## 6. Responses -/

structure TransformResponse where
  output : List UInt8
  mediaType : Text
  diagnostics : List RichDiagnostic
deriving DecidableEq

def validMediaType (value : Text) : Bool :=
  !value.isEmpty && value.byteLen ≤ 128 && '/' ∈ value &&
    value.all fun character =>
      isAsciiLowercase character || ('A' ≤ character && character ≤ 'Z') ||
        ('0' ≤ character && character ≤ '9') || character = '/' || character = '+' ||
          character = '-' || character = '.'

def TransformResponse.validateShape (response : TransformResponse) :
    Except TransformContractError Unit := do
  checkTransformLimit "transform output bytes" response.output.length maxTransformOutputBytes
  reject (validMediaType response.mediaType = false) .invalidMediaType
  let canonical ← canonicalDiagnostics response.diagnostics
  reject (canonical ≠ response.diagnostics)
    (.invalidIdentity "transform diagnostics are not in canonical order")
  reject (response.diagnostics.any (fun diagnostic => diagnostic.severity = .error) = true)
    .errorDiagnosticOnSuccess

def putLocation : Option RichDiagnosticLocation → List UInt8
  | none => [0]
  | some (.source location) =>
    1 :: (putText location.document.label.val ++ (putDigest location.document.identity ++
      (putText location.document.path.val ++ (putU32 location.range.start ++
        putU32 location.range.stop))))
  | some (.output range) => 2 :: (putU64 range.start ++ putU64 range.stop)

/-- One diagnostic in the loop of `format_transform_response_digest_v1`. -/
def putDiagnostic (diagnostic : RichDiagnostic) : List UInt8 :=
  diagnostic.severity.byte :: (putText diagnostic.code.val ++ (putText diagnostic.message ++
    (putLocation diagnostic.primary ++ (putLen diagnostic.notes.length ++
      diagnostic.notes.flatMap putText))))

def formatTransformResponsePreimage (response : TransformResponse) :
    Except TransformContractError (List UInt8) := do
  response.validateShape
  return putText "malm-format-transform-response".toList ++ (putU32 formatTransformVersion ++
    (putText response.mediaType ++ (putBytes response.output ++
      (putLen response.diagnostics.length ++ response.diagnostics.flatMap putDiagnostic))))


end Malm.Config
