/-
Malm.Config.Rich — canonical typed values and documents
(`malm-config/src/rich.rs`, `value.rs`).

Names, keys and paths carry their validation. A record and a collection are their entries
in key order; a float is the bits of its normalized binary64 value.
-/
import Malm.Pack.Object
import Malm.Tree.Model

namespace Malm.Config

open Pack Pack.Object Malm.Tree Checks

/-! ## 1. Limits and errors -/

def richConfigIrVersion : UInt32 := 1
def maxTargetPathBytes : Nat := 4096
def maxTargetPathSegments : Nat := 64
def maxConfigDocumentBytes : Nat := 1024 * 1024
def maxRichNameBytes : Nat := 128
def maxRichKeyBytes : Nat := 1024
def maxRichTextBytes : Nat := 1024 * 1024
def maxRichValueDepth : Nat := 64
def maxRichCollectionItems : Nat := 16384
def maxRichTotalValues : Nat := 262144
def maxRichDocuments : Nat := 1024
def maxRichTotalIncludes : Nat := 16384
def maxRichProvenanceRecords : Nat := 262144
def maxCanonicalTypedDocumentBytes : Nat := 64 * 1024 * 1024

/-- `RichConfigErrorV1`, as far as the modelled functions raise it. -/
inductive RichConfigError where
  | limitExceeded (resource : String) (limit actual : Nat)
  | invalidValue (reason : String)
  | typeMismatch (expected actual : String)
deriving DecidableEq, Repr

def checkRichLimit (resource : String) (actual limit : Nat) : Except RichConfigError Unit :=
  reject (limit < actual) (.limitExceeded resource limit actual)

/-! ## 2. Names, keys and paths -/

def isAsciiLowercase (character : Char) : Bool :=
  'a' ≤ character && character ≤ 'z'

def validateRichNameSegment (segment : Text) : Except String Unit :=
  match segment with
  | [] => .error "must not contain empty dot-separated segments"
  | first :: rest => do
    reject (isAsciiLowercase first = false)
      "each segment must start with a lowercase ASCII letter"
    reject
      (rest.all (fun character => isAsciiLowercase character ||
        ('0' ≤ character && character ≤ '9') || character = '-' || character = '_') = false)
      "segments may contain only lowercase ASCII letters, digits, hyphens, and underscores"

def validateRichName (value : Text) : Except String Unit := do
  reject (value = []) "must not be empty"
  reject (maxRichNameBytes < value.byteLen) "is too long"
  (value.splitOn '.').forM validateRichNameSegment

abbrev RichName := { value : Text // validateRichName value = .ok () }

instance RichName.lawfulBEq : LawfulBEq RichName := inferInstance

def validateRichKey (value : Text) : Except String Unit := do
  reject (value = []) "must not be empty"
  reject (maxRichKeyBytes < value.byteLen) "is too long"
  reject (value.any Text.isControl = true) "must not contain control characters"

abbrev RichKey := { value : Text // validateRichKey value = .ok () }

def validateTargetSegment (segment : Text) : Except String Unit := do
  reject (segment = []) "must not contain empty segments"
  reject (segment = ['.'] ∨ segment = ['.', '.']) "must not contain dot segments"
  reject (255 < segment.byteLen) "segments must be at most 255 bytes"

def validateTargetPath (value : Text) : Except String Unit := do
  reject (value = []) "must not be empty"
  reject (maxTargetPathBytes < value.byteLen) "must be at most 4096 bytes"
  reject (value.head? = some '/') "must be relative to the deployment target"
  reject ('\\' ∈ value) "must use slash separators"
  reject (value.any Text.isControl = true) "must not contain control characters"
  reject (maxTargetPathSegments < value.segments.length) "must contain at most 64 segments"
  value.segments.forM validateTargetSegment

abbrev TargetPath := { value : Text // validateTargetPath value = .ok () }

/-! ## 3. Values -/

/-- `FiniteFloatV1`: the exponent is not all ones, and zero has no sign. -/
structure FiniteFloat where
  bits : UInt64
  finite : bits &&& 0x7ff0000000000000 ≠ 0x7ff0000000000000
  normalized : bits ≠ 0x8000000000000000
deriving DecidableEq

inductive TypedValue where
  | null
  | boolean (value : Bool)
  | integer (value : Int64)
  | unsigned (value : UInt64)
  | float (value : FiniteFloat)
  | string (value : Text)
  | path (value : TargetPath)
  | list (values : List TypedValue)
  | record (values : List (RichKey × TypedValue))
  | collection (values : List (RichKey × TypedValue))

namespace TypedValue

def kindName : TypedValue → String
  | null => "null"
  | boolean _ => "bool"
  | integer _ => "integer"
  | unsigned _ => "unsigned"
  | float _ => "float"
  | string _ => "string"
  | path _ => "path"
  | list _ => "list"
  | record _ => "record"
  | collection _ => "collection"

def isRecord : TypedValue → Bool
  | record _ => true
  | _ => false

/-- The count of values that `validate_value_at` carries, with this one. -/
def countValue (depth total : Nat) : Except RichConfigError Nat := do
  checkRichLimit "typed value depth" depth maxRichValueDepth
  checkRichLimit "typed values" (total + 1) maxRichTotalValues
  return total + 1

mutual

def validateAt (depth total : Nat) : TypedValue → Except RichConfigError Nat
  | string value => do
    let total ← countValue depth total
    checkRichLimit "rich string bytes" value.byteLen maxRichTextBytes
    return total
  | list values => do
    let total ← countValue depth total
    checkRichLimit "list items" values.length maxRichCollectionItems
    validateItems (depth + 1) total values
  | record values => do
    let total ← countValue depth total
    checkRichLimit "record fields" values.length maxRichCollectionItems
    validateFields (depth + 1) total values
  | collection values => do
    let total ← countValue depth total
    checkRichLimit "keyed collection items" values.length maxRichCollectionItems
    validateFields (depth + 1) total values
  | _ => countValue depth total

def validateItems (depth total : Nat) : List TypedValue → Except RichConfigError Nat
  | [] => .ok total
  | first :: rest => do
    let total ← validateAt depth total first
    validateItems depth total rest

def validateFields (depth total : Nat) : List (RichKey × TypedValue) → Except RichConfigError Nat
  | [] => .ok total
  | (_, first) :: rest => do
    let total ← validateAt depth total first
    validateFields depth total rest

end

def validate (value : TypedValue) : Except RichConfigError Unit := do
  let _ ← validateAt 1 0 value

end TypedValue

/-! ## 4. Sources -/

structure CapturedDocumentId where
  label : ContributionName
  identity : ObjectDigest
  path : Object.PackPath
deriving DecidableEq

/-- The derived order: the authority first, then the path. -/
def CapturedDocumentId.sortKey (id : CapturedDocumentId) : Text ×ₗ ObjectDigest ×ₗ Text :=
  toLex (id.label.val, toLex (id.identity, id.path.val))

theorem CapturedDocumentId.sortKey_injective : Function.Injective CapturedDocumentId.sortKey := by
  rintro ⟨label, ident, path⟩ ⟨other, d, snd⟩ h
  obtain ⟨hlabel, hrest⟩ := Prod.mk.inj (toLex.injective h)
  obtain ⟨rfl, hpath⟩ := Prod.mk.inj (toLex.injective hrest)
  obtain rfl := Subtype.ext hlabel
  obtain rfl := Subtype.ext hpath
  rfl

instance : LinearOrder CapturedDocumentId :=
  LinearOrder.lift' CapturedDocumentId.sortKey CapturedDocumentId.sortKey_injective

structure CapturedSourceIdentity where
  digest : ObjectDigest
  byteLen : UInt64
  bounded : byteLen.toNat ≤ maxConfigDocumentBytes
deriving DecidableEq

structure SourceRange where
  start : UInt32
  stop : UInt32
  ordered : start ≤ stop
deriving DecidableEq

structure SourceLocation where
  document : CapturedDocumentId
  range : SourceRange
deriving DecidableEq

inductive CapturedDocumentEdgeKind where
  | include
  | module (name : ContributionName)
deriving DecidableEq

structure IncludeProvenance where
  source : SourceLocation
  target : CapturedDocumentId
  targetDigest : ObjectDigest
  dependency : Option Alias
  kind : CapturedDocumentEdgeKind
deriving DecidableEq

inductive EvaluationFrame where
  | fragment (name : RichName)
  | conditional (thenBranch : Bool)
  | loop (binding : RichName) (iteration : UInt32)
deriving DecidableEq

inductive ProvenanceOperation where
  | variableSupplied
  | variableDefault
  | variableOptionalAbsent
  | variableComputed
  | emit
  | patch (operation : UInt32)
deriving DecidableEq

structure ProvenanceRecord where
  sequence : UInt64
  location : SourceLocation
  operation : ProvenanceOperation
  frames : List EvaluationFrame
deriving DecidableEq

structure RichValuePath where
  segments : List RichKey
  nonempty : segments ≠ []
  bounded : segments.length ≤ maxRichValueDepth
deriving DecidableEq

theorem RichValuePath.segments_injective : Function.Injective RichValuePath.segments := by
  rintro ⟨segs, hne, hbound⟩ ⟨other, hother, hlimit⟩ h
  cases h
  rfl

instance : LinearOrder RichValuePath :=
  LinearOrder.lift' RichValuePath.segments RichValuePath.segments_injective

/-! ## 5. Documents -/

structure CanonicalTypedDocument where
  version : UInt32
  root : TypedValue
  sourceDocuments : SortedMap CapturedDocumentId CapturedSourceIdentity
  includes : List IncludeProvenance
  provenance : SortedMap RichValuePath (List ProvenanceRecord)

namespace CanonicalTypedDocument

def requireSource (document : CanonicalTypedDocument) (location : SourceLocation)
    (unknown exceeds : String) : Except RichConfigError Unit := do
  let source ← require (document.sourceDocuments.get? location.document)
    (.invalidValue unknown)
  reject (source.byteLen.toNat < location.range.stop.toNat) (.invalidValue exceeds)

def validateInclude (document : CanonicalTypedDocument) (edge : IncludeProvenance) :
    Except RichConfigError Unit := do
  document.requireSource edge.source "include provenance references an unknown source document"
    "include provenance range exceeds its captured source bytes"
  let target ← require (document.sourceDocuments.get? edge.target)
    (.invalidValue "include provenance references an unknown target document")
  reject (target.digest ≠ edge.targetDigest)
    (.invalidValue "include provenance target digest does not match its source record")

/-- The sequence before it on its path, and all sequences so far. -/
def validateRecord (document : CanonicalTypedDocument)
    (state : Option UInt64 × List UInt64) (record : ProvenanceRecord) :
    Except RichConfigError (Option UInt64 × List UInt64) := do
  document.requireSource record.location "provenance references an unknown source document"
    "provenance range exceeds its captured source bytes"
  reject (state.1.any (record.sequence ≤ ·) = true)
    (.invalidValue "provenance for one value path is not sequence ordered")
  reject (record.sequence ∈ state.2)
    (.invalidValue "provenance sequence number is duplicated")
  checkRichLimit "provenance evaluation frames" record.frames.length maxRichValueDepth
  return (some record.sequence, record.sequence :: state.2)

def validateRecords (document : CanonicalTypedDocument) (sequences : List UInt64)
    (records : List ProvenanceRecord) : Except RichConfigError (List UInt64) := do
  let state ← records.foldlM document.validateRecord (none, sequences)
  return state.2

def validate (document : CanonicalTypedDocument) : Except RichConfigError Unit := do
  reject (document.version ≠ richConfigIrVersion)
    (.invalidValue "unsupported canonical typed document version")
  reject (document.root.isRecord = false)
    (.typeMismatch "record document root" document.root.kindName)
  document.root.validate
  checkRichLimit "canonical source documents" document.sourceDocuments.entries.length
    maxRichDocuments
  checkRichLimit "canonical include edges" document.includes.length maxRichTotalIncludes
  document.includes.forM document.validateInclude
  let records := document.provenance.entries.map Prod.snd
  checkRichLimit "canonical provenance records" (records.map List.length).sum
    maxRichProvenanceRecords
  let _ ← records.foldlM document.validateRecords []

end CanonicalTypedDocument

end Malm.Config
