/-
Malm.Config.Canonical — the canonical bytes of typed values and documents
(`malm-config/src/rich_canonical.rs`).

The encoder appends to a buffer and refuses to let it grow past the limit of a document.
Lengths are eight bytes, texts are UTF-8 with their length before them.
-/
import Malm.Config.Rich

namespace Malm.Config

open Pack Pack.Object Malm.Tree Bytes

def documentDomain : List UInt8 := utf8 "malm-canonical-typed-document\x00".toList
def valueDomain : List UInt8 := utf8 "malm-canonical-typed-value\x00".toList

/-! ## 1. The encoder -/

abbrev Encoder := StateT (List UInt8) (Except RichConfigError)

namespace Encoder

def raw (value : List UInt8) : Encoder Unit := fun bytes => do
  Checks.reject (maxCanonicalTypedDocumentBytes < bytes.length + value.length)
    (.limitExceeded "canonical typed document bytes" maxCanonicalTypedDocumentBytes
      (bytes.length + value.length))
  return ((), bytes ++ value)

def tag (value : UInt8) : Encoder Unit := raw [value]

def u32 (value : UInt32) : Encoder Unit := raw (bigEndian 4 value.toNat)

def u64 (value : UInt64) : Encoder Unit := raw (bigEndian 8 value.toNat)

def i64 (value : Int64) : Encoder Unit := raw (bigEndian 8 value.toUInt64.toNat)

def len (value : Nat) : Encoder Unit := raw (bigEndian 8 value)

def bytes (value : List UInt8) : Encoder Unit := do
  len value.length
  raw value

def text (value : Text) : Encoder Unit := bytes (utf8 value)

def digest (value : ObjectDigest) : Encoder Unit := text (digestText value.val)

def bool (value : Bool) : Encoder Unit := tag (if value then 1 else 0)

end Encoder

open Encoder

/-! ## 2. Values -/

mutual

def encodeValue : TypedValue → Encoder Unit
  | .null => tag 0
  | .boolean value => do
    tag 1
    bool value
  | .integer value => do
    tag 2
    i64 value
  | .unsigned value => do
    tag 3
    u64 value
  | .float value => do
    tag 4
    u64 value.bits
  | .string value => do
    tag 5
    text value
  | .path value => do
    tag 6
    text value.val
  | .list values => do
    tag 7
    len values.length
    encodeItems values
  | .record values => do
    tag 8
    len values.length
    encodeFields values
  | .collection values => do
    tag 9
    len values.length
    encodeFields values

def encodeItems : List TypedValue → Encoder Unit
  | [] => pure ()
  | first :: rest => do
    encodeValue first
    encodeItems rest

def encodeFields : List (RichKey × TypedValue) → Encoder Unit
  | [] => pure ()
  | (name, first) :: rest => do
    text name.val
    encodeValue first
    encodeFields rest

end

def canonicalValueBytes (value : TypedValue) : Except RichConfigError (List UInt8) := do
  value.validate
  let ((), bytes) ← (do
    raw valueDomain
    encodeValue value : Encoder Unit) []
  return bytes

/-! ## 3. Documents -/

def encodeDocumentId (id : CapturedDocumentId) : Encoder Unit := do
  text id.label.val
  digest id.identity
  text id.path.val

/-- One source document of `canonical_typed_document_bytes_v1`. -/
def encodeSource (entry : CapturedDocumentId × CapturedSourceIdentity) : Encoder Unit := do
  encodeDocumentId entry.1
  digest entry.2.digest
  u64 entry.2.byteLen

def encodeRange (range : SourceRange) : Encoder Unit := do
  u32 range.start
  u32 range.stop

def encodeDependency : Option Alias → Encoder Unit
  | none => tag 0
  | some aliasName => do
    tag 1
    text aliasName

def encodeEdgeKind : CapturedDocumentEdgeKind → Encoder Unit
  | .include => tag 0
  | .module name => do
    tag 1
    text name.val

/-- One include edge of `canonical_typed_document_bytes_v1`. -/
def encodeInclude (edge : IncludeProvenance) : Encoder Unit := do
  encodeDocumentId edge.source.document
  encodeRange edge.source.range
  encodeDocumentId edge.target
  digest edge.targetDigest
  encodeDependency edge.dependency
  encodeEdgeKind edge.kind

def encodePath (path : RichValuePath) : Encoder Unit := do
  len path.segments.length
  path.segments.forM fun segment => text segment.val

def encodeOperation : ProvenanceOperation → Encoder Unit
  | .variableSupplied => tag 0
  | .variableDefault => tag 1
  | .variableOptionalAbsent => tag 2
  | .variableComputed => tag 3
  | .emit => tag 4
  | .patch operation => do
    tag 5
    u32 operation

def encodeFrame : EvaluationFrame → Encoder Unit
  | .fragment name => do
    tag 0
    text name.val
  | .conditional thenBranch => do
    tag 1
    bool thenBranch
  | .loop binding iteration => do
    tag 2
    text binding.val
    u32 iteration

def encodeProvenance (record : ProvenanceRecord) : Encoder Unit := do
  u64 record.sequence
  encodeDocumentId record.location.document
  encodeRange record.location.range
  encodeOperation record.operation
  len record.frames.length
  record.frames.forM encodeFrame

/-- One value path of `canonical_typed_document_bytes_v1`. -/
def encodePathRecords (entry : RichValuePath × List ProvenanceRecord) : Encoder Unit := do
  encodePath entry.1
  len entry.2.length
  entry.2.forM encodeProvenance

def encodeDocument (document : CanonicalTypedDocument) : Encoder Unit := do
  raw documentDomain
  u32 document.version
  encodeValue document.root
  len document.sourceDocuments.entries.length
  document.sourceDocuments.entries.forM encodeSource
  len document.includes.length
  document.includes.forM encodeInclude
  len document.provenance.entries.length
  document.provenance.entries.forM encodePathRecords

def canonicalTypedDocumentBytes (document : CanonicalTypedDocument) :
    Except RichConfigError (List UInt8) := do
  document.validate
  let ((), bytes) ← encodeDocument document []
  return bytes

end Malm.Config
