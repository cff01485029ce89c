/-
Malm.Config.CanonicalTheorems — canonical documents are injective.

The encoder writes the documented format below the size limit
(`encodeDocument_writes`), and every part of it tells where it ends: nested values by
induction (`valueBytes_ends`), the rest by the rules of `Bytes.Unambiguous`.
-/
import Malm.Config.Canonical
import Malm.Lib.Encoding
import Malm.Tree.CodecTheorems

namespace Malm.Config

open Pack Pack.Object Malm.Tree Bytes Encoder Checks List

/-! ## 1. The format of values -/

def textBytes (value : Text) : List UInt8 := withLength (utf8 value)

def digestBytes (value : ObjectDigest) : List UInt8 := textBytes (digestText value.val)

def boolByte (value : Bool) : UInt8 := if value then 1 else 0

mutual

def valueBytes : TypedValue → List UInt8
  | .null => [0]
  | .boolean value => [1, boolByte value]
  | .integer value => 2 :: bigEndian 8 value.toUInt64.toNat
  | .unsigned value => 3 :: bigEndian 8 value.toNat
  | .float value => 4 :: bigEndian 8 value.bits.toNat
  | .string value => 5 :: textBytes value
  | .path value => 6 :: textBytes value.val
  | .list values => 7 :: (bigEndian 8 values.length ++ itemsBytes values)
  | .record values => 8 :: (bigEndian 8 values.length ++ fieldsBytes values)
  | .collection values => 9 :: (bigEndian 8 values.length ++ fieldsBytes values)

def itemsBytes : List TypedValue → List UInt8
  | [] => []
  | first :: rest => valueBytes first ++ itemsBytes rest

def fieldsBytes : List (RichKey × TypedValue) → List UInt8
  | [] => []
  | (name, first) :: rest => textBytes name.val ++ (valueBytes first ++ fieldsBytes rest)

end

theorem valueBytes_ne_nil (value : TypedValue) : valueBytes value ≠ [] := by
  cases value <;> simp [valueBytes]

theorem length_le_itemsBytes (vs : List TypedValue) :
    vs.length ≤ (itemsBytes vs).length := by
  induction vs with
  | nil => simp
  | cons first rest ih =>
    have hfirst := length_pos_iff.2 (valueBytes_ne_nil first)
    simp only [itemsBytes, length_append, length_cons]
    omega

theorem length_le_fieldsBytes (vs : List (RichKey × TypedValue)) :
    vs.length ≤ (fieldsBytes vs).length := by
  induction vs with
  | nil => simp
  | cons first rest ih =>
    have hfirst := length_pos_iff.2 (valueBytes_ne_nil first.2)
    simp only [fieldsBytes, length_append, length_cons]
    omega

theorem text_unambiguous : Unambiguous (256 ^ 8) textBytes := Unambiguous.text (le_refl _)

theorem number_injective : Function.Injective fun value : UInt64 => bigEndian 8 value.toNat := by
  intro left right h
  have hnumbers : bigEndian 8 left.toNat ++ [] = bigEndian 8 right.toNat ++ [] := by
    rw [append_nil, append_nil]
    exact h
  exact UInt64.toNat_inj.1 (Unambiguous.number_ends left.toNat_lt right.toNat_lt hnumbers).1

theorem number_unambiguous :
    Unambiguous (256 ^ 8) fun value : UInt64 => bigEndian 8 value.toNat :=
  Unambiguous.fixed (by decide) (fun value => bigEndian_length 8 value.toNat) number_injective

theorem toUInt64_injective : Function.Injective Int64.toUInt64 := by
  rintro ⟨left⟩ ⟨right⟩ h
  exact congrArg Int64.ofUInt64 h

theorem bits_injective : Function.Injective FiniteFloat.bits := by
  rintro ⟨left, hleft, hsigned⟩ ⟨right, hright, hsigned'⟩ h
  cases h
  rfl

mutual

/-- By induction on the value: its bytes say where they end. -/
theorem valueBytes_ends (value other : TypedValue) {rest rest' : List UInt8}
    (hshort : (valueBytes value).length < 256 ^ 8) (hshort' : (valueBytes other).length < 256 ^ 8)
    (happend : valueBytes value ++ rest = valueBytes other ++ rest') :
    value = other ∧ rest = rest' := by
  cases value with
  | null =>
    cases other with
    | null => simpa [valueBytes] using happend
    | _ => simp [valueBytes] at happend
  | boolean value =>
    cases other with
    | boolean found =>
      cases value <;> cases found <;> simp_all [valueBytes, boolByte]
    | _ => simp [valueBytes] at happend
  | integer value =>
    cases other with
    | integer found =>
      simp only [valueBytes, length_cons] at hshort hshort'
      simp only [valueBytes, cons_append, cons.injEq, true_and] at happend
      obtain ⟨rfl, hrest⟩ := (number_unambiguous.comap toUInt64_injective).ends (by omega) (by omega) happend
      exact ⟨rfl, hrest⟩
    | _ => simp [valueBytes] at happend
  | unsigned value =>
    cases other with
    | unsigned found =>
      simp only [valueBytes, length_cons] at hshort hshort'
      simp only [valueBytes, cons_append, cons.injEq, true_and] at happend
      obtain ⟨rfl, hrest⟩ := number_unambiguous.ends (by omega) (by omega) happend
      exact ⟨rfl, hrest⟩
    | _ => simp [valueBytes] at happend
  | float value =>
    cases other with
    | float found =>
      simp only [valueBytes, length_cons] at hshort hshort'
      simp only [valueBytes, cons_append, cons.injEq, true_and] at happend
      obtain ⟨rfl, hrest⟩ := (number_unambiguous.comap bits_injective).ends (by omega) (by omega) happend
      exact ⟨rfl, hrest⟩
    | _ => simp [valueBytes] at happend
  | string value =>
    cases other with
    | string found =>
      simp only [valueBytes, length_cons] at hshort hshort'
      simp only [valueBytes, cons_append, cons.injEq, true_and] at happend
      obtain ⟨rfl, hrest⟩ := text_unambiguous.ends (by omega) (by omega) happend
      exact ⟨rfl, hrest⟩
    | _ => simp [valueBytes] at happend
  | path value =>
    cases other with
    | path found =>
      simp only [valueBytes, length_cons] at hshort hshort'
      simp only [valueBytes, cons_append, cons.injEq, true_and] at happend
      obtain ⟨hvalue, hrest⟩ := text_unambiguous.ends (by omega) (by omega) happend
      rw [Subtype.ext hvalue]
      exact ⟨rfl, hrest⟩
    | _ => simp [valueBytes] at happend
  | list vs =>
    cases other with
    | list found =>
      simp only [valueBytes, length_cons, length_append] at hshort hshort'
      simp only [valueBytes, cons_append, cons.injEq, true_and, append_assoc] at happend
      have hcount := length_le_itemsBytes vs
      have hcount' := length_le_itemsBytes found
      obtain ⟨hlength, hbehind⟩ := Unambiguous.number_ends (by omega) (by omega) happend
      obtain ⟨rfl, hrest⟩ := itemsBytes_ends vs found hlength (by omega) (by omega) hbehind
      exact ⟨rfl, hrest⟩
    | _ => simp [valueBytes] at happend
  | record vs =>
    cases other with
    | record found =>
      simp only [valueBytes, length_cons, length_append] at hshort hshort'
      simp only [valueBytes, cons_append, cons.injEq, true_and, append_assoc] at happend
      have hcount := length_le_fieldsBytes vs
      have hcount' := length_le_fieldsBytes found
      obtain ⟨hlength, hbehind⟩ := Unambiguous.number_ends (by omega) (by omega) happend
      obtain ⟨rfl, hrest⟩ := fieldsBytes_ends vs found hlength (by omega) (by omega) hbehind
      exact ⟨rfl, hrest⟩
    | _ => simp [valueBytes] at happend
  | collection vs =>
    cases other with
    | collection found =>
      simp only [valueBytes, length_cons, length_append] at hshort hshort'
      simp only [valueBytes, cons_append, cons.injEq, true_and, append_assoc] at happend
      have hcount := length_le_fieldsBytes vs
      have hcount' := length_le_fieldsBytes found
      obtain ⟨hlength, hbehind⟩ := Unambiguous.number_ends (by omega) (by omega) happend
      obtain ⟨rfl, hrest⟩ := fieldsBytes_ends vs found hlength (by omega) (by omega) hbehind
      exact ⟨rfl, hrest⟩
    | _ => simp [valueBytes] at happend

theorem itemsBytes_ends (vs others : List TypedValue) {rest rest' : List UInt8}
    (hlength : vs.length = others.length) (hshort : (itemsBytes vs).length < 256 ^ 8)
    (hshort' : (itemsBytes others).length < 256 ^ 8)
    (happend : itemsBytes vs ++ rest = itemsBytes others ++ rest') :
    vs = others ∧ rest = rest' := by
  cases vs with
  | nil =>
    obtain rfl := length_eq_zero_iff.1 hlength.symm
    exact ⟨rfl, happend⟩
  | cons first vs =>
    cases others with
    | nil => cases hlength
    | cons snd others =>
      simp only [itemsBytes, length_append] at hshort hshort'
      simp only [itemsBytes, append_assoc] at happend
      obtain ⟨rfl, hbehind⟩ := valueBytes_ends first snd (by omega) (by omega) happend
      have hothers : vs.length = others.length := by simpa using hlength
      obtain ⟨rfl, hrest⟩ := itemsBytes_ends vs others hothers (by omega) (by omega) hbehind
      exact ⟨rfl, hrest⟩

theorem fieldsBytes_ends (vs others : List (RichKey × TypedValue)) {rest rest' : List UInt8}
    (hlength : vs.length = others.length) (hshort : (fieldsBytes vs).length < 256 ^ 8)
    (hshort' : (fieldsBytes others).length < 256 ^ 8)
    (happend : fieldsBytes vs ++ rest = fieldsBytes others ++ rest') :
    vs = others ∧ rest = rest' := by
  cases vs with
  | nil =>
    obtain rfl := length_eq_zero_iff.1 hlength.symm
    exact ⟨rfl, happend⟩
  | cons field vs =>
    cases others with
    | nil => cases hlength
    | cons other others =>
      obtain ⟨name, first⟩ := field
      obtain ⟨found, snd⟩ := other
      simp only [fieldsBytes, length_append] at hshort hshort'
      simp only [fieldsBytes, append_assoc] at happend
      obtain ⟨hname, hvalue⟩ := text_unambiguous.ends (by omega) (by omega) happend
      obtain ⟨rfl, hbehind⟩ := valueBytes_ends first snd (by omega) (by omega) hvalue
      have hothers : vs.length = others.length := by simpa using hlength
      obtain ⟨rfl, hrest⟩ := fieldsBytes_ends vs others hothers (by omega) (by omega) hbehind
      rw [Subtype.ext hname]
      exact ⟨rfl, hrest⟩

end

theorem value_unambiguous : Unambiguous (256 ^ 8) valueBytes where
  nonempty := valueBytes_ne_nil
  ends := valueBytes_ends _ _

/-! ## 2. The format of documents -/

def documentIdBytes (id : CapturedDocumentId) : List UInt8 :=
  textBytes id.label.val ++ digestBytes id.identity ++ textBytes id.path.val

def sourceBytes (entry : CapturedDocumentId × CapturedSourceIdentity) : List UInt8 :=
  documentIdBytes entry.1 ++ digestBytes entry.2.digest ++ bigEndian 8 entry.2.byteLen.toNat

def rangeBytes (range : SourceRange) : List UInt8 :=
  bigEndian 4 range.start.toNat ++ bigEndian 4 range.stop.toNat

def dependencyBytes : Option Alias → List UInt8
  | none => [0]
  | some aliasName => 1 :: textBytes aliasName

def edgeKindBytes : CapturedDocumentEdgeKind → List UInt8
  | .include => [0]
  | .module name => 1 :: textBytes name.val

def includeBytes (edge : IncludeProvenance) : List UInt8 :=
  documentIdBytes edge.source.document ++ rangeBytes edge.source.range ++
    documentIdBytes edge.target ++ digestBytes edge.targetDigest ++
    dependencyBytes edge.dependency ++ edgeKindBytes edge.kind

def keyBytes (key : RichKey) : List UInt8 := textBytes key.val

def operationBytes : ProvenanceOperation → List UInt8
  | .variableSupplied => [0]
  | .variableDefault => [1]
  | .variableOptionalAbsent => [2]
  | .variableComputed => [3]
  | .emit => [4]
  | .patch operation => 5 :: bigEndian 4 operation.toNat

def frameBytes : EvaluationFrame → List UInt8
  | .fragment name => 0 :: textBytes name.val
  | .conditional thenBranch => [1, boolByte thenBranch]
  | .loop binding iteration => 2 :: (textBytes binding.val ++ bigEndian 4 iteration.toNat)

def provenanceBytes (record : ProvenanceRecord) : List UInt8 :=
  bigEndian 8 record.sequence.toNat ++ documentIdBytes record.location.document ++
    rangeBytes record.location.range ++ operationBytes record.operation ++
    counted frameBytes record.frames

def pathRecordsBytes (entry : RichValuePath × List ProvenanceRecord) : List UInt8 :=
  counted keyBytes entry.1.segments ++ counted provenanceBytes entry.2

def documentFields (document : CanonicalTypedDocument) : List UInt8 :=
  bigEndian 4 document.version.toNat ++ valueBytes document.root ++
    counted sourceBytes document.sourceDocuments.entries ++
    counted includeBytes document.includes ++
    counted pathRecordsBytes document.provenance.entries

def documentBytes (document : CanonicalTypedDocument) : List UInt8 :=
  documentDomain ++ documentFields document

theorem digestText_injective :
    Function.Injective fun d : ObjectDigest => digestText d.val := by
  intro left right h
  have hleft := digestOf_eq_some.2 (rfl : digestText left.val = digestText left.val)
  have hright := digestOf_eq_some.2 h
  exact Option.some.inj (hleft.symm.trans hright)

theorem digest_unambiguous : Unambiguous (256 ^ 8) digestBytes :=
  text_unambiguous.comap digestText_injective

theorem half_unambiguous : Unambiguous (256 ^ 8) fun value : UInt32 => bigEndian 4 value.toNat := by
  refine Unambiguous.fixed (by decide) (fun value => bigEndian_length 4 value.toNat) ?_
  intro left right h
  have hvalue := congrArg ofBigEndian h
  rw [ofBigEndian_bigEndian left.toNat_lt, ofBigEndian_bigEndian right.toNat_lt] at hvalue
  exact UInt32.toNat_inj.1 hvalue

theorem documentId_unambiguous : Unambiguous (256 ^ 8) documentIdBytes := by
  refine (((text_unambiguous.comap Subtype.val_injective).seq digest_unambiguous).seq
    (text_unambiguous.comap Subtype.val_injective)).comap
      (f := fun id : CapturedDocumentId => ((id.label, id.identity), id.path)) ?_
  rintro ⟨label, ident, path⟩ ⟨other, d, snd⟩ h
  simp_all

theorem source_unambiguous : Unambiguous (256 ^ 8) sourceBytes := by
  refine ((documentId_unambiguous.seq digest_unambiguous).seq number_unambiguous).comap
    (f := fun e : CapturedDocumentId × CapturedSourceIdentity =>
      ((e.1, e.2.digest), e.2.byteLen)) ?_
  rintro ⟨id, d, byteLen, hbound⟩ ⟨other, found, length, hlimit⟩ h
  simp_all

theorem range_unambiguous : Unambiguous (256 ^ 8) rangeBytes := by
  refine (half_unambiguous.seq half_unambiguous).comap
    (f := fun range : SourceRange => (range.start, range.stop)) ?_
  rintro ⟨start, stop, hord⟩ ⟨other, finish, hlimit⟩ h
  simp_all

theorem dependency_unambiguous : Unambiguous (256 ^ 8) dependencyBytes where
  nonempty := by
    intro dep
    cases dep <;> simp [dependencyBytes]
  ends := by
    intro left right rest rest' hleft hright happend
    cases left with
    | none =>
      cases right with
      | none => simpa [dependencyBytes] using happend
      | some found => simp [dependencyBytes] at happend
    | some aliasName =>
      cases right with
      | none => simp [dependencyBytes] at happend
      | some found =>
        simp only [dependencyBytes, length_cons] at hleft hright
        simp only [dependencyBytes, cons_append, cons.injEq, true_and] at happend
        obtain ⟨rfl, hrest⟩ := text_unambiguous.ends (by omega) (by omega) happend
        exact ⟨rfl, hrest⟩

theorem edgeKind_unambiguous : Unambiguous (256 ^ 8) edgeKindBytes := by
  have hbytes : edgeKindBytes = fun kind => dependencyBytes (match kind with
      | .include => none
      | .module name => some name.val) := by
    funext kind
    cases kind <;> rfl
  rw [hbytes]
  refine dependency_unambiguous.comap ?_
  intro left right h
  cases left <;> cases right <;> simp_all [Subtype.ext_iff]

theorem include_unambiguous : Unambiguous (256 ^ 8) includeBytes := by
  refine (((((documentId_unambiguous.seq range_unambiguous).seq documentId_unambiguous).seq
    digest_unambiguous).seq dependency_unambiguous).seq edgeKind_unambiguous).comap
      (f := fun edge : IncludeProvenance =>
        (((((edge.source.document, edge.source.range), edge.target), edge.targetDigest),
          edge.dependency), edge.kind)) ?_
  rintro ⟨⟨doc, range⟩, target, digest, dependency, kind⟩
    ⟨⟨document', range'⟩, target', digest', dependency', kind'⟩ h
  simp_all

theorem key_unambiguous : Unambiguous (256 ^ 8) keyBytes :=
  text_unambiguous.comap Subtype.val_injective

theorem operation_unambiguous : Unambiguous (256 ^ 8) operationBytes where
  nonempty := by
    intro op
    cases op <;> simp [operationBytes]
  ends := by
    intro left right rest rest' hleft hright happend
    cases left with
    | patch op =>
      cases right with
      | patch found =>
        simp only [operationBytes, length_cons] at hleft hright
        simp only [operationBytes, cons_append, cons.injEq, true_and] at happend
        obtain ⟨rfl, hrest⟩ := half_unambiguous.ends (by omega) (by omega) happend
        exact ⟨rfl, hrest⟩
      | _ => simp [operationBytes] at happend
    | _ => cases right <;> simp_all [operationBytes]

theorem frame_unambiguous : Unambiguous (256 ^ 8) frameBytes where
  nonempty := by
    intro frame
    cases frame <;> simp [frameBytes]
  ends := by
    intro left right rest rest' hleft hright happend
    cases left with
    | fragment name =>
      cases right with
      | fragment found =>
        simp only [frameBytes, length_cons] at hleft hright
        simp only [frameBytes, cons_append, cons.injEq, true_and] at happend
        obtain ⟨hname, hrest⟩ := text_unambiguous.ends (by omega) (by omega) happend
        rw [Subtype.ext hname]
        exact ⟨rfl, hrest⟩
      | _ => simp [frameBytes] at happend
    | conditional thenBranch =>
      cases right with
      | conditional found =>
        cases thenBranch <;> cases found <;> simp_all [frameBytes, boolByte]
      | _ => simp [frameBytes] at happend
    | loop binding iteration =>
      cases right with
      | loop found count =>
        simp only [frameBytes, length_cons, length_append] at hleft hright
        simp only [frameBytes, cons_append, cons.injEq, true_and, append_assoc] at happend
        obtain ⟨hname, hcount⟩ := text_unambiguous.ends (by omega) (by omega) happend
        obtain ⟨rfl, hrest⟩ := half_unambiguous.ends (by omega) (by omega) hcount
        rw [Subtype.ext hname]
        exact ⟨rfl, hrest⟩
      | _ => simp [frameBytes] at happend

theorem provenance_unambiguous : Unambiguous (256 ^ 8) provenanceBytes := by
  refine ((((number_unambiguous.seq documentId_unambiguous).seq range_unambiguous).seq
    operation_unambiguous).seq (frame_unambiguous.counted (le_refl _))).comap
      (f := fun rec : ProvenanceRecord =>
        ((((rec.sequence, rec.location.document), rec.location.range),
          rec.operation), rec.frames)) ?_
  rintro ⟨sequence, ⟨doc, range⟩, operation, frames⟩
    ⟨sequence', ⟨document', range'⟩, operation', frames'⟩ h
  simp_all

theorem pathRecords_unambiguous : Unambiguous (256 ^ 8) pathRecordsBytes := by
  refine ((key_unambiguous.counted (le_refl _)).seq
    (provenance_unambiguous.counted (le_refl _))).comap
      (f := fun e : RichValuePath × List ProvenanceRecord => (e.1.segments, e.2)) ?_
  rintro ⟨path, records⟩ ⟨path', records'⟩ h
  obtain ⟨hsegs, hrecords⟩ := Prod.mk.inj h
  exact Prod.ext (RichValuePath.segments_injective hsegs) hrecords

theorem documentFields_unambiguous : Unambiguous (256 ^ 8) documentFields := by
  refine ((((half_unambiguous.seq value_unambiguous).seq
    (source_unambiguous.counted (le_refl _))).seq (include_unambiguous.counted (le_refl _))).seq
      (pathRecords_unambiguous.counted (le_refl _))).comap
        (f := fun doc : CanonicalTypedDocument =>
          ((((doc.version, doc.root), doc.sourceDocuments.entries),
            doc.includes), doc.provenance.entries)) ?_
  rintro ⟨version, root, ⟨sources, hsources⟩, includes, ⟨provenance, hprovenance⟩⟩
    ⟨version', root', ⟨sources', hsources'⟩, includes', ⟨provenance', hprovenance'⟩⟩ h
  simp_all

/-! ## 3. What the encoder writes -/

/-- A run of the encoder appends these bytes, and stays below the limit. -/
def Writes (encoder : Encoder Unit) (value : List UInt8) : Prop :=
  ∀ bytes out : List UInt8, encoder bytes = .ok ((), out) →
    out = bytes ++ value ∧ (bytes.length ≤ maxCanonicalTypedDocumentBytes →
      out.length ≤ maxCanonicalTypedDocumentBytes)

namespace Writes

variable {α : Type} {first snd : Encoder Unit} {value behind : List UInt8}

theorem of_eq (h : Writes first value) (hvalue : value = behind) : Writes first behind :=
  hvalue ▸ h

theorem pure : Writes (pure ()) [] := by
  intro bytes out h
  obtain ⟨-, rfl⟩ := Prod.mk.inj (Except.ok.inj h)
  exact ⟨(append_nil _).symm, id⟩

theorem seq (hfirst : Writes first value) (hsecond : Writes snd behind) :
    Writes (first >>= fun _ => snd) (value ++ behind) := by
  intro bytes out h
  have hrun : (first bytes >>= fun run => snd run.2) = .ok ((), out) := h
  rw [bind_ok] at hrun
  obtain ⟨⟨⟨⟩, middle⟩, hbefore, hafter⟩ := hrun
  obtain ⟨rfl, hmiddle⟩ := hfirst _ _ hbefore
  obtain ⟨rfl, hout⟩ := hsecond _ _ hafter
  exact ⟨append_assoc _ _ _, fun hbytes => hout (hmiddle hbytes)⟩

theorem raw : Writes (raw value) value := by
  intro bytes out h
  simp only [Encoder.raw, bind_ok, exists_unit, reject_ok, pure_ok,
    not_lt, Prod.mk.injEq, true_and] at h
  obtain ⟨hlimit, rfl⟩ := h
  exact ⟨rfl, fun _ => by rw [length_append]; exact hlimit⟩

theorem text {value : Text} : Writes (text value) (textBytes value) := raw.seq raw

theorem digest {value : ObjectDigest} : Writes (digest value) (digestBytes value) := text

theorem forM {encode : α → Encoder Unit} {format : α → List UInt8}
    (h : ∀ a, Writes (encode a) (format a)) (vs : List α) :
    Writes (vs.forM encode) (items format vs) := by
  induction vs with
  | nil => exact pure
  | cons first rest ih => exact (h first).seq ih

theorem counted {encode : α → Encoder Unit} {format : α → List UInt8}
    (h : ∀ a, Writes (encode a) (format a)) (vs : List α) :
    Writes (do
      len vs.length
      vs.forM encode) (counted format vs) :=
  raw.seq (forM h vs)

end Writes

mutual

theorem encodeValue_writes (value : TypedValue) : Writes (encodeValue value) (valueBytes value) := by
  cases value with
  | null => exact Writes.raw
  | boolean value => exact Writes.raw.seq Writes.raw
  | integer value => exact Writes.raw.seq Writes.raw
  | unsigned value => exact Writes.raw.seq Writes.raw
  | float value => exact Writes.raw.seq Writes.raw
  | string value => exact Writes.raw.seq Writes.text
  | path value => exact Writes.raw.seq Writes.text
  | list vs => exact Writes.raw.seq (Writes.raw.seq (encodeItems_writes vs))
  | record vs => exact Writes.raw.seq (Writes.raw.seq (encodeFields_writes vs))
  | collection vs => exact Writes.raw.seq (Writes.raw.seq (encodeFields_writes vs))

theorem encodeItems_writes (vs : List TypedValue) :
    Writes (encodeItems vs) (itemsBytes vs) := by
  cases vs with
  | nil => exact Writes.pure
  | cons first rest => exact (encodeValue_writes first).seq (encodeItems_writes rest)

theorem encodeFields_writes (vs : List (RichKey × TypedValue)) :
    Writes (encodeFields vs) (fieldsBytes vs) := by
  cases vs with
  | nil => exact Writes.pure
  | cons field rest =>
    obtain ⟨name, first⟩ := field
    exact Writes.text.seq ((encodeValue_writes first).seq (encodeFields_writes rest))

end

theorem encodeDocumentId_writes (id : CapturedDocumentId) :
    Writes (encodeDocumentId id) (documentIdBytes id) :=
  (Writes.text.seq (Writes.digest.seq Writes.text)).of_eq (append_assoc _ _ _).symm

theorem encodeSource_writes (e : CapturedDocumentId × CapturedSourceIdentity) :
    Writes (encodeSource e) (sourceBytes e) :=
  ((encodeDocumentId_writes e.1).seq (Writes.digest.seq Writes.raw)).of_eq
    (append_assoc _ _ _).symm

theorem encodeRange_writes (range : SourceRange) : Writes (encodeRange range) (rangeBytes range) :=
  Writes.raw.seq Writes.raw

theorem encodeDependency_writes (dep : Option Alias) :
    Writes (encodeDependency dep) (dependencyBytes dep) := by
  cases dep with
  | none => exact Writes.raw
  | some aliasName => exact Writes.raw.seq Writes.text

theorem encodeEdgeKind_writes (kind : CapturedDocumentEdgeKind) :
    Writes (encodeEdgeKind kind) (edgeKindBytes kind) := by
  cases kind with
  | «include» => exact Writes.raw
  | «module» name => exact Writes.raw.seq Writes.text

theorem encodeInclude_writes (edge : IncludeProvenance) :
    Writes (encodeInclude edge) (includeBytes edge) := by
  have hdigest : Writes (digest edge.targetDigest) (digestBytes edge.targetDigest) :=
    Writes.digest
  have hparts := (encodeDocumentId_writes edge.source.document).seq
    ((encodeRange_writes edge.source.range).seq ((encodeDocumentId_writes edge.target).seq
      (hdigest.seq
        ((encodeDependency_writes edge.dependency).seq (encodeEdgeKind_writes edge.kind)))))
  exact hparts.of_eq (by simp only [includeBytes, append_assoc])

theorem encodePath_writes (path : RichValuePath) :
    Writes (encodePath path) (counted keyBytes path.segments) :=
  Writes.counted (fun _ => Writes.text) path.segments

theorem encodeOperation_writes (op : ProvenanceOperation) :
    Writes (encodeOperation op) (operationBytes op) := by
  cases op with
  | patch op => exact Writes.raw.seq Writes.raw
  | _ => exact Writes.raw

theorem encodeFrame_writes (frame : EvaluationFrame) :
    Writes (encodeFrame frame) (frameBytes frame) := by
  cases frame with
  | fragment name => exact Writes.raw.seq Writes.text
  | conditional thenBranch => exact Writes.raw.seq Writes.raw
  | loop binding iteration => exact Writes.raw.seq (Writes.text.seq Writes.raw)

theorem encodeProvenance_writes (rec : ProvenanceRecord) :
    Writes (encodeProvenance rec) (provenanceBytes rec) := by
  have hsequence : Writes (u64 rec.sequence) (bigEndian 8 rec.sequence.toNat) := Writes.raw
  have hparts := hsequence.seq
    ((encodeDocumentId_writes rec.location.document).seq
      ((encodeRange_writes rec.location.range).seq
        ((encodeOperation_writes rec.operation).seq
          (Writes.counted encodeFrame_writes rec.frames))))
  exact hparts.of_eq (by simp only [provenanceBytes, append_assoc])

theorem encodePathRecords_writes (e : RichValuePath × List ProvenanceRecord) :
    Writes (encodePathRecords e) (pathRecordsBytes e) :=
  (encodePath_writes e.1).seq (Writes.counted encodeProvenance_writes e.2)

theorem encodeDocument_writes (doc : CanonicalTypedDocument) :
    Writes (encodeDocument doc) (documentBytes doc) := by
  have hlen : ∀ count : Nat, Writes (len count) (bigEndian 8 count) := fun _ => Writes.raw
  have hver : Writes (u32 doc.version) (bigEndian 4 doc.version.toNat) := Writes.raw
  have hdomain : Writes (raw documentDomain) documentDomain := Writes.raw
  have hpaths := (hlen doc.provenance.entries.length).seq
    (Writes.forM encodePathRecords_writes doc.provenance.entries)
  have hincludes := (hlen doc.includes.length).seq
    ((Writes.forM encodeInclude_writes doc.includes).seq hpaths)
  have hsources := (hlen doc.sourceDocuments.entries.length).seq
    ((Writes.forM encodeSource_writes doc.sourceDocuments.entries).seq hincludes)
  have hdocument := hdomain.seq (hver.seq ((encodeValue_writes doc.root).seq hsources))
  refine Writes.of_eq hdocument ?_
  simp only [documentBytes, documentFields, counted, append_assoc]

/-! ## 4. Injectivity -/

theorem canonicalTypedDocumentBytes_ok {doc : CanonicalTypedDocument} {bytes : List UInt8}
    (h : canonicalTypedDocumentBytes doc = .ok bytes) :
    bytes = documentBytes doc ∧ bytes.length ≤ maxCanonicalTypedDocumentBytes := by
  simp only [canonicalTypedDocumentBytes, bind_ok, exists_unit, pure_ok] at h
  obtain ⟨-, ⟨⟨⟩, out⟩, hrun, rfl⟩ := h
  obtain ⟨hout, hlength⟩ := encodeDocument_writes doc _ _ hrun
  exact ⟨hout, hlength (Nat.zero_le _)⟩

theorem canonicalValueBytes_ok {value : TypedValue} {bytes : List UInt8}
    (h : canonicalValueBytes value = .ok bytes) :
    bytes = valueDomain ++ valueBytes value ∧ bytes.length ≤ maxCanonicalTypedDocumentBytes := by
  simp only [canonicalValueBytes, bind_ok, exists_unit, pure_ok] at h
  obtain ⟨-, ⟨⟨⟩, out⟩, hrun, rfl⟩ := h
  obtain ⟨hout, hlength⟩ := (Writes.raw.seq (encodeValue_writes value)) _ _ hrun
  exact ⟨hout, hlength (Nat.zero_le _)⟩

theorem documents_eq {left right : CanonicalTypedDocument} {bytes : List UInt8}
    (hleft : canonicalTypedDocumentBytes left = .ok bytes)
    (hright : canonicalTypedDocumentBytes right = .ok bytes) : left = right := by
  have hlimit : maxCanonicalTypedDocumentBytes < 256 ^ 8 := by decide
  obtain ⟨hbytes, hlength⟩ := canonicalTypedDocumentBytes_ok hleft
  obtain ⟨hbytes', -⟩ := canonicalTypedDocumentBytes_ok hright
  have hfields : documentFields left = documentFields right :=
    append_cancel_left (hbytes.symm.trans hbytes')
  have hshort : (documentFields left).length < 256 ^ 8 := by
    rw [hbytes, documentBytes, length_append] at hlength
    omega
  exact documentFields_unambiguous.of_isPrefix hshort (hfields ▸ hshort)
    (hfields ▸ prefix_refl _)

theorem domains_apart (fields payload : List UInt8) :
    documentDomain ++ fields ≠ valueDomain ++ payload := by
  intro h
  have hfront := congrArg (List.take 22) h
  rw [take_append_of_le_length (by decide), take_append_of_le_length (by decide)] at hfront
  exact absurd hfront (by decide)

/-- **Canonical documents are injective.** No encoding of a value is a proper prefix of another
one's, and no document is encoded like a value. -/
theorem canonical_documents_injective :
    (∀ (left right : CanonicalTypedDocument) (bytes : List UInt8),
        canonicalTypedDocumentBytes left = .ok bytes →
          canonicalTypedDocumentBytes right = .ok bytes → left = right) ∧
      (∀ (left right : TypedValue) (bytes bytes' : List UInt8),
        canonicalValueBytes left = .ok bytes → canonicalValueBytes right = .ok bytes' →
          bytes <+: bytes' → left = right) ∧
      (∀ (left right : TypedValue) (bytes bytes' : List UInt8),
        encodeValue left [] = .ok ((), bytes) → encodeValue right [] = .ok ((), bytes') →
          bytes <+: bytes' → left = right) ∧
      ∀ (document : CanonicalTypedDocument) (value : TypedValue) (bytes : List UInt8),
        canonicalTypedDocumentBytes document = .ok bytes →
          canonicalValueBytes value ≠ .ok bytes := by
  have hlimit : maxCanonicalTypedDocumentBytes < 256 ^ 8 := by decide
  refine ⟨?_, ?_, ?_, ?_⟩
  · intro left right bytes hleft hright
    exact documents_eq hleft hright
  · intro left right bytes bytes' hleft hright hprefix
    obtain ⟨rfl, hlength⟩ := canonicalValueBytes_ok hleft
    obtain ⟨rfl, hlength'⟩ := canonicalValueBytes_ok hright
    rw [length_append] at hlength hlength'
    exact value_unambiguous.of_isPrefix (by omega) (by omega)
      ((prefix_append_right_inj _).1 hprefix)
  · intro left right bytes bytes' hleft hright hprefix
    obtain ⟨rfl, hlength⟩ := encodeValue_writes left _ _ hleft
    obtain ⟨rfl, hlength'⟩ := encodeValue_writes right _ _ hright
    have hshort := hlength (Nat.zero_le _)
    have hshort' := hlength' (Nat.zero_le _)
    rw [nil_append] at hprefix hshort hshort'
    exact value_unambiguous.of_isPrefix (by omega) (by omega) hprefix
  · intro document value bytes hdocument hvalue
    obtain ⟨hbytes, -⟩ := canonicalTypedDocumentBytes_ok hdocument
    obtain ⟨hbytes', -⟩ := canonicalValueBytes_ok hvalue
    exact domains_apart _ _ (hbytes.symm.trans hbytes')

end Malm.Config
