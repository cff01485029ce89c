/-
Malm.Store.RoundTripTheorems — which prepared records decode again.

A record comes from its constructor and a run of `with_…` steps (`Extended`), each of which
keeps what decoding asks for (`Stable`). Decoding sets the extensions again in an order of
its own and measures the record after each, so a record that fits decodes exactly when the
records in between fit too (`roundTrip_iff`).
-/
import Malm.Store.DecodeTheorems
import Malm.Tree.CodecTheorems

namespace Malm.Store

open Bytes Checks List PreparedDocument TransformProvenance Text

/-! ## 1. Records from the constructor and its extensions -/

section Records

variable (codec : DocumentCodec)

/-- The records that the constructor and successful `with_…` steps make. -/
inductive Extended : PreparedDocument → Prop
  | built {parts record : PreparedDocument} {desiredSnapshot : DesiredSnapshot}
      (built : parts.tryFrom codec desiredSnapshot = .ok record) : Extended record
  | withTransition {record next : PreparedDocument} {transition : PreparedTransition}
      (before : Extended record) (step : record.withTransition codec transition = .ok next) :
      Extended next
  | withLifecycleState {record next : PreparedDocument} {lifecycle : LifecycleState}
      (before : Extended record) (step : record.withLifecycleState codec lifecycle = .ok next) :
      Extended next
  | withRestorePoint {record next : PreparedDocument} {restorePoint : Option RestorePoint}
      (before : Extended record) (step : record.withRestorePoint codec restorePoint = .ok next) :
      Extended next
  | withRetentionAuthority {record next : PreparedDocument} {retention : RetentionAuthority}
      (before : Extended record)
      (step : record.withRetentionAuthority codec retention = .ok next) : Extended next
  | withTrackedRoot {record next : PreparedDocument} {trackedRoot : Option TrackedRoot}
      (before : Extended record) (step : record.withTrackedRoot codec trackedRoot = .ok next) :
      Extended next

def PreparedDocument.base (record : PreparedDocument) : PreparedDocument :=
  { record with
    transition := .reconcile, lifecycle := .enabled, restorePoint := none
    retention := .default, trackedRoot := none }

/-- The encoding of a record is within the limit. -/
def PreparedDocument.Fits (record : PreparedDocument) : Prop :=
  (codec.encode record).length ≤ maxPreparedRecordBytes

/-- The records that decoding passes through on the way to this one fit. -/
structure RebuildFits (record : PreparedDocument) : Prop where
  transition : { record.base with transition := record.transition }.Fits codec
  lifecycle : { record.base with
    transition := record.transition, lifecycle := record.lifecycle }.Fits codec
  restorePoint : { record.base with
    transition := record.transition, lifecycle := record.lifecycle
    restorePoint := record.restorePoint }.Fits codec
  retention : { record with trackedRoot := none }.Fits codec

/-- What every step keeps of a record. -/
structure Stable (record : PreparedDocument) : Prop where
  base : record.tryFrom codec record.desiredSnapshot = .ok record.base
  digest : codec.desiredSnapshotDigest record.namespaceName record.desiredSnapshot =
    record.desiredSnapshotDigest
  version : record.schemaVersion = preparedRecordSchemaVersion
  restorePoint : ∀ point, record.restorePoint = some point →
    validateRestorePoint point (some record.namespaceName) = .ok ()
  retention : validateRetentionAuthority record.retention (some record.namespaceName) = .ok ()
  trackedRoot : ∀ root, record.trackedRoot = some root → validateTrackedRoot root = .ok ()
  fits : record.Fits codec

end Records

/-! ## 2. The constructor on the parts of its own record -/

theorem sortInputs_sortInputs (inputs : List PreparedInput) :
    sortInputs (sortInputs inputs) = sortInputs inputs :=
  (pairwise_insertionSort (fun left right : PreparedInput => left.key ≤ right.key)
    inputs).insertionSort_eq

theorem sortArtifacts_sortArtifacts (artifacts : List PreparedArtifact) :
    sortArtifacts (sortArtifacts artifacts) = sortArtifacts artifacts :=
  (pairwise_insertionSort (fun left right : PreparedArtifact => left.id ≤ right.id)
    artifacts).insertionSort_eq

theorem sortTransforms_sortTransforms (transforms : List TransformProvenance) :
    sortTransforms (sortTransforms transforms) = sortTransforms transforms :=
  (pairwise_insertionSort
    (fun left right : TransformProvenance => left.requestDigest ≤ right.requestDigest)
    transforms).insertionSort_eq

theorem sortFindings_sortFindings (findings : List PolicyFinding) :
    sortFindings (sortFindings findings) = sortFindings findings :=
  (pairwise_insertionSort (fun left right : PolicyFinding => left.id ≤ right.id)
    findings).insertionSort_eq

variable {codec : DocumentCodec} {record next : PreparedDocument}

section Constructor

variable {parts : PreparedDocument} {desiredSnapshot : DesiredSnapshot}

theorem validateEncodedSize_ok :
    record.validateEncodedSize codec = .ok () ↔ record.Fits codec := by
  simp only [PreparedDocument.validateEncodedSize, PreparedDocument.Fits, reject_ok, not_lt]

theorem tryFrom_stable (h : parts.tryFrom codec desiredSnapshot = .ok record) :
    Stable codec record := by
  simp only [tryFrom, bind_ok, exists_unit, pure_ok, forM_ok, reject_ok, checkLimit_ok,
    rejectDuplicates_ok, validateEncodedSize_ok, not_lt] at h
  obtain ⟨hinputs, hartifacts, htransforms, hfindings, hops, hsnap, hvalid, hinputKeys,
    hartifactIds, hrequests, hfindingIds, hdestinations, hprefixes, bytes, hbytes, htotal,
    hsemantics, hfits, rfl⟩ := h
  have hinputPerm : (sortInputs parts.inputs).Perm parts.inputs := perm_insertionSort _ _
  have hartifactPerm : (sortArtifacts parts.artifacts).Perm parts.artifacts :=
    perm_insertionSort _ _
  have htransformPerm : (sortTransforms parts.transforms).Perm parts.transforms :=
    perm_insertionSort _ _
  have hfindingPerm : (sortFindings parts.findings).Perm parts.findings :=
    perm_insertionSort _ _
  refine ⟨?_, rfl, rfl, ?_, ?_, ?_, hfits⟩
  · simp only [tryFrom, bind_ok, exists_unit, pure_ok,
      forM_ok, reject_ok, checkLimit_ok, rejectDuplicates_ok, validateEncodedSize_ok,
      not_lt, sortInputs_sortInputs, sortArtifacts_sortArtifacts, sortTransforms_sortTransforms,
      sortFindings_sortFindings, hinputPerm.length_eq, hartifactPerm.length_eq,
      htransformPerm.length_eq, hfindingPerm.length_eq]
    refine ⟨hinputs, hartifacts, htransforms, hfindings, hops, hsnap, ?_, ?_, ?_, ?_,
      hfindingIds, hdestinations, hprefixes, bytes, hbytes, htotal, hsemantics, hfits, rfl⟩
    · intro transform htransform
      exact hvalid transform (htransformPerm.mem_iff.1 htransform)
    · exact (hinputPerm.map PreparedInput.key).nodup_iff.2 hinputKeys
    · exact (hartifactPerm.map PreparedArtifact.id).nodup_iff.2 hartifactIds
    · exact (htransformPerm.map requestDigest).nodup_iff.2 hrequests
  · intro point hpoint
    cases hpoint
  · rfl
  · intro root hroot
    cases hroot

end Constructor

/-! ## 3. The extensions -/

section Extensions

section

variable (h : Stable codec record)
include h

theorem withTransition_stable {tr : PreparedTransition}
    (hstep : record.withTransition codec tr = .ok next) : Stable codec next := by
  simp only [withTransition, bind_ok, exists_unit, pure_ok, validateEncodedSize_ok] at hstep
  obtain ⟨hfits, rfl⟩ := hstep
  exact ⟨h.base, h.digest, h.version, h.restorePoint, h.retention, h.trackedRoot, hfits⟩

theorem withLifecycleState_stable {lifecycle : LifecycleState}
    (hstep : record.withLifecycleState codec lifecycle = .ok next) : Stable codec next := by
  simp only [withLifecycleState, bind_ok, exists_unit, pure_ok, validateEncodedSize_ok] at hstep
  obtain ⟨hfits, rfl⟩ := hstep
  exact ⟨h.base, h.digest, h.version, h.restorePoint, h.retention, h.trackedRoot, hfits⟩

theorem withRestorePoint_stable {restorePoint : Option RestorePoint}
    (hstep : record.withRestorePoint codec restorePoint = .ok next) : Stable codec next := by
  simp only [withRestorePoint, bind_ok, exists_unit,
    pure_ok, whenSome_ok, validateEncodedSize_ok] at hstep
  obtain ⟨hpoint, hfits, rfl⟩ := hstep
  exact ⟨h.base, h.digest, h.version, hpoint, h.retention, h.trackedRoot, hfits⟩

theorem withRetentionAuthority_stable {retention : RetentionAuthority}
    (hstep : record.withRetentionAuthority codec retention = .ok next) : Stable codec next := by
  simp only [withRetentionAuthority, bind_ok, exists_unit, pure_ok, validateEncodedSize_ok] at hstep
  obtain ⟨hret, hfits, rfl⟩ := hstep
  exact ⟨h.base, h.digest, h.version, h.restorePoint, hret, h.trackedRoot, hfits⟩

theorem withTrackedRoot_stable {trackedRoot : Option TrackedRoot}
    (hstep : record.withTrackedRoot codec trackedRoot = .ok next) : Stable codec next := by
  simp only [withTrackedRoot, bind_ok, exists_unit,
    pure_ok, whenSome_ok, validateEncodedSize_ok] at hstep
  obtain ⟨hroot, hfits, rfl⟩ := hstep
  exact ⟨h.base, h.digest, h.version, h.restorePoint, h.retention, hroot, hfits⟩

end

theorem Extended.stable (h : Extended codec record) : Stable codec record := by
  induction h with
  | built built => exact tryFrom_stable built
  | withTransition _ step ih => exact withTransition_stable ih step
  | withLifecycleState _ step ih => exact withLifecycleState_stable ih step
  | withRestorePoint _ step ih => exact withRestorePoint_stable ih step
  | withRetentionAuthority _ step ih => exact withRetentionAuthority_stable ih step
  | withTrackedRoot _ step ih => exact withTrackedRoot_stable ih step

end Extensions

/-! ## 4. Decoding a stable record -/

theorem rebuildTrackedRoot_of_valid {trackedRoot : TrackedRoot}
    (h : validateTrackedRoot trackedRoot = .ok ()) :
    rebuildTrackedRoot trackedRoot = .ok trackedRoot := by
  have hvalid := h
  simp only [validateTrackedRoot, bind_ok, exists_unit, reject_ok, checkLimit_ok, not_not] at h
  obtain ⟨hver, hcount, hgrants, -, hchain⟩ := h
  have hord := pairwise_map.1 hchain.pairwise
  have hsorted : trackedRoot.acquisitionGrants.insertionSort
      (fun left right => left.key ≤ right.key) = trackedRoot.acquisitionGrants :=
    (hord.imp fun hless => le_of_lt hless).insertionSort_eq
  have hnodup : trackedRoot.acquisitionGrants.Nodup := by
    refine hord.imp ?_
    rintro left right hless rfl
    exact lt_irrefl _ hless
  simp only [rebuildTrackedRoot, hsorted, bind_ok, exists_unit, reject_ok,
    checkLimit_ok, rejectDuplicates_ok, pure_ok, not_not]
  exact ⟨hver, hcount, hgrants, hnodup, hvalid, trivial⟩

theorem rebuildTrackedRoots_of_valid {trackedRoot : Option TrackedRoot}
    (h : ∀ root, trackedRoot = some root → validateTrackedRoot root = .ok ()) :
    rebuildTrackedRoots trackedRoot = .ok trackedRoot := by
  cases trackedRoot with
  | none => rfl
  | some root => rw [rebuildTrackedRoots, rebuildTrackedRoot_of_valid (h root rfl), ok_bind,
      pure_eq]

section Decoding

theorem Stable.snapshot (h : Stable codec record) :
    DesiredSnapshot.new record.desiredSnapshot.targets = .ok record.desiredSnapshot := by
  have hbase := h.base
  simp only [tryFrom, asDesiredSnapshot, bind_ok, exists_unit, mapError_ok] at hbase
  obtain ⟨-, -, -, -, -, hvalid, -⟩ := hbase
  rw [DesiredSnapshot.new_ok]
  have htargets := validateStateTargets_ok.1 hvalid
  rw [htargets.ordered.sortTargets_eq]
  exact ⟨htargets, rfl⟩

theorem Stable.rebuild_iff (h : Stable codec record) :
    record.rebuild codec = .ok record ↔ RebuildFits codec record := by
  have hsnap : asDesiredSnapshot (DesiredSnapshot.new record.desiredSnapshot.targets) =
      .ok record.desiredSnapshot := by
    rw [asDesiredSnapshot, h.snapshot]
    rfl
  simp only [rebuild, rebuildTrackedRoots_of_valid h.trackedRoot, ok_bind, hsnap, h.base,
    withTransition, withLifecycleState, withRestorePoint, withRetentionAuthority, withTrackedRoot,
    bind_ok, exists_unit, pure_ok, whenSome_ok, reject_ok, validateEncodedSize_ok, not_not]
  constructor
  · rintro ⟨-, _, ⟨htrans, rfl⟩, _, ⟨hlifecycle, rfl⟩, _, ⟨-, hpoint, rfl⟩, _,
      ⟨-, hret, rfl⟩, -, -, -⟩
    exact ⟨htrans, hlifecycle, hpoint, hret⟩
  · rintro ⟨htrans, hlifecycle, hpoint, hret⟩
    exact ⟨h.digest, _, ⟨htrans, rfl⟩, _, ⟨hlifecycle, rfl⟩, _,
      ⟨h.restorePoint, hpoint, rfl⟩, _, ⟨h.retention, hret, rfl⟩, h.trackedRoot, h.fits, rfl⟩

theorem Stable.decoded_iff (h : Stable codec record)
    (hrule : record.transition.isNamespaceRemoval = true ∨
      validateSelectedRestoreAuthority record.lifecycle record.restorePoint record.retention =
        .ok ()) (hjson : codec.parse (codec.encode record) = some record) :
    decodePreparedRecord codec (PreparedId.fromDigest (codec.sha256 (codec.encode record)))
        (codec.encode record) = .ok record ↔
      RebuildFits codec record := by
  have hsel : Checks.when (¬ record.transition.isNamespaceRemoval = true)
      (validateSelectedRestoreAuthority record.lifecycle record.restorePoint record.retention) =
        .ok () := by
    rw [when_ok]
    intro hnot
    exact hrule.resolve_left hnot
  rw [← h.rebuild_iff]
  simp only [decodePreparedRecord, PreparedDocument.validateDecoded, bind_ok,
    exists_unit, pure_ok, require_ok, reject_ok, mapError_ok,
    not_lt, not_not, hjson, Option.some.injEq, exists_eq_left', hsel, true_and]
  constructor
  · rintro ⟨-, -, ⟨rebuilt, hrebuild, heq⟩, -⟩
    rw [hrebuild, heq]
  · intro hrebuild
    exact ⟨h.fits, h.version, ⟨record, hrebuild, rfl⟩, trivial⟩

/-- **When a prepared record decodes again**: exactly when the records that decoding passes
through fit. -/
theorem roundTrip_iff (hrecord : Extended codec record)
    (hrule : record.transition.isNamespaceRemoval = true ∨
      validateSelectedRestoreAuthority record.lifecycle record.restorePoint record.retention =
        .ok ()) (hjson : codec.parse (codec.encode record) = some record) :
    decodePreparedRecord codec (PreparedId.fromDigest (codec.sha256 (codec.encode record)))
        (codec.encode record) = .ok record ↔
      RebuildFits codec record :=
  hrecord.stable.decoded_iff hrule hjson

theorem decoded_extended {expected : PreparedId} {bytes : List UInt8}
    (h : decodePreparedRecord codec expected bytes = .ok record) :
    Extended codec record := by
  simp only [decodePreparedRecord, PreparedDocument.validateDecoded, bind_ok, exists_unit, pure_ok,
    require_ok, reject_ok, mapError_ok, not_not] at h
  obtain ⟨-, found, hparse, -, -, -, ⟨rebuilt, hrebuild, -, rfl⟩, rfl⟩ := h
  simp only [rebuild, bind_ok, exists_unit] at hrebuild
  obtain ⟨root, -, -, snap, -, built, hbuilt, first, hfirst, snd, hsecond, third, hthird,
    fourth, hfourth, hlast⟩ := hrebuild
  exact .withTrackedRoot (.withRetentionAuthority (.withRestorePoint (.withLifecycleState
    (.withTransition (.built hbuilt) hfirst) hsecond) hthird) hfourth) hlast

end Decoding

/-- A record that places a file decodes, and what decoding passes through fits. -/
theorem roundTrip_iff_sample :
    decodePreparedRecord sampleDocumentCodec placingId
        (sampleDocumentCodec.encode placingDocument) = .ok placingDocument ∧
      RebuildFits sampleDocumentCodec placingDocument := by
  have hencode : sampleDocumentCodec.encode placingDocument = placingJson := by
    simp only [sampleDocumentCodec, ↓reduceIte]
  have hjson : sampleDocumentCodec.parse placingJson = some placingDocument := by
    simp only [sampleDocumentCodec, ↓reduceIte]
  have hsha : PreparedId.fromDigest (sampleDocumentCodec.sha256 placingJson) = placingId := by
    simp only [sampleDocumentCodec, ↓reduceIte]
    rfl
  have hiff := roundTrip_iff (decoded_extended placing_decoded) (.inr rfl) (hencode ▸ hjson)
  rw [hencode, hsha] at hiff
  rw [hencode]
  exact ⟨placing_decoded, hiff.1 placing_decoded⟩

theorem minimal_built (codec : DocumentCodec) (transforms : List TransformProvenance)
    (hcount : transforms.length ≤ maxTransformProvenance)
    (hvalid : ∀ transform ∈ transforms, transform.validate = .ok ())
    (hord : (transforms.map requestDigest).Pairwise (· < ·))
    (happroval : policyApprovalDigest codec.sha256 [] = (minimalDocument []).approvalDigest)
    (hsnap : codec.desiredSnapshotDigest (minimalDocument []).namespaceName .empty =
      (minimalDocument []).desiredSnapshotDigest)
    (hfits : { minimalDocument [] with transforms := transforms }.Fits codec) :
    { minimalDocument [] with transforms := transforms }.tryFrom codec .empty =
      .ok { minimalDocument [] with transforms := transforms } := by
  have hsort : sortTransforms transforms = transforms :=
    ((pairwise_map.1 hord).imp fun hless => le_of_lt hless).insertionSort_eq
  have hbuilt : ({ minimalDocument [] with
      transforms := transforms
      approvalDigest := policyApprovalDigest codec.sha256 []
      desiredSnapshotDigest :=
        codec.desiredSnapshotDigest (minimalDocument []).namespaceName .empty } :
      PreparedDocument) = { minimalDocument [] with transforms := transforms } := by
    rw [happroval, hsnap]
  simp only [tryFrom, bind_ok, exists_unit, pure_ok, forM_ok, reject_ok, checkLimit_ok,
    rejectDuplicates_ok, validateEncodedSize_ok, not_lt, hsort]
  refine ⟨by decide, by decide, hcount, by decide, by decide, rfl, hvalid, nodup_nil,
    nodup_nil, hord.imp ne_of_lt, nodup_nil, nodup_nil, rfl, 0, rfl, by decide,
    ?_, ?_, ?_⟩
  · intro op hop
    cases hop
  · exact (congrArg (PreparedDocument.Fits codec) hbuilt).mpr hfits
  · exact hbuilt

theorem byteLen_digestText (v : Nat) (h : v < 16 ^ 64) :
    (Pack.digestText ⟨v⟩).byteLen = 71 :=
  (utf8_length _).symm.trans (Tree.utf8_digestText_length ⟨⟨v⟩, h⟩)

/-! ## 5. A record that does not decode -/

@[irreducible] def fillerNote : Text := List.replicate 14964 'n'

@[irreducible] def fillerNotes : List Text := List.replicate 40 fillerNote

def fillerDiagnostic : TransformDiagnostic :=
  ⟨.info, "filler".toList, "diagnostic of filler".toList, none, fillerNotes⟩

/-- A transform whose diagnostic carries 40 long notes. -/
def fillerTransform (request : Nat) : TransformProvenance where
  name := "filler".toList
  implementation := .builtIn "filler".toList
  requestDigest := ⟨request⟩
  documentDigest := ⟨0⟩
  resources := []
  responseDigest := ⟨0⟩
  diagnostics := [fillerDiagnostic]

/-- The minimal record with 28 such transforms. -/
def fillerDocument : PreparedDocument :=
  { minimalDocument [] with transforms := (List.range 28).map fillerTransform }

/-- The same record after it changed the retention authority. -/
def fillerRetention : PreparedDocument := { fillerDocument with retention := ⟨1, [], []⟩ }

/-- And after it says so. -/
def fillerTransition : PreparedDocument :=
  { fillerRetention with transition := .retentionAuthority }

/-- The first record that decoding measures. -/
def fillerBetween : PreparedDocument := { fillerDocument with transition := .retentionAuthority }

def commaSeparated : List Text → Text
  | [] => []
  | first :: rest => first ++ rest.flatMap fun item => ',' :: item

def quoted (text : Text) : Text := '"' :: (text ++ ['"'])

def fillerTransformJson (transform : TransformProvenance) : Text :=
  json ["<'name':'filler','implementation':<'kind':'built-in',",
    "'implementation':'filler'>,'request_digest':'"] ++ Pack.digestText transform.requestDigest ++
    json ["','document_digest':'#','resources':[],", "'response_digest':'#','diagnostics':[",
      "<'severity':'info','code':'filler',", "'message':'diagnostic of filler',",
      "'primary':null,'notes':["] ++
    commaSeparated ((transform.diagnostics.flatMap TransformDiagnostic.notes).map quoted) ++
    json ["]>]>"]

def fillerTransitionName : PreparedTransition → Text
  | .reconcile => "reconcile".toList
  | .retentionAuthority => "retention-authority".toList
  | _ => []

/-- The JSON of these records, which differ in transition, history and transforms only. -/
def fillerJson (record : PreparedDocument) : Text :=
  recordText "null".toList (fillerTransitionName record.transition)
    (Nat.repr record.retention.history).toList [] []
    (commaSeparated (record.transforms.map fillerTransformJson)) [] [] emptySnapshotDigest

/-- SHA-256 and the JSON library on these records. -/
def fillerCodec : DocumentCodec where
  sha256 := fun bytes =>
    if bytes = utf8 "malm-plan-approval-v1\x00".toList then
      ⟨0x15e7deac2e6e896d8a14fc2583e7323dc27d6c8f130a290d1965864558b15524⟩
    else
      ⟨0x9a1ba25f21a38355475b1a986e92b8c2ff819d68bd27cdfd0fd9e6cfadf78923⟩
  encode := fun record => utf8 (fillerJson record)
  parse := fun bytes =>
    if bytes = utf8 (fillerJson fillerTransition) then some fillerTransition else none
  desiredSnapshotDigest := fun _ _ =>
    ⟨0x5d6de24b867d54750af6a01cb67696c1b242f523bc6ee58754e62a011c3e73a7⟩

theorem byteLen_fillerNote : fillerNote.byteLen = 14964 := by
  have hsize : 'n'.utf8Size = 1 := rfl
  rw [fillerNote, byteLen, map_replicate, sum_replicate, hsize, smul_eq_mul, mul_one]

theorem byteLen_commaSeparated {items : List Text} {size : Nat}
    (h : ∀ item ∈ items, item.byteLen = size) (hne : items ≠ []) :
    (commaSeparated items).byteLen + 1 = items.length * (size + 1) := by
  have hrest : ∀ rest : List Text, (∀ item ∈ rest, item.byteLen = size) →
      byteLen (rest.flatMap fun item => ',' :: item) = rest.length * (size + 1) := by
    intro rest hall
    induction rest with
    | nil => simp [byteLen]
    | cons item rest ih =>
      have hcomma : byteLen (',' :: item) = size + 1 := by
        have hitem := hall item mem_cons_self
        have hsize : ','.utf8Size = 1 := rfl
        simp only [byteLen, map_cons, sum_cons, hsize] at hitem ⊢
        omega
      rw [flatMap_cons, byteLen_append, hcomma,
        ih fun other hother => hall other (mem_cons_of_mem _ hother), length_cons]
      ring
  cases items with
  | nil => exact absurd rfl hne
  | cons first rest =>
    rw [commaSeparated, byteLen_append, h first mem_cons_self,
      hrest rest fun other hother => h other (mem_cons_of_mem _ hother), length_cons]
    ring

theorem byteLen_fillerNotesJson : (commaSeparated (fillerNotes.map quoted)).byteLen = 598679 := by
  have hquoted : ∀ item ∈ replicate 40 (quoted fillerNote), item.byteLen = 14966 := by
    intro item hitem
    obtain rfl := eq_of_mem_replicate hitem
    show byteLen (['"'] ++ (fillerNote ++ ['"'])) = 14966
    rw [byteLen_append, byteLen_append, byteLen_fillerNote]
    rfl
  have hnotes := byteLen_commaSeparated hquoted (by simp)
  rw [length_replicate] at hnotes
  rw [fillerNotes, map_replicate]
  exact Nat.add_right_cancel (hnotes.trans (show 40 * (14966 + 1) = 598679 + 1 by rfl))

theorem byteLen_fillerTransformJson {req : Nat} (h : req < 28) :
    (fillerTransformJson (fillerTransform req)).byteLen = 599160 := by
  have hrequest := byteLen_digestText req (lt_trans h (by decide))
  have hnotes : (fillerTransform req).diagnostics.flatMap TransformDiagnostic.notes =
      fillerNotes := append_nil _
  have hid : (fillerTransform req).requestDigest = ⟨req⟩ := rfl
  unfold fillerTransformJson
  rewrite [hnotes, hid]
  simp only [byteLen_append]
  rewrite [hrequest, byteLen_fillerNotesJson]
  decide +kernel

theorem byteLen_recordText (transition history transforms : Text) :
    byteLen (recordText "null".toList transition history [] [] transforms [] []
      emptySnapshotDigest) =
        transition.byteLen + history.byteLen + transforms.byteLen + 688 := by
  have hrest : byteLen (recordText "null".toList [] [] [] [] [] [] [] emptySnapshotDigest) =
      688 := by
    decide +kernel
  have hnil : byteLen [] = 0 := rfl
  rw [← hrest]
  unfold recordText
  simp only [flatten_cons, flatten_nil, byteLen_append, hnil]
  ac_rfl

theorem fillerJson_length {record : PreparedDocument}
    (h : record.transforms = fillerDocument.transforms) :
    (fillerCodec.encode record).length =
      (fillerTransitionName record.transition).byteLen +
        byteLen (Nat.repr record.retention.history).toList + 16777195 := by
  have hsize : ∀ item ∈ (range 28).map (fillerTransformJson ∘ fillerTransform),
      item.byteLen = 599160 := by
    intro item hitem
    obtain ⟨req, hrequest, rfl⟩ := mem_map.1 hitem
    exact byteLen_fillerTransformJson (mem_range.1 hrequest)
  have htransforms := byteLen_commaSeparated hsize (by simp)
  rw [length_map, length_range] at htransforms
  have hitems : record.transforms.map fillerTransformJson =
      (range 28).map (fillerTransformJson ∘ fillerTransform) := by
    rw [h, fillerDocument, map_map]
  show (utf8 (fillerJson record)).length = _
  rw [utf8_length]
  show (fillerJson record).byteLen = _
  unfold fillerJson
  rewrite [hitems, byteLen_recordText,
    Nat.add_right_cancel (htransforms.trans (show 28 * (599160 + 1) = 16776507 + 1 by rfl))]
  generalize (fillerTransitionName record.transition).byteLen = transition
  generalize byteLen (Nat.repr record.retention.history).toList = generations
  omega

theorem fillerDocument_length : (fillerCodec.encode fillerDocument).length = 16777207 := by
  rw [fillerJson_length (show fillerDocument.transforms = fillerDocument.transforms from rfl)]
  decide

theorem fillerRetention_length : (fillerCodec.encode fillerRetention).length = 16777205 := by
  rw [fillerJson_length (show fillerRetention.transforms = fillerDocument.transforms from rfl)]
  decide

theorem fillerTransition_length : (fillerCodec.encode fillerTransition).length = 16777215 := by
  rw [fillerJson_length (show fillerTransition.transforms = fillerDocument.transforms from rfl)]
  decide

theorem fillerBetween_length : (fillerCodec.encode fillerBetween).length = 16777217 := by
  rw [fillerJson_length (show fillerBetween.transforms = fillerDocument.transforms from rfl)]
  decide

theorem fillerDiagnostic_textBytes : fillerDiagnostic.textBytes = 598580 := by
  have hmessage : fillerDiagnostic.message.byteLen = 20 := by decide
  have hsame : fillerDiagnostic.notes = fillerNotes := rfl
  have hnotes : (fillerDiagnostic.notes.map byteLen).sum = 40 * 14964 := by
    rw [hsame, fillerNotes, map_replicate, sum_replicate, byteLen_fillerNote, smul_eq_mul]
  rw [TransformDiagnostic.textBytes, hmessage, hnotes]

theorem fillerDiagnostic_valid : fillerDiagnostic.validate = .ok () := by
  have hlen : fillerNotes.length = 40 := by
    rw [fillerNotes, length_replicate]
  simp only [TransformDiagnostic.validate, bind_ok, exists_unit, reject_ok,
    checkLimit_ok, forM_ok, whenSome_ok, fillerDiagnostic_textBytes]
  refine ⟨by decide, rfl, by decide, hlen.trans_le (by decide), ?_,
    by decide, ?_⟩
  · intro note hnote
    have hnote : note ∈ replicate 40 fillerNote := by
      rw [← fillerNotes]
      exact hnote
    rw [eq_of_mem_replicate hnote, byteLen_fillerNote]
    decide
  · intro location hlocation
    cases hlocation

theorem fillerTransform_valid (req : Nat) : (fillerTransform req).validate = .ok () := by
  have htext : ((fillerTransform req).diagnostics.map TransformDiagnostic.textBytes).sum =
      598580 := by
    have hdiagnostics : (fillerTransform req).diagnostics = [fillerDiagnostic] := rfl
    rw [hdiagnostics, map_singleton, sum_singleton, fillerDiagnostic_textBytes]
  have hlabel : ∀ field, validateLabel field "filler".toList = .ok () := by
    intro field
    rfl
  have hresources : 0 ≤ maxTransformResources := by decide
  have hdiagnostics : 1 ≤ maxTransformDiagnostics := by decide
  simp only [validate, bind_ok, exists_unit, reject_ok,
    checkLimit_ok, forM_ok, rejectDuplicates_ok, not_not, htext]
  refine ⟨hlabel _, hlabel _, hresources, ?_, nodup_nil, hdiagnostics, ?_,
    isChain_singleton _, by decide⟩
  · intro resource hresource
    cases hresource
  · intro diagnostic hdiagnostic
    rw [mem_singleton.1 hdiagnostic]
    exact fillerDiagnostic_valid

theorem fillerDocument_built :
    fillerDocument.tryFrom fillerCodec .empty = .ok fillerDocument := by
  have hord : (((range 28).map fillerTransform).map
      requestDigest).Pairwise (· < ·) := by
    rw [map_map, show requestDigest ∘ fillerTransform = Digest.mk from rfl]
    exact pairwise_lt_range.map Digest.mk fun _ _ hless => hless
  refine minimal_built fillerCodec ((range 28).map fillerTransform) ?_ ?_ hord rfl rfl ?_
  · rw [length_map, length_range]
    decide
  · intro transform htransform
    obtain ⟨req, -, rfl⟩ := mem_map.1 htransform
    exact fillerTransform_valid req
  · exact le_of_eq_of_le fillerDocument_length (by decide)

theorem fillerTransition_extended : Extended fillerCodec fillerTransition := by
  have hret : fillerDocument.withRetentionAuthority fillerCodec ⟨1, [], []⟩ =
      .ok fillerRetention := by
    simp only [withRetentionAuthority, bind_ok, exists_unit, pure_ok, validateEncodedSize_ok]
    exact ⟨rfl, le_of_eq_of_le fillerRetention_length (by decide), rfl⟩
  have htrans : fillerRetention.withTransition fillerCodec .retentionAuthority =
      .ok fillerTransition := by
    simp only [withTransition, bind_ok, exists_unit, pure_ok, validateEncodedSize_ok]
    exact ⟨le_of_eq_of_le fillerTransition_length (by decide), rfl⟩
  exact .withTransition (.withRetentionAuthority (.built fillerDocument_built) hret)
    htrans

/-- **A record that fits but does not decode**: decoding sets the transition first. -/
theorem filler_roundTrip_fails :
    Extended fillerCodec fillerTransition ∧
      validateSelectedRestoreAuthority fillerTransition.lifecycle fillerTransition.restorePoint
        fillerTransition.retention = .ok () ∧
      fillerCodec.parse (fillerCodec.encode fillerTransition) = some fillerTransition ∧
      decodePreparedRecord fillerCodec
          (PreparedId.fromDigest (fillerCodec.sha256 (fillerCodec.encode fillerTransition)))
          (fillerCodec.encode fillerTransition) ≠ .ok fillerTransition := by
  have hjson : fillerCodec.parse (fillerCodec.encode fillerTransition) = some fillerTransition := by
    simp only [fillerCodec, ↓reduceIte]
  refine ⟨fillerTransition_extended, rfl, hjson, ?_⟩
  intro hdecoded
  have hfits := fillerTransition_extended.stable.decoded_iff (.inr rfl) hjson
  have hbetween : fillerBetween.Fits fillerCodec := (hfits.1 hdecoded).transition
  exact absurd (fillerBetween_length.symm.trans_le hbetween) (by decide)

end Malm.Store
