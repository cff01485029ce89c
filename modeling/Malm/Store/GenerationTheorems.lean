/-
Malm.Store.GenerationTheorems — generations survive storage (`state.rs`).

What decoding checks of the lifecycle, the authority and the snapshot is part of
the transition, and what it checks of artifacts, transforms and tracking holds of
every prepared record (`PlanParts`). The bounds of the deserializers are among
those checks, so serde is only asked to read what it wrote.
-/
import Malm.Store.PlanTheorems
import Malm.Store.RoundTripTheorems

namespace Malm.Store

open Bytes Checks Option

/-! ## 1. Decoding -/

/-- `StateGenerationV1`, with its schema version. -/
structure GenerationDocument extends StateGeneration where
  schemaVersion : Nat
deriving DecidableEq, Repr

def StateGeneration.document (generation : StateGeneration) : GenerationDocument :=
  { generation with schemaVersion := preparedRecordSchemaVersion }

/-- What canonical JSON and SHA-256 give to generations. -/
structure GenerationCodec extends Codec where
  sha256 : List UInt8 → Digest
  /-- `encode_state_generation_v1`. -/
  encode : GenerationDocument → List UInt8
  /-- `serde_json::from_slice`, but for the bounds on sequences. -/
  parse : List UInt8 → Option GenerationDocument
  /-- The schema version of the bytes as untyped JSON. -/
  jsonVersion : List UInt8 → Nat
  generationBytes_eq : ∀ gen : StateGeneration,
    generationBytes gen = (encode gen.document).length
  generationDigest_eq : ∀ gen : StateGeneration,
    generationDigest gen = sha256 (encode gen.document)

/-- `deserialize_acquisition_grants`. -/
def TrackedRoot.bounded (root : TrackedRoot) : Bool :=
  root.acquisitionGrants.length ≤ maxTrackedRootAcquisitionGrants

def RestorePoint.bounded (point : RestorePoint) : Bool := point.trackedRoot.all TrackedRoot.bounded

/-- `deserialize_restore_points` and `deserialize_explicit_pins`. -/
def RetentionAuthority.bounded (authority : RetentionAuthority) : Bool :=
  authority.restorePoints.length ≤ maxRestorePoints &&
    authority.explicitPins.length ≤ maxExplicitPins &&
    authority.restorePoints.all RestorePoint.bounded

def PreparedTransition.bounded : PreparedTransition → Bool
  | .enable restorePoint => restorePoint.bounded
  | _ => true

/-- `deserialize_transform_resources`, and likewise `…_diagnostics` and `…_diagnostic_notes`. -/
def TransformProvenance.bounded (transform : TransformProvenance) : Bool :=
  transform.resources.length ≤ maxTransformResources &&
    transform.diagnostics.length ≤ maxTransformDiagnostics &&
    transform.diagnostics.all fun diagnostic =>
      diagnostic.notes.length ≤ maxTransformDiagnosticNotes

def StateGeneration.bounded (generation : StateGeneration) : Bool :=
  generation.transition.bounded && generation.restorePoint.all RestorePoint.bounded &&
    generation.retention.bounded && generation.trackedRoot.all TrackedRoot.bounded &&
    generation.desiredSnapshot.targets.length ≤ maxDesiredTargets &&
    generation.transforms.all TransformProvenance.bounded

/-- The errors of `decode_state_generation_v1`. -/
inductive GenerationReadError where
  | invalidJson
  | record (error : StateRecordError)
deriving DecidableEq

def decodeStateGeneration (codec : GenerationCodec) (expected : Digest) (bytes : List UInt8) :
    Except GenerationReadError GenerationDocument := do
  reject (maxStateRecordBytes < bytes.length)
    (.record (.tooLarge maxStateRecordBytes bytes.length))
  let gen ← require (codec.parse bytes) .invalidJson
  reject (gen.bounded = false) .invalidJson
  reject (codec.encode gen ≠ bytes) (.record .nonCanonical)
  reject (codec.jsonVersion bytes ≠ preparedRecordSchemaVersion)
    (.record (.unsupportedVersion preparedRecordSchemaVersion (codec.jsonVersion bytes)))
  let actual := codec.sha256 (codec.encode gen)
  reject (actual ≠ expected) (.record (.digestMismatch expected actual))
  (validateStateGeneration codec.toCodec gen.toStateGeneration).mapError .record
  return gen

/-! ## 2. Bounds of validated parts -/

theorem TrackedRoot.bounded_of_valid {root : TrackedRoot} (h : validateTrackedRoot root = .ok ()) :
    root.bounded = true := by
  simp only [validateTrackedRoot, bind_ok, exists_unit, checkLimit_ok] at h
  exact decide_eq_true h.2.1

theorem RestorePoint.bounded_of_valid {point : RestorePoint} {ns : Option NamespaceName}
    (h : validateRestorePoint point ns = .ok ()) : point.bounded = true := by
  simp only [validateRestorePoint, bind_ok, exists_unit, whenSome_ok] at h
  rw [RestorePoint.bounded, all_eq_true]
  intro root hroot
  exact TrackedRoot.bounded_of_valid (h.2 root hroot)

theorem RetentionAuthority.bounded_of_valid {auth : RetentionAuthority}
    {ns : Option NamespaceName}
    (h : validateRetentionAuthority auth ns = .ok ()) :
    auth.bounded = true := by
  simp only [validateRetentionAuthority, bind_ok, exists_unit, checkLimit_ok, forM_ok] at h
  simp only [RetentionAuthority.bounded, Bool.and_eq_true, decide_eq_true_eq, List.all_eq_true]
  exact ⟨⟨h.2.1, h.2.2.1⟩,
    fun point hpoint => RestorePoint.bounded_of_valid (h.2.2.2.1 point hpoint)⟩

theorem TransformProvenance.bounded_of_valid {transform : TransformProvenance}
    (h : transform.validate = .ok ()) : transform.bounded = true := by
  simp only [TransformProvenance.validate, TransformDiagnostic.validate, bind_ok,
    exists_unit, checkLimit_ok, forM_ok] at h
  obtain ⟨-, -, hresources, -, -, hdiagnostics, heach, -⟩ := h
  simp only [TransformProvenance.bounded, Bool.and_eq_true, decide_eq_true_eq, List.all_eq_true]
  refine ⟨⟨hresources, hdiagnostics⟩, fun diagnostic hdiagnostic => ?_⟩
  exact (heach diagnostic hdiagnostic).2.2.2.1

/-! ## 3. Plans -/

section Records

variable {documents : DocumentCodec} {record : PreparedDocument}

theorem Stable.planParts (h : Stable documents record) : PlanParts record.toPreparedRecord := by
  have hbase := h.base
  simp only [PreparedDocument.tryFrom, bind_ok, exists_unit, pure_ok,
    forM_ok, checkLimit_ok, rejectDuplicates_ok] at hbase
  obtain ⟨-, hartifacts, htransforms, -, -, -, hvalid, -, hids, hrequests, -, -, -, -, -, -, -, -,
    hsame⟩ := hbase
  have hsortedArtifacts : sortArtifacts record.artifacts = record.artifacts :=
    congrArg (fun doc => doc.artifacts) hsame
  have hsortedTransforms : sortTransforms record.transforms = record.transforms :=
    congrArg (fun doc => doc.transforms) hsame
  exact ⟨hartifacts, chain_of_insertionSort hsortedArtifacts hids, htransforms, hvalid,
    chain_of_insertionSort hsortedTransforms hrequests, h.trackedRoot⟩

end Records

/-! ## 4. Generations from plans -/

section Generations

variable {codec : Codec} {planId : PreparedId} {previousGeneration : Option Digest}
  {prev : Option StateGeneration} {prepared : PreparedRecord} {gen : StateGeneration}

theorem BuiltFrom.transition_bounded
    (h : BuiltFrom codec planId previousGeneration prev prepared gen) :
    prepared.transition.bounded = true := by
  have htrans := h.transition
  simp only [validatePreparedTransition, bind_ok, exists_unit] at htrans
  obtain ⟨hpred, -, -, -, -, -, hkind, -⟩ := htrans
  cases hcase : prepared.transition with
  | enable restorePoint =>
    simp only [validatePreparedTransitionKind, hcase, bind_ok, require_ok,
      reject_ok, not_or, not_not] at hkind
    obtain ⟨before, rfl, -, hpoint, -⟩ := hkind
    unfold validatePredecessor at hpred
    split at hpred
    · rename_i hnone _
      cases hnone
    · cases hpred
    · cases hpred
    · rename_i found _ hsome _
      obtain rfl := some.inj hsome
      simp only [validateStateGeneration, bind_ok, exists_unit, whenSome_ok,
        asState, mapError_ok] at hpred
      exact RestorePoint.bounded_of_valid (hpred.1.2.1 restorePoint hpoint)
  | _ => rfl

theorem BuiltFrom.bounded
    (h : BuiltFrom codec planId previousGeneration prev prepared gen)
    (hparts : PlanParts prepared) : gen.bounded = true := by
  have htrans := h.transition
  simp only [validatePreparedTransition, bind_ok, exists_unit, asState,
    mapError_ok, whenSome_ok] at htrans
  obtain ⟨-, htargets, hpoint, hret, -⟩ := htrans
  rw [h.generation_eq]
  simp only [StateGeneration.bounded, generationOf, Bool.and_eq_true, all_eq_true, List.all_eq_true]
  refine ⟨⟨⟨⟨⟨h.transition_bounded, ?_⟩, RetentionAuthority.bounded_of_valid hret⟩, ?_⟩,
    decide_eq_true (validateStateTargets_ok.1 htargets).count⟩, ?_⟩
  · intro point hsome
    exact RestorePoint.bounded_of_valid (hpoint point hsome)
  · intro root hsome
    exact TrackedRoot.bounded_of_valid (hparts.trackedRoot root hsome)
  · intro transform hmem
    exact TransformProvenance.bounded_of_valid (hparts.transforms transform hmem)

end Generations

/-- **Generations survive storage**, and the record gives the generation again. -/
theorem generation_survives {documents : DocumentCodec} {record : PreparedDocument}
    {codec : GenerationCodec} {planId : PreparedId} {previousGeneration : Option Digest}
    {prev : Option StateGeneration} {gen : StateGeneration}
    (hrecord : Extended documents record ∨
      ∃ expected bytes, decodePreparedRecord documents expected bytes = .ok record)
    (hparse : codec.parse (codec.encode gen.document) = some gen.document)
    (hversion : codec.jsonVersion (codec.encode gen.document) =
      gen.document.schemaVersion)
    (hbuilt : fromPrepared codec.toCodec planId previousGeneration prev
      record.toPreparedRecord = .ok gen) :
    decodeStateGeneration codec (codec.generationDigest gen)
        (codec.encode gen.document) = .ok gen.document ∧
      fromRetainedPrepared codec.toCodec planId previousGeneration record.toPreparedRecord =
        .ok gen := by
  have hextended : Extended documents record := by
    rcases hrecord with h | ⟨expected, bytes, h⟩
    · exact h
    · exact decoded_extended h
  have hparts := hextended.stable.planParts
  have h := fromPrepared_builtFrom hbuilt
  refine ⟨?_, h.retained (h.valid hparts)⟩
  have hsize := h.size
  rw [codec.generationBytes_eq] at hsize
  have hbounded : gen.document.bounded = true := h.bounded hparts
  have hvalid : validateStateGeneration codec.toCodec gen.document.toStateGeneration =
      .ok () := h.valid hparts
  simp only [decodeStateGeneration, bind_ok, exists_unit, reject_ok,
    require_ok, pure_ok, mapError_ok, not_not, not_lt]
  exact ⟨hsize, _, hparse, by rw [hbounded]; decide, rfl, hversion,
    (codec.generationDigest_eq gen).symm, hvalid, rfl⟩

def minimalGeneration : StateGeneration :=
  generationOf ⟨0x668a420a48679a0e5bb16d04bc651c97fec64c1aa7d297105833f86ea7605ae5⟩ none
    (minimalDocument []).toPreparedRecord

def placingGeneration : StateGeneration :=
  generationOf placingId placingDocument.expectedHead placingDocument.toPreparedRecord

@[irreducible] def generationJson (planId : PreparedId)
    (previous history targets snapshotDigest artifacts transforms : Text) : List UInt8 :=
  utf8 (List.flatten [
    json ["<'schema_version':1,'namespace':'minimal',", "'plan_id':'pp-"],
    (Pack.digestText ⟨planId.value⟩).drop 7, json ["','previous_generation':"], previous,
    json [",'transition':<'kind':'reconcile'>,", "'lifecycle':'enabled','restore_point':null,",
      "'retention':<'history':<'generations':"], history,
    json [">,'restore_points':[],'explicit_pins':[]>,",
      "'tracked_root':null,'desired_snapshot':["], targets,
    json ["],'desired_snapshot_digest':'"], snapshotDigest,
    json ["','artifacts':["], artifacts, json ["],'transforms':["], transforms, json ["]>\n"]])

def minimalGenerationJson : List UInt8 :=
  generationJson minimalGeneration.planId "null".toList "256".toList [] emptySnapshotDigest [] []

def placingGenerationJson : List UInt8 :=
  generationJson placingId
    (json ["'"] ++ Pack.digestText
      ⟨0xdca76d52bd160e1a029e679f3bb9f5b160a6dbd1770c64cb6c805b664771d2d4⟩ ++ json ["'"])
    "3".toList targetJson (Pack.digestText placingDocument.desiredSnapshotDigest)
    (json ["<'id':'app','digest':'"] ++ Pack.digestText emptyDigest ++ json ["'>"]) renderJson

/-- SHA-256 and the JSON library on the two generations and the plan of the second. -/
def placingCodec : GenerationCodec :=
  let sha256 : List UInt8 → Digest := fun bytes =>
    if bytes = minimalGenerationJson then
      ⟨0xdca76d52bd160e1a029e679f3bb9f5b160a6dbd1770c64cb6c805b664771d2d4⟩
    else if bytes = placingGenerationJson then
      ⟨0x038798c30cc00cdda8bcaaef92dd440160dcfb8dc3d835c815c4c0b331c22666⟩
    else emptyDigest
  let encode : GenerationDocument → List UInt8 := fun gen =>
    if gen = minimalGeneration.document then minimalGenerationJson
    else if gen = placingGeneration.document then placingGenerationJson
    else []
  { sha256 := sha256
    encode := encode
    parse := fun bytes =>
      if bytes = placingGenerationJson then some placingGeneration.document else none
    jsonVersion := fun _ => 1
    generationDigest := fun gen => sha256 (encode gen.document)
    generationBytes := fun gen => (encode gen.document).length
    preparedId := fun _ => placingId
    preparedBytes := fun _ => 2667
    desiredSnapshotDigest := sampleDocumentCodec.desiredSnapshotDigest
    catalogDigest := fun _ => sha256 []
    catalogBytes := fun _ => 0
    generationBytes_eq := fun _ => rfl
    generationDigest_eq := fun _ => rfl }

/-- The generation of the record that places a file, after a first one. -/
theorem generation_survives_sample :
    decodeStateGeneration placingCodec (placingCodec.generationDigest placingGeneration)
        (placingCodec.encode placingGeneration.document) = .ok placingGeneration.document ∧
      fromRetainedPrepared placingCodec.toCodec placingId placingDocument.expectedHead
        placingDocument.toPreparedRecord = .ok placingGeneration := by
  have hparse : placingCodec.parse (placingCodec.encode placingGeneration.document) =
      some placingGeneration.document := by
    have hother : placingGeneration.document ≠ minimalGeneration.document := by decide +kernel
    simp only [placingCodec, if_neg hother, ↓reduceIte]
  have hbuilt : fromPrepared placingCodec.toCodec placingId placingDocument.expectedHead
      (some minimalGeneration) placingDocument.toPreparedRecord = .ok placingGeneration := by
    decide +kernel
  exact generation_survives (.inr ⟨_, _, placing_decoded⟩) hparse rfl hbuilt

end Malm.Store
