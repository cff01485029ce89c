/-
Malm.Store.DecodeTheorems — which decoded records have constructed components.

`validate_decoded` builds the record again, which checks its transforms, operations
and authority once more (`decoded_checks`), but takes the rest as it was parsed
(`TakenAsParsed`). Decoding admits only constructed records exactly as far as those
hold.
-/
import Malm.Store.Decode
import Malm.Store.SnapshotTheorems

namespace Malm.Store

open Bytes Checks List PreparedDocument TransformProvenance TargetObservation ArchiveProvenance
  PreparedArtifact PreparedInput PolicyFinding

variable {resources : List TransformResource} {transform : TransformProvenance}

/-! ## 1. The ranges of the constructors -/

theorem PreparedInput.new_ok {input : PreparedInput} :
    (∃ kind name d, PreparedInput.new kind name d = .ok input) ↔
      validateLabel "prepared input name" input.name = .ok () := by
  simp only [PreparedInput.new, bind_ok, exists_unit, pure_ok]
  constructor
  · rintro ⟨kind, name, d, hlabel, rfl⟩
    exact hlabel
  · intro hlabel
    exact ⟨_, _, _, hlabel, rfl⟩

theorem PreparedArtifact.new_ok {artifact : PreparedArtifact} :
    (∃ id digest byteLen mediaType,
        PreparedArtifact.new id digest byteLen mediaType = .ok artifact) ↔
      validateLabel "artifact media type" artifact.mediaType = .ok () := by
  simp only [PreparedArtifact.new, bind_ok, exists_unit, pure_ok]
  constructor
  · rintro ⟨id, digest, byteLen, mediaType, hlabel, rfl⟩
    exact hlabel
  · intro hlabel
    exact ⟨_, _, _, _, hlabel, rfl⟩

theorem ArchiveProvenance.new_ok {provenance : ArchiveProvenance} :
    (∃ payload decoder, new payload decoder = .ok provenance) ↔
      validateLabel "archive decoder" provenance.decoder = .ok () := by
  simp only [new, bind_ok, exists_unit, pure_ok]
  constructor
  · rintro ⟨payload, decoder, hlabel, rfl⟩
    exact hlabel
  · intro hlabel
    exact ⟨_, _, hlabel, rfl⟩

theorem PolicyFinding.new_ok {sha256 : List UInt8 → Digest} {finding : PolicyFinding} :
    (∃ code message approvalRequired,
        PolicyFinding.new sha256 code message approvalRequired = .ok finding) ↔
      validateLabel "policy finding code" finding.code = .ok () ∧
        validateText "policy finding message" finding.message (64 * 1024) = .ok () ∧
        finding.id =
          policyFindingId sha256 finding.code finding.message finding.approvalRequired := by
  simp only [PolicyFinding.new, bind_ok, exists_unit, pure_ok]
  constructor
  · rintro ⟨code, message, approvalRequired, hcode, hmessage, rfl⟩
    exact ⟨hcode, hmessage, rfl⟩
  · rintro ⟨hcode, hmessage, hid⟩
    refine ⟨finding.code, finding.message, finding.approvalRequired, hcode, hmessage, ?_⟩
    rw [← hid]

def TargetObservation.MissingShape (observation : TargetObservation) : Prop :=
  0 < observation.missingAncestors →
    observation.leaf = .absent ∧
      observation.missingAncestors ≤ observation.relativePath.count '/' ∧
      observation.ancestors.length =
        observation.relativePath.count '/' - observation.missingAncestors - 1

theorem TargetObservation.withMissingAncestors_ok {obs : TargetObservation} :
    (∃ auth path traversalAnchor ancestors parent leaf missingAncestors,
        withMissingAncestors auth path traversalAnchor ancestors
          parent leaf missingAncestors = .ok obs) ↔
      validateRelativePath obs.relativePath = .ok () ∧
        obs.ancestors.length ≤ 64 ∧ obs.MissingShape := by
  simp only [withMissingAncestors, TargetObservation.MissingShape, bind_ok, exists_unit, pure_ok,
    when_ok, reject_ok, checkLimit_ok, not_or, not_not, not_lt, ne_eq]
  constructor
  · rintro ⟨auth, path, anchor, ancestors, parent, leaf, missing, hpath, hlimit,
      hshape, rfl⟩
    exact ⟨hpath, hlimit, hshape⟩
  · rintro ⟨hpath, hlimit, hshape⟩
    exact ⟨_, _, _, _, _, _, _, hpath, hlimit, hshape, rfl⟩

def TransformProvenance.ResourcesOrdered (transform : TransformProvenance) : Prop :=
  transform.resources.Pairwise fun left right => left.name < right.name

theorem sortResources_of_ordered (h : resources.Pairwise fun left right => left.name < right.name) :
    resources.insertionSort (fun left right => left.key ≤ right.key) = resources := by
  have hkeys : resources.Pairwise fun left right => left.key ≤ right.key :=
    h.imp fun hless => Prod.Lex.le_iff.2 (Or.inl hless)
  exact hkeys.insertionSort_eq

theorem ordered_of_sortResources
    (hnodup : ((resources.insertionSort fun left right => left.key ≤ right.key).map
      TransformResource.name).Nodup) :
    (resources.insertionSort fun left right => left.key ≤ right.key).Pairwise
      fun left right => left.name < right.name := by
  have hsorted := pairwise_insertionSort
    (fun left right : TransformResource => left.key ≤ right.key) resources
  have hnames := pairwise_map.1 hnodup
  refine (List.Pairwise.and hsorted hnames).imp ?_
  rintro left right ⟨hle, hne⟩
  rcases Prod.Lex.le_iff.1 hle with hless | ⟨hsame, -⟩
  · exact hless
  · exact absurd hsame hne

theorem sortDiagnostics_of_validate (h : transform.validate = .ok ()) :
    transform.diagnostics.insertionSort (fun left right => left.key ≤ right.key) =
      transform.diagnostics := by
  simp only [validate, bind_ok, exists_unit, reject_ok, not_not] at h
  obtain ⟨-, -, -, -, -, -, -, hchain, -⟩ := h
  have hkeys := pairwise_map.1 hchain.pairwise
  exact (hkeys.imp fun hless => le_of_lt hless).insertionSort_eq

theorem TransformProvenance.new_ok :
    (∃ name implementation requestDigest documentDigest resources responseDigest diagnostics,
        new name implementation requestDigest documentDigest resources
          responseDigest diagnostics = .ok transform) ↔
      transform.validate = .ok () ∧ transform.ResourcesOrdered := by
  simp only [new, bind_ok, exists_unit, pure_ok, rejectDuplicates_ok, checkLimit_ok]
  constructor
  · rintro ⟨name, implementation, requestDigest, documentDigest, resources, responseDigest,
      diagnostics, -, -, hnodup, hvalid, rfl⟩
    exact ⟨hvalid, ordered_of_sortResources hnodup⟩
  · rintro ⟨hvalid, hord⟩
    have hresources := sortResources_of_ordered hord
    have hdiagnostics := sortDiagnostics_of_validate hvalid
    have hparts := hvalid
    simp only [validate, bind_ok, exists_unit, checkLimit_ok, rejectDuplicates_ok] at hparts
    obtain ⟨hname, -, hcount, -, hnodup, -⟩ := hparts
    refine ⟨transform.name, transform.implementation, transform.requestDigest,
      transform.documentDigest, transform.resources, transform.responseDigest,
      transform.diagnostics, hname, hcount, ?_⟩
    rw [hresources, hdiagnostics]
    exact ⟨hnodup, hvalid, rfl⟩

/-! ## 2. What decoding checks -/

/-- Every component comes from its constructor, and the rules on the whole record hold. -/
@[mk_iff constructed_iff_parts]
structure Constructed (sha256 : List UInt8 → Digest) (record : PreparedDocument) : Prop where
  inputs : ∀ input ∈ record.inputs, ∃ kind name digest,
    PreparedInput.new kind name digest = .ok input
  artifacts : ∀ artifact ∈ record.artifacts, ∃ id digest byteLen mediaType,
    PreparedArtifact.new id digest byteLen mediaType = .ok artifact
  findings : ∀ finding ∈ record.findings, ∃ code message approvalRequired,
    PolicyFinding.new sha256 code message approvalRequired = .ok finding
  observations : ∀ operation ∈ record.operations,
    ∃ authority relativePath traversalAnchor ancestors parent leaf missingAncestors,
      TargetObservation.withMissingAncestors authority relativePath traversalAnchor ancestors
        parent leaf missingAncestors = .ok operation.observation
  archives : ∀ operation ∈ record.operations, ∀ provenance ∈ operation.archiveProvenance,
    ∃ payload decoder, ArchiveProvenance.new payload decoder = .ok provenance
  operations : ∀ operation ∈ record.operations,
    validatePreparedOperation record.artifacts operation = .ok ()
  transforms : ∀ transform ∈ record.transforms,
    ∃ name implementation requestDigest documentDigest resources responseDigest diagnostics,
      TransformProvenance.new name implementation requestDigest documentDigest resources
        responseDigest diagnostics = .ok transform
  desiredSnapshot : ∃ targets, DesiredSnapshot.new targets = .ok record.desiredSnapshot
  restorePoint : ∀ point ∈ record.restorePoint,
    validateRestorePoint point (some record.namespaceName) = .ok ()
  retention : validateRetentionAuthority record.retention (some record.namespaceName) = .ok ()
  trackedRoot : ∀ trackedRoot ∈ record.trackedRoot, validateTrackedRoot trackedRoot = .ok ()

/-- What decoding takes as parsed: labels, finding fields, observations and the order of
resources. -/
@[mk_iff]
structure TakenAsParsed (sha256 : List UInt8 → Digest) (record : PreparedDocument) : Prop where
  inputs : ∀ input ∈ record.inputs, validateLabel "prepared input name" input.name = .ok ()
  artifacts : ∀ artifact ∈ record.artifacts,
    validateLabel "artifact media type" artifact.mediaType = .ok ()
  findings : ∀ finding ∈ record.findings,
    validateLabel "policy finding code" finding.code = .ok () ∧
      validateText "policy finding message" finding.message (64 * 1024) = .ok () ∧
      finding.id = policyFindingId sha256 finding.code finding.message finding.approvalRequired
  observations : ∀ operation ∈ record.operations,
    validateRelativePath operation.observation.relativePath = .ok () ∧
      operation.observation.ancestors.length ≤ 64 ∧ operation.observation.MissingShape
  archives : ∀ operation ∈ record.operations, ∀ provenance ∈ operation.archiveProvenance,
    validateLabel "archive decoder" provenance.decoder = .ok ()
  resources : ∀ transform ∈ record.transforms, transform.ResourcesOrdered

section Documents

variable {codec : DocumentCodec} {record built : PreparedDocument}

/-- What decoding checks again of the components of a record. -/
structure Checked (record : PreparedDocument) : Prop where
  operations : ∀ operation ∈ record.operations,
    validatePreparedOperation record.artifacts operation = .ok ()
  transforms : ∀ transform ∈ record.transforms, transform.validate = .ok ()
  desiredSnapshot : ∃ targets, DesiredSnapshot.new targets = .ok record.desiredSnapshot
  restorePoint : ∀ point ∈ record.restorePoint,
    validateRestorePoint point (some record.namespaceName) = .ok ()
  retention : validateRetentionAuthority record.retention (some record.namespaceName) = .ok ()
  trackedRoot : ∀ trackedRoot ∈ record.trackedRoot, validateTrackedRoot trackedRoot = .ok ()

theorem tryFrom_ok {desiredSnapshot : DesiredSnapshot}
    (h : record.tryFrom codec desiredSnapshot = .ok built) :
    (∀ op ∈ built.operations,
        validatePreparedOperation built.artifacts op = .ok ()) ∧
      (∀ transform ∈ record.transforms, transform.validate = .ok ()) ∧
      built.desiredSnapshot = desiredSnapshot ∧ built.namespaceName = record.namespaceName := by
  simp only [tryFrom, bind_ok, exists_unit, pure_ok, forM_ok] at h
  obtain ⟨-, -, -, -, -, -, htransforms, -, -, -, -, -, -, bytes, -, -, hops, -, rfl⟩ := h
  exact ⟨hops, htransforms, rfl, rfl⟩

theorem rebuild_checked (h : record.rebuild codec = .ok built) (hsame : built = record) :
    Checked record := by
  simp only [rebuild, withTransition, withLifecycleState, withRestorePoint, withRetentionAuthority,
    withTrackedRoot, asDesiredSnapshot, bind_ok, exists_unit, pure_ok, mapError_ok,
    whenSome_ok] at h
  obtain ⟨trackedRoot, -, -, snapshot, hsnap, parts, hparts, _, ⟨-, rfl⟩, _, ⟨-, rfl⟩, _,
    ⟨hpoint, -, rfl⟩, _, ⟨hret, -, rfl⟩, htracked, -, rfl⟩ := h
  obtain ⟨hops, htransforms, hdesired, hname⟩ := tryFrom_ok hparts
  have hoperationsEq : parts.operations = record.operations :=
    congrArg (fun doc => doc.operations) hsame
  have hartifactsEq : parts.artifacts = record.artifacts :=
    congrArg (fun doc => doc.artifacts) hsame
  have hdesiredEq : parts.desiredSnapshot = record.desiredSnapshot :=
    congrArg (fun doc => doc.desiredSnapshot) hsame
  have htrackedEq : trackedRoot = record.trackedRoot :=
    congrArg (fun doc => doc.trackedRoot) hsame
  rw [hoperationsEq, hartifactsEq] at hops
  rw [hname] at hpoint hret
  rw [htrackedEq] at htracked
  have hsnapshotEq : snapshot = record.desiredSnapshot := hdesired.symm.trans hdesiredEq
  exact ⟨hops, htransforms, ⟨_, hsnapshotEq ▸ hsnap⟩, hpoint, hret, htracked⟩

theorem decoded_checks {expected : PreparedId} {bytes : List UInt8}
    (h : decodePreparedRecord codec expected bytes = .ok record) : Checked record := by
  simp only [decodePreparedRecord, PreparedDocument.validateDecoded, bind_ok, exists_unit, pure_ok,
    require_ok, reject_ok, mapError_ok, not_not] at h
  obtain ⟨-, found, hparse, -, -, -, ⟨rebuilt, hrebuild, -, hsame⟩, rfl⟩ := h
  exact rebuild_checked hrebuild hsame

/-- A checked record has constructed components when what is taken as parsed is right. -/
theorem constructed_iff (sha256 : List UInt8 → Digest) (h : Checked record) :
    Constructed sha256 record ↔ TakenAsParsed sha256 record := by
  have htransforms : (∀ transform ∈ record.transforms,
      transform.validate = .ok () ∧ transform.ResourcesOrdered) ↔
        ∀ transform ∈ record.transforms, transform.ResourcesOrdered :=
    forall₂_congr fun transform hmem => and_iff_right (h.transforms transform hmem)
  simp only [constructed_iff_parts, takenAsParsed_iff, PreparedInput.new_ok,
    PreparedArtifact.new_ok, PolicyFinding.new_ok, withMissingAncestors_ok,
    ArchiveProvenance.new_ok, TransformProvenance.new_ok, htransforms]
  obtain ⟨hoperations, -, hsnapshot, hpoint, hretention, htracked⟩ := h
  tauto

end Documents

/-! ## 3. Decoded records -/

/-- **Which decoded records are constructible**: exactly those whose parts that decoding does not
check again are as the constructors make them. -/
theorem decoded_constructed_iff (codec : DocumentCodec) (expected : PreparedId)
    (bytes : List UInt8) (record : PreparedDocument)
    (h : decodePreparedRecord codec expected bytes = .ok record) :
    Constructed codec.sha256 record ↔ TakenAsParsed codec.sha256 record :=
  constructed_iff codec.sha256 (decoded_checks h)

/-- A record of namespace `minimal` with these inputs and nothing else. -/
def minimalDocument (inputs : List PreparedInput) : PreparedDocument where
  namespaceName := "minimal".toList
  expectedHead := none
  transition := .reconcile
  lifecycle := .enabled
  restorePoint := none
  retention := .default
  trackedRoot := none
  graphDigest := ⟨0⟩
  inputs := inputs
  artifacts := []
  transforms := []
  approvalDigest := ⟨0x15e7deac2e6e896d8a14fc2583e7323dc27d6c8f130a290d1965864558b15524⟩
  operations := []
  desiredSnapshot := .empty
  desiredSnapshotDigest := ⟨0x5d6de24b867d54750af6a01cb67696c1b242f523bc6ee58754e62a011c3e73a7⟩
  schemaVersion := 1
  schemaVersions := .default
  findings := []

def parentIdentity : FileIdentity := ⟨1, 2, 0, 0, 16877, 2, 0, 0, 0, 0, 0⟩

/-- A transform by a component, with a resource. -/
def renderTransform : TransformProvenance where
  name := "render".toList
  implementation := .component (Pack.digestText ⟨0⟩) ⟨0⟩ "render.wasm".toList ⟨0⟩
    formatComponentInterface ⟨0⟩
  requestDigest := ⟨0⟩
  documentDigest := ⟨0⟩
  resources := [⟨"main".toList, ⟨0⟩⟩]
  responseDigest := ⟨0⟩
  diagnostics := []

/-- A record with a predecessor and another history, which places a file. -/
def placingDocument : PreparedDocument :=
  { minimalDocument [⟨.source, "main".toList, ⟨0⟩⟩] with
    expectedHead := some ⟨0xdca76d52bd160e1a029e679f3bb9f5b160a6dbd1770c64cb6c805b664771d2d4⟩
    retention := ⟨3, [], []⟩
    artifacts := [⟨"app".toList, emptyDigest, 0, "text/plain".toList⟩]
    transforms := [renderTransform]
    operations := [.placeFile
      ⟨"home".toList, "app.conf".toList, parentIdentity, [], parentIdentity, .absent, 0⟩
      "app".toList 0o644 false]
    desiredSnapshot :=
      ⟨[⟨"home".toList, "app.conf".toList, .file (some ⟨emptyDigest, 0, 0o644⟩)⟩]⟩
    desiredSnapshotDigest := ⟨0x227028754cae7ad0465a3b67a02790e44380bb1505b2f16e4cdae33929e54be3⟩ }

/-- JSON, with `'`, `<` and `>` for quotes and braces and `#` for the digest zero. -/
@[irreducible] def json (parts : List String) : Text :=
  parts.flatMap fun text => text.toByteArray.data.toList.flatMap fun c => match c.toNat with
    | 35 => Pack.digestText ⟨0⟩
    | 39 => ['"']
    | 60 => ['\x7b']
    | 62 => ['\x7d']
    | n => [Char.ofNat n]

/-- The JSON of such records. -/
@[irreducible] def recordText (head transition history inputs artifacts transforms operations
    targets snapshotDigest : Text) : Text :=
  flatten [
    json ["<'schema_version':1,'schema_versions':<'store':1,", "'config':1,'pack':1,'lock':1,",
      "'format_component':1>,'namespace':'minimal',", "'expected_head':"], head,
    json [",'transition':<'kind':'"], transition,
    json ["'>,'lifecycle':'enabled','restore_point':null,",
      "'retention':<'history':<'generations':"], history,
    json [">,'restore_points':[],'explicit_pins':[]>,",
      "'tracked_root':null,'graph_digest':'#','inputs':["], inputs,
    json ["],'artifacts':["], artifacts, json ["],'transforms':["], transforms,
    json ["],'findings':[],'approval_digest':'"],
    Pack.digestText ⟨0x15e7deac2e6e896d8a14fc2583e7323dc27d6c8f130a290d1965864558b15524⟩,
    json ["','operations':["], operations, json ["],'desired_snapshot':["], targets,
    json ["],'desired_snapshot_digest':'"], snapshotDigest, json ["'>\n"]]

def emptySnapshotDigest : Text :=
  Pack.digestText ⟨0x5d6de24b867d54750af6a01cb67696c1b242f523bc6ee58754e62a011c3e73a7⟩

def minimalJson (inputs : Text) : List UInt8 :=
  utf8 (recordText "null".toList "reconcile".toList "256".toList inputs [] [] [] []
    emptySnapshotDigest)

def parentJson : Text :=
  json ["<'device':1,'inode':2,'user_id':0,'group_id':0,", "'mode':16877,'links':2,'size':0,",
    "'modified_seconds':0,'modified_nanoseconds':0,",
    "'changed_seconds':0,'changed_nanoseconds':0>"]

def renderJson : Text :=
  json ["<'name':'render','implementation':<'kind':'component',", "'pack_node_id':'#',",
    "'pack_content_digest':'#','component_path':'render.wasm',", "'component_digest':'#',",
    "'interface_version':'format-component/v1',", "'execution_profile_digest':'#'>,",
    "'request_digest':'#','document_digest':'#',", "'resources':[<'name':'main','digest':'#'>],",
    "'response_digest':'#','diagnostics':[]>"]

def targetJson : Text :=
  json ["<'authority':'home','relative_path':'app.conf',",
    "'state':<'kind':'file','file':<'digest':'"] ++ Pack.digestText emptyDigest ++
    json ["','byte_len':0,'mode':420>>>"]

def placingJson : List UInt8 :=
  utf8 (recordText (json ["'"] ++ Pack.digestText
      ⟨0xdca76d52bd160e1a029e679f3bb9f5b160a6dbd1770c64cb6c805b664771d2d4⟩ ++ json ["'"])
    "reconcile".toList "3".toList (json ["<'kind':'source','name':'main','digest':'#'>"])
    (json ["<'id':'app','digest':'"] ++ Pack.digestText emptyDigest ++
      json ["','byte_len':0,'media_type':'text/plain'>"])
    renderJson
    (flatten [json ["<'operation':'place-file','observation':<'authority':'home',",
        "'relative_path':'app.conf','traversal_anchor':"],
      parentJson, json [",'ancestors':[],'parent':"], parentJson,
      json [",'leaf':<'state':'absent'>>,'artifact_id':'app',",
        "'mode':420,'replace_existing':false>"]])
    targetJson
    (Pack.digestText ⟨0x227028754cae7ad0465a3b67a02790e44380bb1505b2f16e4cdae33929e54be3⟩))

/-- An input without a name, which `PreparedInputV1::new` refuses. -/
def namelessInput : PreparedInput := ⟨.source, [], ⟨0⟩⟩

def namelessJson : Text := json ["<'kind':'source','name':'','digest':'#'>"]

def placingId : PreparedId := ⟨0xf399f8bce469f74a1d1ce22e1606559eecc5156f2a5a293aa8f9329ece574be6⟩

/-- SHA-256 and the JSON library on these records. -/
def sampleDocumentCodec : DocumentCodec where
  sha256 := fun bytes =>
    if bytes = placingJson then ⟨placingId.value⟩
    else if bytes = minimalJson namelessJson then
      ⟨0xeb8dc33823b98f009e7ee2e2c359e8e00fec654ef0d9fd200d5d4e82a0e63578⟩
    else
      ⟨0x15e7deac2e6e896d8a14fc2583e7323dc27d6c8f130a290d1965864558b15524⟩
  encode := fun record =>
    if record = placingDocument then placingJson
    else if record = minimalDocument [namelessInput] then minimalJson namelessJson
    else []
  parse := fun bytes =>
    if bytes = placingJson then some placingDocument
    else if bytes = minimalJson namelessJson then some (minimalDocument [namelessInput])
    else none
  desiredSnapshotDigest := fun _ snapshot =>
    if snapshot = .empty then (minimalDocument []).desiredSnapshotDigest
    else placingDocument.desiredSnapshotDigest

theorem placing_decoded :
    decodePreparedRecord sampleDocumentCodec placingId placingJson = .ok placingDocument := by
  decide +kernel

theorem nameless_decoded : decodePreparedRecord sampleDocumentCodec
    ⟨0xeb8dc33823b98f009e7ee2e2c359e8e00fec654ef0d9fd200d5d4e82a0e63578⟩
    (minimalJson namelessJson) = .ok (minimalDocument [namelessInput]) := by
  decide +kernel

/-- The record that places a file has constructed components. -/
theorem placing_constructed : Constructed sampleDocumentCodec.sha256 placingDocument := by
  refine (decoded_constructed_iff _ _ _ _ placing_decoded).2 ?_
  exact {
    inputs := forall_mem_singleton.2 rfl
    artifacts := forall_mem_singleton.2 rfl
    findings := forall_mem_nil _
    observations := forall_mem_singleton.2 ⟨rfl, by decide, fun h => absurd h (lt_irrefl _)⟩
    archives := by simp [placingDocument, PreparedOperation.archiveProvenance]
    resources := forall_mem_singleton.2 (pairwise_singleton _ _) }

/-- A record with an input that has no name decodes, and no constructor makes it. -/
theorem nameless_input_decoded :
    decodePreparedRecord sampleDocumentCodec
        ⟨0xeb8dc33823b98f009e7ee2e2c359e8e00fec654ef0d9fd200d5d4e82a0e63578⟩
        (minimalJson namelessJson) = .ok (minimalDocument [namelessInput]) ∧
      ¬ Constructed sampleDocumentCodec.sha256 (minimalDocument [namelessInput]) := by
  refine ⟨nameless_decoded, ?_⟩
  intro hconstructed
  have hmem : namelessInput ∈ (minimalDocument [namelessInput]).inputs := mem_singleton_self _
  have hname := PreparedInput.new_ok.1 (hconstructed.inputs namelessInput hmem)
  simp [namelessInput, validateLabel, validateText] at hname

end Malm.Store
