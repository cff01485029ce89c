/-
Malm.Config.TransformTheorems — transform identities are injective.

The fields behind the domain of a preimage are delimited (`requestFields_delimited`,
`responseFields_delimited`), so equal preimages have equal fields. Documents and resources
are known from a preimage as far as their hashes are.
-/
import Malm.Config.CanonicalTheorems
import Malm.Config.Transform

namespace Malm.Config

open Pack Pack.Object Malm.Tree Bytes Checks List TransformRequest

variable {identity : TransformIdentity}

/-! ## 1. Parts -/

/-- The length of a text fits into its eight bytes. -/
def ShortText (value : Text) : Prop := (utf8 value).length < 256 ^ 8

theorem shortText_of_byteLen {value : Text} {limit : Nat} (h : value.byteLen ≤ limit)
    (hlimit : limit < 256 ^ 8) : ShortText value := by
  rw [ShortText, utf8_length]
  exact lt_of_le_of_lt h hlimit

theorem putText_delimited : Delimited ShortText putText := Delimited.text

theorem putBytes_delimited : Delimited (fun v => v.length < 256 ^ 8) putBytes :=
  ⟨fun {_ _ _ _} ha hb => withLength_inj ha hb⟩

theorem putLen_delimited : Delimited (· < 256 ^ 8) putLen := Delimited.number

theorem putU32_delimited : Delimited (fun _ => True) putU32 :=
  (Delimited.of_unambiguous half_unambiguous).mono fun v _ => by simp

theorem putU64_delimited : Delimited (fun _ => True) putU64 :=
  (Delimited.of_unambiguous number_unambiguous).mono fun v _ => by simp

theorem putDigest_delimited : Delimited (fun _ => True) putDigest := by
  refine (putText_delimited.comap digestText_injective).mono fun d _ => ?_
  rw [ShortText, utf8_digestText_length]
  decide

theorem richName_short (name : RichName) : ShortText name.val := by
  have hvalid := name.property
  simp only [validateRichName, bind_ok, exists_unit, reject_ok, not_lt] at hvalid
  exact shortText_of_byteLen hvalid.2.1 (by decide)

theorem putName_delimited : Delimited (fun _ => True) fun name : RichName => putText name.val :=
  (putText_delimited.comap Subtype.val_injective).mono fun name _ => richName_short name

theorem tag_ne {left right : UInt8} (h : left ≠ right) {rest rest' : List UInt8} :
    left :: rest ≠ right :: rest' := fun heq => h (cons.inj heq).1

def TransformImplementation.Short : TransformImplementation → Prop
  | .builtIn implementation => ShortText implementation
  | .component _ interfaceVersion _ => ShortText interfaceVersion

theorem putImplementation_delimited :
    Delimited TransformImplementation.Short putImplementation where
  ends := by
    intro left right rest rest' hleft hright happend
    cases left with
    | builtIn implementation =>
      cases right with
      | builtIn other =>
        obtain ⟨rfl, hrest⟩ := putText_delimited.ends hleft hright (cons.inj happend).2
        exact ⟨rfl, hrest⟩
      | component componentDigest interfaceVersion executionProfileDigest =>
        exact absurd happend (tag_ne (by decide))
    | component componentDigest interfaceVersion executionProfileDigest =>
      cases right with
      | builtIn other => exact absurd happend (tag_ne (by decide))
      | component componentDigest' interfaceVersion' executionProfileDigest' =>
        have hfields := putDigest_delimited.seq (putText_delimited.seq putDigest_delimited)
        obtain ⟨heq, hrest⟩ := hfields.ends
          (a := (componentDigest, interfaceVersion, executionProfileDigest))
          (b := (componentDigest', interfaceVersion', executionProfileDigest'))
          ⟨trivial, hleft, trivial⟩ ⟨trivial, hright, trivial⟩ (cons.inj happend).2
        cases heq
        exact ⟨rfl, hrest⟩

theorem TransformIdentity.short_of_valid (h : identity.validate = .ok ()) :
    identity.contractVersion = formatTransformVersion ∧ identity.implementation.Short := by
  simp only [TransformIdentity.validate, bind_ok, exists_unit, reject_ok, not_not] at h
  obtain ⟨hversion, himplementation⟩ := h
  refine ⟨hversion, ?_⟩
  cases himpl : identity.implementation with
  | builtIn implementation =>
    simp only [himpl, validateIdentityText, bind_ok, exists_unit, reject_ok,
      not_lt] at himplementation
    exact shortText_of_byteLen himplementation.2.1 (by decide)
  | component componentDigest interfaceVersion executionProfileDigest =>
    simp only [himpl, reject_ok, not_not] at himplementation
    rw [TransformImplementation.Short, himplementation, ShortText]
    decide

/-! ## 2. Requests -/

def optionField (field : RichName × TypedValue) : List UInt8 :=
  putText field.1.val ++ putBytes (valueDomain ++ valueBytes field.2)

theorem optionField_delimited :
    Delimited (fun field => (valueDomain ++ valueBytes field.2).length < 256 ^ 8) optionField := by
  have hvalue : Delimited (fun v => (valueDomain ++ valueBytes v).length < 256 ^ 8)
      fun v => putBytes (valueDomain ++ valueBytes v) := by
    constructor
    intro left right rest rest' hleft hright happend
    obtain ⟨hbytes, hrest⟩ := putBytes_delimited.ends hleft hright happend
    have hsame := append_cancel_left hbytes
    rw [length_append] at hleft hright
    have heq := value_unambiguous.of_isPrefix (a := left) (b := right) (by omega) (by omega)
      (hsame ▸ prefix_refl _)
    exact ⟨heq, hrest⟩
  exact (putName_delimited.seq hvalue).mono fun _ hfits => ⟨trivial, hfits⟩

theorem putOption_ok {e : RichName × TransformOption} {bytes : List UInt8}
    (h : putOption e = .ok bytes) :
    bytes = optionField (e.1, e.2.value) ∧
      (valueDomain ++ valueBytes e.2.value).length < 256 ^ 8 := by
  simp only [putOption, bind_ok, mapError_ok, pure_ok] at h
  obtain ⟨v, hvalue, rfl⟩ := h
  obtain ⟨rfl, hlen⟩ := canonicalValueBytes_ok hvalue
  exact ⟨rfl, lt_of_le_of_lt hlen (by decide)⟩

def resourceField (field : RichName × ObjectDigest × Nat) : List UInt8 :=
  putText field.1.val ++ (putDigest field.2.1 ++ putLen field.2.2)

theorem resourceField_delimited : Delimited (fun field => field.2.2 < 256 ^ 8) resourceField :=
  (putName_delimited.seq (putDigest_delimited.seq putLen_delimited)).mono
    fun _ hfits => ⟨trivial, trivial, hfits⟩

/-- What a preimage has of a request, behind its domain and version. -/
structure RequestFields where
  name : RichName
  implementation : TransformImplementation
  document : ObjectDigest
  options : List (RichName × TypedValue)
  resources : List (RichName × ObjectDigest × Nat)

structure RequestFields.Fits (fields : RequestFields) : Prop where
  implementation : fields.implementation.Short
  optionCount : fields.options.length < 256 ^ 8
  options : ∀ field ∈ fields.options, (valueDomain ++ valueBytes field.2).length < 256 ^ 8
  resourceCount : fields.resources.length < 256 ^ 8
  resources : ∀ field ∈ fields.resources, field.2.2 < 256 ^ 8

def requestFields (fields : RequestFields) : List UInt8 :=
  putText fields.name.val ++ (putImplementation fields.implementation ++
    (putDigest fields.document ++ (counted optionField fields.options ++
      counted resourceField fields.resources)))

theorem requestFields_delimited : Delimited RequestFields.Fits requestFields := by
  have hparts := putName_delimited.seq (putImplementation_delimited.seq (putDigest_delimited.seq
    (optionField_delimited.counted.seq resourceField_delimited.counted)))
  have hfields := hparts.comap
    (f := fun fields : RequestFields => (fields.name, fields.implementation, fields.document,
      fields.options, fields.resources)) (by
    intro left right h
    cases left
    cases right
    simp_all)
  exact hfields.mono fun fields hfits => ⟨trivial, hfits.implementation, trivial,
    ⟨hfits.optionCount, hfits.options⟩, hfits.resourceCount, hfits.resources⟩

section Requests

variable {sha256 : List UInt8 → ObjectDigest}

/-- What validation says of a request. -/
structure TransformRequest.Valid (sha256 : List UInt8 → ObjectDigest) (request : TransformRequest) :
    Prop where
  version : request.contractVersion = formatTransformVersion
  optionCount : request.options.entries.length ≤ maxTransformOptions
  optionNames : ∀ entry ∈ request.options.entries, entry.1 = entry.2.name
  resourceCount : request.resources.entries.length ≤ maxTransformResources
  resourceNames : ∀ entry ∈ request.resources.entries, entry.1 = entry.2.name
  resourceDigests : ∀ entry ∈ request.resources.entries, sha256 entry.2.bytes = entry.2.digest
  resourceBytes : ∀ entry ∈ request.resources.entries,
    entry.2.bytes.length ≤ maxTransformResourceBytes

theorem TransformRequest.valid_of_validate {req : TransformRequest}
    (h : req.validate sha256 = .ok ()) : req.Valid sha256 := by
  simp only [validate, checkTransformLimit, checkRichLimit, bind_ok,
    exists_unit, mapError_ok, reject_ok, not_not, not_lt] at h
  obtain ⟨hversion, -, -, hoptions, optionBytes, hoptionLoop, -, hresources, resourceBytes,
    hresourceLoop, -⟩ := h
  have hoption : ∀ e ∈ req.options.entries, e.1 = e.2.name := by
    intro e hentry
    obtain ⟨before, after, hstep⟩ := foldlM_ok_of_mem hoptionLoop hentry
    simp only [validateOption, bind_ok, exists_unit, reject_ok, not_not] at hstep
    exact hstep.1
  have hresource : ∀ e ∈ req.resources.entries, e.1 = e.2.name ∧
      e.2.bytes.length ≤ maxTransformResourceBytes ∧
        sha256 e.2.bytes = e.2.digest := by
    intro e hentry
    obtain ⟨before, after, hstep⟩ := foldlM_ok_of_mem hresourceLoop hentry
    simp only [validateResource, DeclaredTransformResource.validate, checkTransformLimit,
      checkRichLimit, bind_ok, exists_unit, mapError_ok, reject_ok, not_not, not_lt] at hstep
    exact ⟨hstep.1, hstep.2.1⟩
  exact ⟨hversion, hoptions, hoption, hresources, fun e hentry => (hresource e hentry).1,
    fun e hentry => (hresource e hentry).2.2,
    fun e hentry => (hresource e hentry).2.1⟩

def TransformRequest.fields (identity : TransformIdentity) (request : TransformRequest)
    (document : ObjectDigest) : RequestFields where
  name := identity.name
  implementation := identity.implementation
  document := document
  options := request.options.entries.map fun entry => (entry.1, entry.2.value)
  resources := request.resources.entries.map fun entry =>
    (entry.1, entry.2.digest, entry.2.bytes.length)

theorem requestPreimage_ok {request : TransformRequest} {bytes : List UInt8}
    (h : formatTransformRequestPreimage sha256 identity request = .ok bytes) :
    ∃ doc, canonicalTypedDocumentDigest sha256 request.document = .ok doc ∧
      bytes = putText "malm-format-transform-request".toList ++ (putU32 formatTransformVersion ++
        requestFields (request.fields identity doc)) ∧
      (request.fields identity doc).Fits ∧ request.Valid sha256 ∧
      identity.contractVersion = formatTransformVersion := by
  simp only [formatTransformRequestPreimage, bind_ok, exists_unit, mapError_ok, pure_ok] at h
  obtain ⟨hidentity, hrequest, doc, hdocument, options, hoptions, rfl⟩ := h
  obtain ⟨hversion, hshort⟩ := TransformIdentity.short_of_valid hidentity
  have hvalid := valid_of_validate hrequest
  have hformat : options = request.options.entries.map fun entry =>
      optionField (entry.1, entry.2.value) :=
    mapM_eq_map_of_ok hoptions fun entry bytes hentry => (putOption_ok hentry).1
  refine ⟨doc, hdocument, ?_, ⟨hshort, ?_, ?_, ?_, ?_⟩, hvalid, hversion⟩
  · have hoptionBytes : items optionField (request.fields identity doc).options =
        options.flatten := by
      rw [hformat, items, fields, flatMap_map, flatMap_def]
    have hresourceBytes : items resourceField (request.fields identity doc).resources =
        request.resources.entries.flatMap putResource := by
      rw [items, fields, flatMap_map]
      rfl
    simp only [requestFields, counted, hoptionBytes, hresourceBytes, append_assoc]
    simp only [fields, putLen, length_map]
  · rw [fields, length_map]
    exact lt_of_le_of_lt hvalid.optionCount (by decide)
  · intro field hfield
    obtain ⟨entry, hentry, rfl⟩ := mem_map.1 hfield
    obtain ⟨bytes, hbytes⟩ := mapM_ok_of_mem hoptions hentry
    exact (putOption_ok hbytes).2
  · rw [fields, length_map]
    exact lt_of_le_of_lt hvalid.resourceCount (by decide)
  · intro field hfield
    obtain ⟨entry, hentry, rfl⟩ := mem_map.1 hfield
    exact lt_of_le_of_lt (hvalid.resourceBytes entry hentry) (by decide)

/-- The byte strings of a request that are hashed on their own. -/
def TransformRequest.Hashes (request : TransformRequest) (bytes : List UInt8) : Prop :=
  canonicalTypedDocumentBytes request.document = .ok bytes ∨
    ∃ entry ∈ request.resources.entries, entry.2.bytes = bytes

theorem eq_of_map_eq {α β : Type} {f : α → β} : ∀ {left right : List α},
    (∀ a ∈ left, ∀ b ∈ right, f a = f b → a = b) → left.map f = right.map f → left = right
  | [], right, _, h => (map_eq_nil_iff.1 h.symm).symm
  | first :: rest, [], _, h => by cases h
  | first :: rest, first' :: rest', hinj, h => by
    obtain ⟨hfirst, hrest⟩ := cons.inj h
    rw [hinj first mem_cons_self first' mem_cons_self hfirst,
      eq_of_map_eq (fun a ha b hb => hinj a (mem_cons_of_mem _ ha) b (mem_cons_of_mem _ hb)) hrest]

section

variable {left right : TransformRequest} (hleft : left.Valid sha256) (hright : right.Valid sha256)
include hleft hright

theorem TransformRequest.options_eq
    (h : left.options.entries.map (fun e => (e.1, e.2.value)) =
      right.options.entries.map fun e => (e.1, e.2.value)) :
    left.options = right.options := by
  have hentries : left.options.entries = right.options.entries := by
    refine eq_of_map_eq ?_ h
    intro e hentry other hother h
    obtain ⟨key, name, v⟩ := e
    obtain ⟨key', name', value'⟩ := other
    obtain ⟨rfl, rfl⟩ := Prod.mk.inj h
    obtain rfl : key = name := hleft.optionNames _ hentry
    obtain rfl : key = name' := hright.optionNames _ hother
    rfl
  generalize left.options = options at hentries ⊢
  generalize right.options = others at hentries ⊢
  cases options
  cases others
  simp_all

theorem TransformRequest.eq_of_fields {doc : ObjectDigest}
    (hdocument : canonicalTypedDocumentDigest sha256 left.document = .ok doc)
    (hdocument' : canonicalTypedDocumentDigest sha256 right.document = .ok doc)
    (hfields : left.fields identity doc = right.fields identity doc)
    (hcollision : ∀ bytes bytes', left.Hashes bytes → right.Hashes bytes' →
      sha256 bytes = sha256 bytes' → bytes = bytes') : left = right := by
  simp only [canonicalTypedDocumentDigest, bind_ok, pure_ok] at hdocument hdocument'
  obtain ⟨bytes, hbytes, hhash⟩ := hdocument
  obtain ⟨bytes', hbytes', hhash'⟩ := hdocument'
  obtain rfl := hcollision bytes bytes' (.inl hbytes) (.inl hbytes') (hhash.trans hhash'.symm)
  have hdocuments := documents_eq hbytes hbytes'
  simp only [fields, RequestFields.mk.injEq, true_and] at hfields
  obtain ⟨hoptions, hresources⟩ := hfields
  have hoptionMap := options_eq hleft hright hoptions
  have hresourceEntries : left.resources.entries = right.resources.entries := by
    refine eq_of_map_eq ?_ hresources
    intro e hentry other hother h
    have hhash : sha256 e.2.bytes = sha256 other.2.bytes := by
      rw [hleft.resourceDigests _ hentry, hright.resourceDigests _ hother]
      exact (Prod.mk.inj (Prod.mk.inj h).2).1
    have hsame := hcollision _ _ (.inr ⟨e, hentry, rfl⟩) (.inr ⟨other, hother, rfl⟩) hhash
    obtain ⟨key, name, d, bytes⟩ := e
    obtain ⟨key', name', digest', bytes'⟩ := other
    obtain ⟨rfl, hrest⟩ := Prod.mk.inj h
    obtain ⟨rfl, -⟩ := Prod.mk.inj hrest
    obtain rfl : key = name := hleft.resourceNames _ hentry
    obtain rfl : key = name' := hright.resourceNames _ hother
    obtain rfl : bytes = bytes' := hsame
    rfl
  have hversion := hleft.version.trans hright.version.symm
  obtain ⟨version, leftDocument, options, ⟨resources, hsorted⟩⟩ := left
  obtain ⟨version', rightDocument, options', ⟨resources', hsorted'⟩⟩ := right
  obtain rfl : version = version' := hversion
  obtain rfl : leftDocument = rightDocument := hdocuments
  obtain rfl : options = options' := hoptionMap
  obtain rfl : resources = resources' := hresourceEntries
  rfl

end

end Requests

/-! ## 3. Responses -/

theorem contributionName_short (name : ContributionName) : ShortText name.val := by
  have hshape := name.property
  simp only [contributionNameShape, Bool.and_eq_true, decide_eq_true_eq] at hshape
  exact shortText_of_byteLen hshape.1 (by decide)

theorem packPath_short (path : Object.PackPath) : ShortText path.val := by
  have hvalid := path.property
  simp only [validatePackPath, bind_ok, exists_unit, reject_ok, not_lt] at hvalid
  exact shortText_of_byteLen hvalid.2.1 (by decide)

theorem putLabel_delimited :
    Delimited (fun _ => True) fun name : ContributionName => putText name.val :=
  (putText_delimited.comap Subtype.val_injective).mono fun name _ => contributionName_short name

theorem putPath_delimited :
    Delimited (fun _ => True) fun path : Object.PackPath => putText path.val :=
  (putText_delimited.comap Subtype.val_injective).mono fun path _ => packPath_short path

theorem putSource_delimited :
    Delimited (fun _ => True) fun loc : SourceLocation =>
      putText loc.document.label.val ++ (putDigest loc.document.identity ++
        (putText loc.document.path.val ++ (putU32 loc.range.start ++
          putU32 loc.range.stop))) := by
  have hparts := putLabel_delimited.seq (putDigest_delimited.seq (putPath_delimited.seq
    (putU32_delimited.seq putU32_delimited)))
  have hlocation := hparts.comap
    (f := fun loc : SourceLocation => (loc.document.label, loc.document.identity,
      loc.document.path, loc.range.start, loc.range.stop)) (by
    intro left right h
    obtain ⟨⟨label, identity, path⟩, start, stop, hord⟩ := left
    obtain ⟨⟨label', identity', path'⟩, start', stop', hord'⟩ := right
    simp_all)
  exact hlocation.mono fun loc _ => ⟨trivial, trivial, trivial, trivial, trivial⟩

theorem putOutput_delimited :
    Delimited (fun _ => True) fun range : TransformOutputRange =>
      putU64 range.start ++ putU64 range.stop := by
  have hrange := (putU64_delimited.seq putU64_delimited).comap
    (f := fun range : TransformOutputRange => (range.start, range.stop)) (by
    intro left right h
    cases left
    cases right
    simp_all)
  exact hrange.mono fun range _ => ⟨trivial, trivial⟩

theorem putLocation_delimited : Delimited (fun _ => True) putLocation where
  ends := by
    intro left right rest rest' _ _ happend
    cases left with
    | none =>
      cases right with
      | none => exact ⟨rfl, (cons.inj happend).2⟩
      | some loc => cases loc <;> exact absurd happend (tag_ne (by decide))
    | some loc =>
      cases right with
      | none => cases loc <;> exact absurd happend (tag_ne (by decide))
      | some other =>
        cases loc with
        | source loc =>
          cases other with
          | source other =>
            obtain ⟨rfl, hrest⟩ := putSource_delimited.ends trivial trivial (cons.inj happend).2
            exact ⟨rfl, hrest⟩
          | output range => exact absurd happend (tag_ne (by decide))
        | output range =>
          cases other with
          | source other => exact absurd happend (tag_ne (by decide))
          | output other =>
            obtain ⟨rfl, hrest⟩ := putOutput_delimited.ends trivial trivial (cons.inj happend).2
            exact ⟨rfl, hrest⟩

theorem severity_delimited :
    Delimited (fun _ => True) fun severity : RichDiagnosticSeverity => [severity.byte] := by
  refine Delimited.fixed (fun _ => rfl) fun left right _ _ h => ?_
  cases left <;> cases right <;> simp_all [RichDiagnosticSeverity.byte]

theorem putDiagnostic_delimited : Delimited (fun _ => True) putDiagnostic := by
  have hparts := severity_delimited.seq (putName_delimited.seq (putText_delimited.seq
    (putLocation_delimited.seq putText_delimited.counted)))
  have hdiagnostic := hparts.comap
    (f := fun diagnostic : RichDiagnostic => (diagnostic.severity, diagnostic.code,
      diagnostic.message, diagnostic.primary, diagnostic.notes)) (by
    intro left right h
    cases left
    cases right
    simp_all)
  refine hdiagnostic.mono fun diagnostic _ => ?_
  have hvalid := diagnostic.valid
  simp only [checkDiagnostic, checkRichLimit, bind_ok, exists_unit, forM_ok,
    reject_ok, not_lt] at hvalid
  obtain ⟨hmessage, hcount, hnotes, -⟩ := hvalid
  exact ⟨trivial, trivial, shortText_of_byteLen hmessage (by decide), trivial,
    lt_of_le_of_lt hcount (by decide),
    fun note hnote => shortText_of_byteLen (hnotes note hnote) (by decide)⟩

/-- What is written of a response behind its domain and version. -/
def responseFields (response : TransformResponse) : List UInt8 :=
  putText response.mediaType ++ (putBytes response.output ++
    counted putDiagnostic response.diagnostics)

theorem responseFields_delimited :
    Delimited (fun response => ShortText response.mediaType ∧
      response.output.length < 256 ^ 8 ∧ response.diagnostics.length < 256 ^ 8) responseFields := by
  have hparts := putText_delimited.seq (putBytes_delimited.seq putDiagnostic_delimited.counted)
  have hfields := hparts.comap
    (f := fun response : TransformResponse => (response.mediaType, response.output,
      response.diagnostics)) (by
    intro left right h
    cases left
    cases right
    simp_all)
  exact hfields.mono fun response hfits =>
    ⟨hfits.1, hfits.2.1, hfits.2.2, fun _ _ => trivial⟩

theorem responsePreimage_ok {response : TransformResponse} {bytes : List UInt8}
    (h : formatTransformResponsePreimage response = .ok bytes) :
    bytes = putText "malm-format-transform-response".toList ++ (putU32 formatTransformVersion ++
        responseFields response) ∧
      ShortText response.mediaType ∧ response.output.length < 256 ^ 8 ∧
        response.diagnostics.length < 256 ^ 8 := by
  simp only [formatTransformResponsePreimage, TransformResponse.validateShape, checkTransformLimit,
    checkRichLimit, bind_ok, exists_unit, mapError_ok, reject_ok, pure_ok, not_lt, not_not] at h
  obtain ⟨⟨houtput, hmedia, canonical, hcanon, -, -⟩, rfl⟩ := h
  simp only [canonicalDiagnostics, checkTransformLimit, checkRichLimit, bind_ok,
    exists_unit, mapError_ok, reject_ok, not_lt] at hcanon
  have hshape : validMediaType response.mediaType = true := by simpa using hmedia
  simp only [validMediaType, Bool.and_eq_true, decide_eq_true_eq] at hshape
  refine ⟨?_, shortText_of_byteLen hshape.1.1.2 (by decide), lt_of_le_of_lt houtput (by decide),
    lt_of_le_of_lt hcanon.1 (by decide)⟩
  simp only [responseFields, counted, items, putLen]

/-! ## 4. Injectivity -/

/-- **Transform identities are injective.** Requests with one preimage have the same fields,
unless the hash of a document or a resource collides; responses are the same. -/
theorem transformIdentities_injective (sha256 : List UInt8 → ObjectDigest) :
    (∀ (identity identity' : TransformIdentity) (request request' : TransformRequest)
        (bytes : List UInt8),
      formatTransformRequestPreimage sha256 identity request = .ok bytes →
      formatTransformRequestPreimage sha256 identity' request' = .ok bytes →
        identity = identity' ∧
        canonicalTypedDocumentDigest sha256 request.document =
          canonicalTypedDocumentDigest sha256 request'.document ∧
        request.options = request'.options ∧
        request.resources.entries.map (fun entry => (entry.1, entry.2.digest)) =
          request'.resources.entries.map (fun entry => (entry.1, entry.2.digest)) ∧
        ((∀ hashed hashed', request.Hashes hashed → request'.Hashes hashed' →
          sha256 hashed = sha256 hashed' → hashed = hashed') → request = request')) ∧
    ∀ (response response' : TransformResponse) (bytes : List UInt8),
      formatTransformResponsePreimage response = .ok bytes →
      formatTransformResponsePreimage response' = .ok bytes → response = response' := by
  constructor
  · intro identity identity' request request' bytes h h'
    obtain ⟨doc, hdocument, hbytes, hfits, hvalid, hversion⟩ := requestPreimage_ok h
    obtain ⟨document', hdocument', hbytes', hfits', hvalid', hversion'⟩ := requestPreimage_ok h'
    have hfields := requestFields_delimited.of_isPrefix hfits hfits'
      (append_cancel_left (append_cancel_left (hbytes.symm.trans hbytes')) ▸
        prefix_refl _)
    have hparts := hfields
    simp only [fields, RequestFields.mk.injEq] at hparts
    obtain ⟨hname, himplementation, hsame, hoptions, hresources⟩ := hparts
    have hidentity : identity = identity' := by
      cases identity
      cases identity'
      simp_all
    subst hidentity
    subst hsame
    refine ⟨rfl, hdocument.trans hdocument'.symm,
      options_eq hvalid hvalid' hoptions, ?_,
      eq_of_fields hvalid hvalid' hdocument hdocument' hfields⟩
    have hdigests := congrArg (map fun field => (field.1, field.2.1)) hresources
    simpa only [map_map, Function.comp_def] using hdigests
  · intro response response' bytes h h'
    obtain ⟨hbytes, hfits⟩ := responsePreimage_ok h
    obtain ⟨hbytes', hfits'⟩ := responsePreimage_ok h'
    exact responseFields_delimited.of_isPrefix hfits hfits'
      (append_cancel_left (append_cancel_left (hbytes.symm.trans hbytes')) ▸
        prefix_refl _)

end Malm.Config
