/-
Malm.Store.CatalogTheorems — the catalog as a finite map (`state.rs`).

The functions of the catalog search a vector of heads, change it, and build it
anew. On a sorted vector of distinct namespaces a run of calls is a run of updates
of the map (`catalog_run`). The heads a catalog may have always fit into its byte
limit, so the decoder accepts what was written.
-/
import Malm.Lib.SortedList
import Malm.Lib.StableSort
import Malm.Pack.LockWireTheorems

namespace Malm.Store

open Bytes SortedList StableSort Checks List Option NamespaceHead Json Pack

variable {heads : List NamespaceHead} {name : NamespaceName}

/-! ## 1. The vector -/

/-- `StateCatalogV1`, with whatever heads and version. -/
structure CatalogDocument where
  schemaVersion : Nat
  heads : List NamespaceHead
deriving DecidableEq

def stateCatalogSchemaVersion : Nat := 1

/-- `StateCatalogError`, with the errors of the decoder. -/
inductive CatalogError where
  | tooLarge (limit actual : Nat)
  | invalidJson
  | unsupportedVersion (expected found : Nat)
  | nonCanonical
  | tooManyHeads (limit actual : Nat)
  | duplicateNamespace (namespaceName : NamespaceName)
  | headsNotSorted
deriving DecidableEq

def headJson (head : NamespaceHead) : Json :=
  .object [Pack.jsonField "namespace" (.string head.namespaceName),
    Pack.jsonField "generation" (Pack.digestJson head.generation)]

def catalogJson (catalog : CatalogDocument) : Json :=
  .object [Pack.jsonField "schema_version" (.number catalog.schemaVersion),
    Pack.jsonField "heads" (.array (catalog.heads.map headJson))]

def encodeStateCatalog (catalog : CatalogDocument) : List UInt8 :=
  utf8 ((catalogJson catalog).compact ++ ['\n'])

def validateHeadPairs : List NamespaceHead → Except CatalogError Unit
  | left :: right :: rest => do
    reject (left.namespaceName = right.namespaceName)
      (.duplicateNamespace left.namespaceName)
    reject (right.namespaceName < left.namespaceName) .headsNotSorted
    validateHeadPairs (right :: rest)
  | _ => .ok ()

def validateCatalogHeads (heads : List NamespaceHead) : Except CatalogError Unit := do
  reject (maxStateCatalogHeads < heads.length)
    (.tooManyHeads maxStateCatalogHeads heads.length)
  validateHeadPairs heads

namespace CatalogDocument

def new (heads : List NamespaceHead) : Except CatalogError CatalogDocument := do
  reject (maxStateCatalogHeads < heads.length)
    (.tooManyHeads maxStateCatalogHeads heads.length)
  let heads := sortBy NamespaceHead.namespaceName heads
  validateCatalogHeads heads
  let catalog : CatalogDocument := ⟨stateCatalogSchemaVersion, heads⟩
  reject (maxStateCatalogBytes < (encodeStateCatalog catalog).length)
    (.tooLarge maxStateCatalogBytes (encodeStateCatalog catalog).length)
  return catalog

def empty : CatalogDocument := ⟨stateCatalogSchemaVersion, []⟩

example : new [] = .ok empty := by decide +kernel

def generation (catalog : CatalogDocument) (namespaceName : NamespaceName) : Option Digest :=
  match search NamespaceHead.namespaceName namespaceName catalog.heads with
  | .ok index => catalog.heads[index]?.map NamespaceHead.generation
  | .error _ => none

/-- The heads that `update_head` builds a catalog of, and the replaced
generation. -/
def replaceHead (heads : List NamespaceHead) (namespaceName : NamespaceName)
    (generation : Digest) : List NamespaceHead × Option Digest :=
  match search NamespaceHead.namespaceName namespaceName heads with
  | .ok index =>
    (heads.modify index fun head => { head with generation := generation },
      heads[index]?.map NamespaceHead.generation)
  | .error index => (heads.insertIdx index ⟨namespaceName, generation⟩, none)

def updateHead (catalog : CatalogDocument) (namespaceName : NamespaceName)
    (generation : Digest) : CatalogDocument × Except CatalogError (Option Digest) :=
  let (heads, previous) := replaceHead catalog.heads namespaceName generation
  match new heads with
  | .ok next => (next, .ok previous)
  | .error error => (catalog, .error error)

def removeHead (catalog : CatalogDocument) (namespaceName : NamespaceName) :
    CatalogDocument × Option Digest :=
  match search NamespaceHead.namespaceName namespaceName catalog.heads with
  | .ok index =>
    ({ catalog with heads := catalog.heads.eraseIdx index },
      catalog.heads[index]?.map NamespaceHead.generation)
  | .error _ => (catalog, none)

end CatalogDocument

/-! ## 2. Decoding -/

def readHead (json : Json) : Option NamespaceHead := do
  match ← Pack.structFields ["namespace", "generation"] json with
  | [namespaceName, generation] =>
    return ⟨← (Pack.readString namespaceName).filter isSafeIdentifier,
      ← Pack.readDigestJson generation⟩
  | _ => none

/-- `Deserialize for StateCatalogV1`, with `deserialize_catalog_heads`. -/
def readCatalog (json : Json) : Option CatalogDocument := do
  match ← Pack.structFields ["schema_version", "heads"] json with
  | [version, heads] =>
    return ⟨← Pack.readNumberBelow (2 ^ 32) version,
      ← (Pack.readArray readHead heads).filter fun heads => heads.length ≤ maxStateCatalogHeads⟩
  | _ => none

/-- `decode_state_catalog_v1`, given the JSON parser. -/
def decodeStateCatalog (parseJson : List UInt8 → Option Json) (bytes : List UInt8) :
    Except CatalogError CatalogDocument := do
  reject (maxStateCatalogBytes < bytes.length)
    (.tooLarge maxStateCatalogBytes bytes.length)
  let catalog ← require ((parseJson bytes).bind readCatalog) .invalidJson
  reject (catalog.schemaVersion ≠ stateCatalogSchemaVersion)
    (.unsupportedVersion stateCatalogSchemaVersion catalog.schemaVersion)
  reject (encodeStateCatalog catalog ≠ bytes) .nonCanonical
  validateCatalogHeads catalog.heads
  return catalog

/-! ## 3. Calls -/

/-- A call, whose arguments `NamespaceName` and `Digest` have validated. -/
inductive CatalogCall where
  | updateHead (namespaceName : { name : NamespaceName // isSafeIdentifier name = true })
    (generation : Tree.ObjectDigest)
  | removeHead (namespaceName : { name : NamespaceName // isSafeIdentifier name = true })

namespace CatalogCall

def namespaceName : CatalogCall → NamespaceName
  | .updateHead name _ => name.val
  | .removeHead name => name.val

def run (catalog : CatalogDocument) : CatalogCall →
    CatalogDocument × Except CatalogError (Option Digest)
  | .updateHead name generation => catalog.updateHead name.val generation.val
  | .removeHead name => ((catalog.removeHead name.val).1, .ok (catalog.removeHead name.val).2)

def apply (map : NamespaceName → Option Digest) : CatalogCall → NamespaceName → Option Digest
  | .updateHead name generation => Function.update map name.val (some generation.val)
  | .removeHead name => Function.update map name.val none

end CatalogCall

def afterCalls (catalog : CatalogDocument) (calls : List CatalogCall) : CatalogDocument :=
  calls.foldl (fun catalog call => (call.run catalog).1) catalog

def successfulCalls (catalog : CatalogDocument) : List CatalogCall → List CatalogCall
  | [] => []
  | call :: rest =>
    if (call.run catalog).2.isOk then call :: successfulCalls (call.run catalog).1 rest
    else successfulCalls (call.run catalog).1 rest

/-! ## 4. Sizes -/

structure WellTypedHead (head : NamespaceHead) : Prop where
  name : isSafeIdentifier head.namespaceName = true
  digest : head.generation.value < 16 ^ 64

theorem length_escape_identifier {ch : Char}
    (h : (ch.isAlphanum || ch = '_' || ch = '-') = true) :
    (utf8 (escape ch)).length = ch.utf8Size := by
  have hall : ∀ code < 128, let ch := Char.ofNat code
      (ch.isAlphanum || ch = '_' || ch = '-') = true →
        (utf8 (escape ch)).length = ch.utf8Size := by
    decide +kernel
  have hcode : ch.toNat < 128 := by
    simp only [Char.isAlphanum, Char.isAlpha, Char.isUpper, Char.isLower, Char.isDigit,
      Bool.or_eq_true, Bool.and_eq_true, decide_eq_true_eq, ge_iff_le, UInt32.le_iff_toNat_le] at h
    rcases h with (((⟨-, h⟩ | ⟨-, h⟩) | ⟨-, h⟩) | rfl) | rfl
    · exact lt_of_le_of_lt h (by decide)
    · exact lt_of_le_of_lt h (by decide)
    · exact lt_of_le_of_lt h (by decide)
    · decide
    · decide
  have hchar := hall ch.toNat hcode
  rw [Char.ofNat_toNat] at hchar
  exact hchar h

theorem quotedSize_identifier (h : isSafeIdentifier name = true) :
    quotedSize name ≤ 130 := by
  simp only [isSafeIdentifier, Bool.and_eq_true, decide_eq_true_eq, List.all_eq_true] at h
  obtain ⟨⟨hlen, -⟩, hcharacters⟩ := h
  have hescape : (name.map fun c => (utf8 (escape c)).length) =
      name.map Char.utf8Size :=
    map_congr_left fun c hmem => length_escape_identifier (hcharacters c hmem)
  rw [quotedSize, hescape]
  exact Nat.add_le_add_right hlen 2

theorem compactSize_digestJson {d : Digest} (h : d.value < 16 ^ 64) :
    (digestJson d).compactSize = 73 := by
  have hpretty := prettySize_digestJson 0 h
  rw [digestJson, prettySize_string] at hpretty
  rw [digestJson, compactSize_string, hpretty]
  rfl

theorem compactSize_headJson {head : NamespaceHead} (h : WellTypedHead head) :
    (headJson head).compactSize ≤ 231 := by
  have hname := quotedSize_identifier h.name
  have hnamespace : quotedSize "namespace".toList = 11 := by decide
  have hgen : quotedSize "generation".toList = 12 := by decide
  simp only [headJson, compactSize_object, rowSize, compactFieldSize, jsonField, compactSize_string,
    compactSize_digestJson h.digest, hnamespace, hgen, map_cons, map_nil, sum_cons, sum_nil,
    cons_ne_nil, if_false]
  omega

theorem length_encodeStateCatalog {catalog : CatalogDocument}
    (hver : catalog.schemaVersion = stateCatalogSchemaVersion)
    (hbound : catalog.heads.length ≤ maxStateCatalogHeads)
    (htyped : ∀ head ∈ catalog.heads, WellTypedHead head) :
    (encodeStateCatalog catalog).length ≤ maxStateCatalogBytes := by
  have hheads : (array (catalog.heads.map headJson)).compactSize ≤
      catalog.heads.length * 232 + 2 := by
    rw [Json.compactSize_array, List.map_map]
    have hrow := @Json.rowSize_le (catalog.heads.map (Json.compactSize ∘ headJson)) 231 <| by
      simpa using fun head hmem => compactSize_headJson (htyped head hmem)
    rwa [length_map] at hrow
  have hnewline : (utf8 ['\n']).length = 1 := rfl
  have hfields : quotedSize "schema_version".toList = 16 ∧
      Json.quotedSize "heads".toList = 7 := by decide
  have hnumber : (Json.number stateCatalogSchemaVersion).compactSize = 1 := by decide
  have hlimits : maxStateCatalogHeads = 4096 ∧ maxStateCatalogBytes = 4194304 := by decide
  rw [encodeStateCatalog, utf8_append, length_append, hnewline, ← compactSize]
  simp only [catalogJson, compactSize_object, rowSize, compactFieldSize, jsonField, hfields.1,
    hfields.2, hver, hnumber, map_cons, map_nil, sum_cons, sum_nil, cons_ne_nil, if_false]
  omega

/-! ## 5. Sorted vectors -/

theorem validateHeadPairs_ok :
    validateHeadPairs heads = .ok () ↔ Sorted namespaceName heads := by
  have htrans : IsTrans NamespaceHead fun left right =>
      left.namespaceName < right.namespaceName := ⟨fun _ _ _ => lt_trans⟩
  rw [Sorted, ← isChain_iff_pairwise]
  induction heads using validateHeadPairs.induct with
  | case1 left right rest ih =>
    simp only [validateHeadPairs, bind_ok, exists_unit, reject_ok, ih, isChain_cons_cons, not_lt]
    constructor
    · intro h
      obtain ⟨hne, hle, hrest⟩ := h
      exact ⟨lt_of_le_of_ne hle hne, hrest⟩
    · intro h
      obtain ⟨hlt, hrest⟩ := h
      exact ⟨hlt.ne, hlt.le, hrest⟩
  | case2 heads hshort =>
    cases heads with
    | nil => simp [validateHeadPairs]
    | cons left rest =>
      cases rest with
      | nil => simp [validateHeadPairs]
      | cons right rest => exact absurd rfl (hshort left right rest)

namespace CatalogDocument

theorem new_of_sorted (hsorted : Sorted namespaceName heads)
    (htyped : ∀ head ∈ heads, WellTypedHead head) :
    new heads =
      if heads.length ≤ maxStateCatalogHeads then .ok ⟨stateCatalogSchemaVersion, heads⟩
      else .error (.tooManyHeads maxStateCatalogHeads heads.length) := by
  have hsame : sortBy namespaceName heads = heads :=
    (List.Pairwise.imp (fun h => le_of_lt h) hsorted).insertionSort_eq
  split
  · rename_i hbound
    simp only [new, validateCatalogHeads, bind_ok, exists_unit, reject_ok, pure_ok, not_lt, hsame]
    have hsize := @length_encodeStateCatalog ⟨stateCatalogSchemaVersion, heads⟩ rfl hbound htyped
    exact ⟨hbound, ⟨hbound, validateHeadPairs_ok.2 hsorted⟩, hsize, trivial⟩
  · rename_i hmany
    rw [new, reject, if_pos (not_le.1 hmany)]
    rfl

section

variable {catalog : CatalogDocument} (hsorted : Sorted NamespaceHead.namespaceName catalog.heads)
include hsorted

theorem generation_eq :
    catalog.generation = fun name =>
      (lookup NamespaceHead.namespaceName catalog.heads name).map NamespaceHead.generation := by
  funext name
  unfold generation
  cases hsearch : search namespaceName name catalog.heads with
  | ok index =>
    dsimp only
    rw [getElem?_search hsorted hsearch]
  | error index =>
    rw [lookup_of_search_error hsorted hsearch]
    rfl

theorem replaceHead_eq (name : NamespaceName) (d : Digest) :
    replaceHead catalog.heads name d =
      (put namespaceName ⟨name, d⟩ catalog.heads, catalog.generation name) := by
  unfold replaceHead put generation
  dsimp only
  cases hsearch : search namespaceName name catalog.heads with
  | error index => rfl
  | ok index =>
    have hfound := getElem?_search hsorted hsearch
    obtain ⟨head, hmem, hname⟩ := (search_ok_iff hsorted).1 ⟨index, hsearch⟩
    rw [(lookup_eq_some hsorted).2 ⟨hmem, hname⟩] at hfound
    dsimp only
    have hmodify : (catalog.heads.modify index fun head => { head with generation := d }) =
        catalog.heads.set index ⟨name, d⟩ := by
      rw [modify_eq_set_getElem?, hfound]
      subst hname
      rfl
    rw [hmodify, hfound]

end

/-! ## 6. Catalogs that calls reach -/

/-- What every catalog that the store holds satisfies. -/
structure Valid (catalog : CatalogDocument) : Prop where
  version : catalog.schemaVersion = stateCatalogSchemaVersion
  sorted : Sorted NamespaceHead.namespaceName catalog.heads
  bounded : catalog.heads.length ≤ maxStateCatalogHeads
  typed : ∀ head ∈ catalog.heads, WellTypedHead head

theorem empty_valid : empty.Valid where
  version := rfl
  sorted := .nil
  bounded := Nat.zero_le _
  typed := fun _ hmem => absurd hmem not_mem_nil

variable {catalog : CatalogDocument}

theorem updateHead_eq (h : catalog.Valid) {d : Digest} (hhead : WellTypedHead ⟨name, d⟩) :
    let heads := put namespaceName ⟨name, d⟩ catalog.heads
    catalog.updateHead name d =
      if heads.length ≤ maxStateCatalogHeads then
        (⟨stateCatalogSchemaVersion, heads⟩, .ok (catalog.generation name))
      else (catalog, .error (.tooManyHeads maxStateCatalogHeads heads.length)) := by
  have htyped : ∀ head ∈ put namespaceName ⟨name, d⟩ catalog.heads,
      WellTypedHead head := by
    intro head hmem
    rcases (mem_put h.sorted).1 hmem with rfl | ⟨hold, -⟩
    · exact hhead
    · exact h.typed head hold
  dsimp only
  rw [updateHead, replaceHead_eq h.sorted]
  dsimp only
  rw [new_of_sorted (put_sorted h.sorted _) htyped]
  by_cases hbound : (put namespaceName ⟨name, d⟩ catalog.heads).length ≤
      maxStateCatalogHeads
  · rw [if_pos hbound, if_pos hbound]
  · rw [if_neg hbound, if_neg hbound]

theorem removeHead_eq (h : catalog.Valid) (name : NamespaceName) :
    ∃ heads, catalog.removeHead name =
        (⟨stateCatalogSchemaVersion, heads⟩, catalog.generation name) ∧
      heads.Sublist catalog.heads ∧
      ∀ other, lookup namespaceName heads other =
        if other = name then none else lookup namespaceName catalog.heads other := by
  unfold removeHead generation
  cases hsearch : search namespaceName name catalog.heads with
  | ok index =>
    refine ⟨catalog.heads.eraseIdx index, ?_, eraseIdx_sublist _ _, ?_⟩
    · rw [← h.version]
    · intro other
      rw [lookup_eraseIdx h.sorted hsearch]
      by_cases hother : other = name
      · subst hother
        simp
      · simp [hother]
  | error index =>
    refine ⟨catalog.heads, ?_, List.Sublist.refl _, ?_⟩
    · rw [← h.version]
    · intro other
      split
      · rename_i hother
        rw [hother, lookup_of_search_error h.sorted hsearch]
      · rfl

theorem removeHead_none (h : catalog.Valid) (hnone : (catalog.removeHead name).2 = none) :
    (catalog.removeHead name).1 = catalog := by
  unfold removeHead at hnone ⊢
  cases hsearch : search namespaceName name catalog.heads with
  | error index => rfl
  | ok index =>
    obtain ⟨head, hmem, hname⟩ := (search_ok_iff h.sorted).1 ⟨index, hsearch⟩
    simp only [hsearch, getElem?_search h.sorted hsearch,
      (lookup_eq_some h.sorted).2 ⟨hmem, hname⟩, map_some] at hnone
    cases hnone

end CatalogDocument

/-- One call: the map changes as the call says and the old value is returned, or nothing
changes. -/
structure CallSpec (catalog next : CatalogDocument) (call : CatalogCall)
    (result : Except CatalogError (Option Digest)) : Prop where
  valid : next.Valid
  success : result.isOk = true →
    result = .ok (catalog.generation call.namespaceName) ∧
      next.generation = call.apply catalog.generation
  failure : result.isOk = false → next = catalog

variable {catalog : CatalogDocument}

theorem CatalogCall.run_spec (h : catalog.Valid) (call : CatalogCall) :
    CallSpec catalog (call.run catalog).1 call (call.run catalog).2 := by
  cases call with
  | updateHead name gen =>
    have hhead : WellTypedHead ⟨name.val, gen.val⟩ := ⟨name.property, gen.property⟩
    have hsorted := put_sorted h.sorted ⟨name.val, gen.val⟩
    have hupdate := CatalogDocument.updateHead_eq h hhead
    dsimp only at hupdate
    rw [run, hupdate]
    split
    · rename_i hbound
      refine ⟨⟨rfl, hsorted, hbound, ?_⟩, fun _ => ⟨rfl, ?_⟩,
        fun hfailed => by cases hfailed⟩
      · intro head hmem
        rcases (mem_put h.sorted).1 hmem with rfl | ⟨hold, -⟩
        · exact hhead
        · exact h.typed head hold
      · rw [CatalogDocument.generation_eq hsorted, CatalogDocument.generation_eq h.sorted]
        funext other
        dsimp only
        rw [lookup_put h.sorted, apply]
        by_cases hother : other = name.val
        · subst hother
          simp
        · simp [hother]
    · refine ⟨h, ?_, fun _ => rfl⟩
      intro hok
      cases hok
  | removeHead name =>
    obtain ⟨heads, hremove, hsub, hlookup⟩ := CatalogDocument.removeHead_eq h name.val
    have hsorted : Sorted NamespaceHead.namespaceName heads := List.Pairwise.sublist hsub h.sorted
    rw [run, hremove]
    refine ⟨⟨rfl, hsorted, hsub.length_le.trans h.bounded,
      fun head hmem => h.typed head (hsub.subset hmem)⟩, fun _ => ⟨rfl, ?_⟩,
        fun hfailed => by cases hfailed⟩
    rw [CatalogDocument.generation_eq hsorted, CatalogDocument.generation_eq h.sorted]
    funext other
    dsimp only
    rw [hlookup, apply]
    by_cases hother : other = name.val
    · simp [hother]
    · simp [hother]

theorem afterCalls_spec (h : catalog.Valid) (calls : List CatalogCall) :
    (afterCalls catalog calls).Valid ∧
      (afterCalls catalog calls).generation =
        (successfulCalls catalog calls).foldl CatalogCall.apply catalog.generation := by
  induction calls generalizing catalog with
  | nil => exact ⟨h, rfl⟩
  | cons call rest ih =>
    have hcall := call.run_spec h
    obtain ⟨hvalid, hmap⟩ := ih hcall.valid
    refine ⟨hvalid, hmap.trans ?_⟩
    rw [successfulCalls]
    split
    · rename_i hok
      rw [foldl_cons, (hcall.success hok).2]
    · rename_i hfailed
      rw [hcall.failure (by simpa using hfailed)]

/-! ## 7. Decoding what was encoded -/

theorem readHead_headJson {head : NamespaceHead} (h : WellTypedHead head) :
    readHead (headJson head) = some head := by
  have hfields : structFields ["namespace", "generation"] (headJson head) =
      some [.string head.namespaceName, digestJson head.generation] :=
    @structFields_object ["namespace", "generation"] [_, _] rfl (by decide)
  simp only [readHead, hfields, bind_eq_bind, Option.bind_some, readString,
    filter_some, h.name, readDigestJson_digestJson h.digest, if_true, Option.pure_def]

theorem readCatalog_catalogJson (h : catalog.Valid) :
    readCatalog (catalogJson catalog) = some catalog := by
  have hfields : structFields ["schema_version", "heads"] (catalogJson catalog) =
      some [.number catalog.schemaVersion, .array (catalog.heads.map headJson)] :=
    @structFields_object ["schema_version", "heads"] [_, _] rfl (by decide)
  have hheads : readArray readHead (.array (catalog.heads.map headJson)) =
      some catalog.heads :=
    readArray_map_all fun head hmem => readHead_headJson (h.typed head hmem)
  have hver : catalog.schemaVersion < 2 ^ 32 := by
    rw [h.version]
    decide
  simp only [readCatalog, hfields, bind_eq_bind, Option.bind_some, hheads, readNumberBelow,
    if_pos hver, filter_some, h.bounded, decide_true, if_true, Option.pure_def]

theorem decodeStateCatalog_encode {parseJson : List UInt8 → Option Json} (h : catalog.Valid)
    (hjson : parseJson (encodeStateCatalog catalog) = some (catalogJson catalog)) :
    decodeStateCatalog parseJson (encodeStateCatalog catalog) = .ok catalog := by
  simp only [decodeStateCatalog, validateCatalogHeads, bind_ok, exists_unit,
    reject_ok, require_ok, pure_ok, not_lt, not_not]
  refine ⟨length_encodeStateCatalog h.version h.bounded h.typed, catalog, ?_, h.version, rfl,
    ⟨h.bounded, validateHeadPairs_ok.2 h.sorted⟩, rfl⟩
  rw [hjson, Option.bind_some, readCatalog_catalogJson h]

/-- **The catalog is a finite map.** After any calls the heads are sorted, are what the successful
calls made, and survive their encoding. -/
theorem catalog_run {parseJson : List UInt8 → Option Json} {calls : List CatalogCall}
    {catalog : CatalogDocument} (hrun : catalog = afterCalls .empty calls)
    (hjson : parseJson (encodeStateCatalog catalog) = some (catalogJson catalog)) :
    Sorted NamespaceHead.namespaceName catalog.heads ∧
      catalog.generation =
        (successfulCalls .empty calls).foldl CatalogCall.apply (fun _ => none) ∧
      (∀ call : CatalogCall, (call.run catalog).2.isOk = false → (call.run catalog).1 = catalog) ∧
      (∀ name, (catalog.removeHead name).2 = none → (catalog.removeHead name).1 = catalog) ∧
      decodeStateCatalog parseJson (encodeStateCatalog catalog) = .ok catalog := by
  obtain ⟨hvalid, hmap⟩ := afterCalls_spec CatalogDocument.empty_valid calls
  rw [← hrun] at hvalid hmap
  exact ⟨hvalid.sorted, hmap, fun call => (call.run_spec hvalid).failure,
    fun _ => CatalogDocument.removeHead_none hvalid, decodeStateCatalog_encode hvalid hjson⟩

theorem digestOne_bounded : (⟨1⟩ : Digest).value < 16 ^ 64 := by decide

/-- Two namespaces, one of them updated again and the other removed. -/
def sampleCalls : List CatalogCall :=
  [.updateHead ⟨['w'], by decide⟩ ⟨⟨1⟩, digestOne_bounded⟩, .updateHead ⟨['d'], by decide⟩ ⟨⟨2⟩, by decide⟩,
    .updateHead ⟨['w'], by decide⟩ ⟨⟨3⟩, by decide⟩, .removeHead ⟨['d'], by decide⟩]

/-- The JSON parser on the catalog of these calls. -/
def sampleParseJson (bytes : List UInt8) : Option Json :=
  if bytes = encodeStateCatalog ⟨1, [⟨['w'], ⟨3⟩⟩]⟩ then
    some (catalogJson ⟨1, [⟨['w'], ⟨3⟩⟩]⟩)
  else none

theorem catalog_run_sample :
    Sorted NamespaceHead.namespaceName (afterCalls .empty sampleCalls).heads ∧
      (afterCalls .empty sampleCalls).generation =
        (successfulCalls .empty sampleCalls).foldl CatalogCall.apply (fun _ => none) ∧
      (∀ call : CatalogCall, (call.run (afterCalls .empty sampleCalls)).2.isOk = false →
        (call.run (afterCalls .empty sampleCalls)).1 = afterCalls .empty sampleCalls) ∧
      (∀ name, ((afterCalls .empty sampleCalls).removeHead name).2 = none →
        ((afterCalls .empty sampleCalls).removeHead name).1 = afterCalls .empty sampleCalls) ∧
      decodeStateCatalog sampleParseJson (encodeStateCatalog (afterCalls .empty sampleCalls)) =
        .ok (afterCalls .empty sampleCalls) := by
  have hafter : afterCalls .empty sampleCalls = ⟨1, [⟨['w'], ⟨3⟩⟩]⟩ := by
    decide +kernel
  refine catalog_run rfl ?_
  rw [hafter]
  exact if_pos rfl

end Malm.Store
