/-
Malm.Config.BindingValues — the values handed to format components
(`malm-format-component-host/src/conversion.rs`).

A nested value is flattened into one table, children before their parent. `Written` says
what a run of the recursion appends and what it reads back as. Texts stand for the
identifiers they are taken from, and of a document only the root changes its form.
-/
import Malm.Config.TransformTheorems
import Malm.Config.ValueLimits

namespace Malm.Config

open Pack Malm.Tree Checks List Nat Except TypedValue TransformRequest

/-! ## 1. The conversion -/

/-- `bindings::TypedValueV1`. -/
inductive BindingNode where
  | nullValue
  | boolean (value : Bool)
  | signed (value : Int64)
  | unsigned (value : UInt64)
  | floatingPoint (value : FiniteFloat)
  | text (value : Text)
  | path (value : Text)
  | listValue (values : List UInt32)
  | recordValue (fields : List (Text × UInt32))
  | collectionValue (fields : List (Text × UInt32))

structure BindingValue where
  root : UInt32
  values : List BindingNode

/-- The end of `push_value`, with the `expect` that fails where the index is no `u32`. -/
def pushNode (node : BindingNode) (values : List BindingNode) :
    Except String (UInt32 × List BindingNode) := do
  reject (2 ^ 32 ≤ values.length) "validated transform values fit in u32"
  return (UInt32.ofNat values.length, values ++ [node])

mutual

def pushValue : TypedValue → List BindingNode → Except String (UInt32 × List BindingNode)
  | .null, values => pushNode .nullValue values
  | .boolean value, values => pushNode (.boolean value) values
  | .integer value, values => pushNode (.signed value) values
  | .unsigned value, values => pushNode (.unsigned value) values
  | .float value, values => pushNode (.floatingPoint value) values
  | .string value, values => pushNode (.text value) values
  | .path value, values => pushNode (.path value.val) values
  | .list items, values => do
    let (ids, values) ← pushItems items values
    pushNode (.listValue ids) values
  | .record entries, values => do
    let (fields, values) ← pushFields entries values
    pushNode (.recordValue fields) values
  | .collection entries, values => do
    let (fields, values) ← pushFields entries values
    pushNode (.collectionValue fields) values

def pushItems : List TypedValue → List BindingNode →
    Except String (List UInt32 × List BindingNode)
  | [], values => .ok ([], values)
  | first :: rest, values => do
    let (id, values) ← pushValue first values
    let (ids, values) ← pushItems rest values
    return (id :: ids, values)

def pushFields : List (RichKey × TypedValue) → List BindingNode →
    Except String (List (Text × UInt32) × List BindingNode)
  | [], values => .ok ([], values)
  | (name, first) :: rest, values => do
    let (id, values) ← pushValue first values
    let (fields, values) ← pushFields rest values
    return ((name.val, id) :: fields, values)

end

def toBindingValue (value : TypedValue) : Except String BindingValue := do
  let (root, values) ← pushValue value []
  return ⟨root, values⟩

structure BindingDocument where
  version : UInt32
  root : BindingValue
  sourceDocuments : List (CapturedDocumentId × CapturedSourceIdentity)
  includes : List IncludeProvenance
  provenance : List (RichValuePath × List ProvenanceRecord)

structure BindingRequest where
  contractVersion : UInt32
  document : BindingDocument
  options : List (Text × BindingValue)
  resources : List (Text × Text × List UInt8)

def toBindingDocument (document : CanonicalTypedDocument) : Except String BindingDocument := do
  let root ← toBindingValue document.root
  return ⟨document.version, root, document.sourceDocuments.entries, document.includes,
    document.provenance.entries⟩

def toBindingOption (entry : RichName × TransformOption) : Except String (Text × BindingValue) := do
  let value ← toBindingValue entry.2.value
  return (entry.2.name.val, value)

def toBindingRequest (request : TransformRequest) : Except String BindingRequest := do
  let document ← toBindingDocument request.document
  let options ← request.options.entries.mapM toBindingOption
  return ⟨request.contractVersion, document, options, request.resources.entries.map fun entry =>
    (entry.2.name.val, digestText entry.2.digest.val, entry.2.bytes)⟩

/-! ## 2. Tables -/

def BindingNode.references : BindingNode → List UInt32
  | .listValue values => values
  | .recordValue fields => fields.map Prod.snd
  | .collectionValue fields => fields.map Prod.snd
  | _ => []

/-- Nodes that stand in a table from an index on: they refer backwards, and every one of
them is referred to once, by another one or as one of the roots. -/
structure Stretch (start : Nat) (nodes : List BindingNode) (roots : List UInt32) : Prop where
  backward : ∀ (index : Nat) (node : BindingNode), nodes[index]? = some node →
    ∀ id ∈ node.references, id.toNat < start + index
  once : ((nodes.flatMap BindingNode.references ++ roots).map UInt32.toNat).Perm
    (List.range' start nodes.length)

variable {start size : Nat} {nodes values after : List BindingNode} {roots : List UInt32}
  {node : BindingNode} {value : TypedValue} {Reads : (UInt32 → Option TypedValue) → Prop}

theorem stretch_nil : Stretch start [] [] :=
  ⟨fun _ _ h => by simp at h, by simp⟩

theorem Stretch.append {others : List BindingNode} {ids : List UInt32}
    (h : Stretch start nodes roots) (hothers : Stretch (start + nodes.length) others ids) :
    Stretch start (nodes ++ others) (roots ++ ids) := by
  constructor
  · intro index node hget id hid
    by_cases hindex : index < nodes.length
    · rw [getElem?_append_left hindex] at hget
      exact h.backward index node hget id hid
    · rw [getElem?_append_right (by omega)] at hget
      have hlt := hothers.backward _ node hget id hid
      omega
  · have hrange : range' start (nodes ++ others).length =
        range' start nodes.length ++ range' (start + nodes.length) others.length := by
      rw [length_append, range'_append_1]
    rw [hrange]
    refine List.Perm.trans ?_ (h.once.append hothers.once)
    rw [← map_append, flatMap_append]
    refine List.Perm.map _ ?_
    rw [append_assoc, append_assoc, ← append_assoc _ roots, ← append_assoc roots]
    exact (perm_append_comm.append_right ids).append_left _

theorem Stretch.concat (h : Stretch start nodes node.references)
    (hfits : start + nodes.length < 2 ^ 32) :
    Stretch start (nodes ++ [node]) [UInt32.ofNat (start + nodes.length)] := by
  constructor
  · intro index other hget id hid
    by_cases hindex : index < nodes.length
    · rw [getElem?_append_left hindex] at hget
      exact h.backward index other hget id hid
    · rw [getElem?_append_right (by omega), getElem?_singleton] at hget
      split at hget
      · obtain rfl := Option.some.inj hget
        have hmem := h.once.mem_iff.1
          (mem_map_of_mem (mem_append_right _ hid))
        have hbound := (mem_range'_1.1 hmem).2
        omega
      · cases hget
  · have hid : (UInt32.ofNat (start + nodes.length)).toNat = start + nodes.length := by
      rw [UInt32.toNat_ofNat', mod_eq_of_lt hfits]
    have hrefs : ([node].flatMap BindingNode.references) = node.references := by simp
    rw [flatMap_append, hrefs, map_append, map_singleton, hid,
      length_append, length_singleton, range'_1_concat]
    exact h.once.append_right _

/-! ## 3. Rebuilding -/

def rebuildField (follow : UInt32 → Option TypedValue) (field : Text × UInt32) :
    Option (RichKey × TypedValue) := do
  let value ← follow field.2
  if h : validateRichKey field.1 = .ok () then some (⟨field.1, h⟩, value) else none

def rebuildNode (follow : UInt32 → Option TypedValue) : BindingNode → Option TypedValue
  | .nullValue => some .null
  | .boolean value => some (.boolean value)
  | .signed value => some (.integer value)
  | .unsigned value => some (.unsigned value)
  | .floatingPoint value => some (.float value)
  | .text value => some (.string value)
  | .path value => if h : validateTargetPath value = .ok () then some (.path ⟨value, h⟩) else none
  | .listValue values => (values.mapM follow).map .list
  | .recordValue fields => (fields.mapM (rebuildField follow)).map .record
  | .collectionValue fields => (fields.mapM (rebuildField follow)).map .collection

/-- The value at an index, through as many references as there is fuel. -/
def rebuild (table : List BindingNode) : Nat → UInt32 → Option TypedValue
  | 0, _ => none
  | fuel + 1, id => table[id.toNat]?.bind (rebuildNode (rebuild table fuel))

/-- What the recursion makes of a table: it appends nodes, and the indices of the roots
among them read back as `Reads` says, in every table that goes on like this one. -/
def Written (values after : List BindingNode) (roots : List UInt32) (size : Nat)
    (Reads : (UInt32 → Option TypedValue) → Prop) : Prop :=
  (∃ nodes, after = values ++ nodes ∧ Stretch values.length nodes roots ∧ nodes.length = size) ∧
    ∀ table fuel, after <+: table → after.length ≤ fuel → Reads (rebuild table fuel)

theorem Written.length_eq (h : Written values after roots size Reads) :
    after.length = values.length + size := by
  obtain ⟨⟨nodes, rfl, -, rfl⟩, -⟩ := h
  exact length_append

theorem written_nil (h : ∀ follow, Reads follow) : Written values values [] 0 Reads :=
  ⟨⟨[], (append_nil values).symm, stretch_nil, rfl⟩, fun _ _ _ _ => h _⟩

theorem Written.trans {last : List BindingNode} {ids : List UInt32} {more : Nat}
    {Others Both : (UInt32 → Option TypedValue) → Prop}
    (h : Written values after roots size Reads) (hlast : Written after last ids more Others)
    (hboth : ∀ follow, Reads follow → Others follow → Both follow) :
    Written values last (roots ++ ids) (size + more) Both := by
  obtain ⟨⟨nodes, rfl, hnodes, rfl⟩, hreads⟩ := h
  obtain ⟨⟨others, rfl, hothers, rfl⟩, hrest⟩ := hlast
  rw [length_append] at hothers
  refine ⟨⟨nodes ++ others, append_assoc .., hnodes.append hothers, length_append⟩, ?_⟩
  intro table fuel htable hfuel
  have hbefore := (prefix_append _ others).trans htable
  have hshort := (prefix_append (values ++ nodes) others).length_le.trans hfuel
  exact hboth _ (hreads table fuel hbefore hshort) (hrest table fuel htable hfuel)

theorem Written.push (node : BindingNode) (h : Written values after node.references size Reads)
    (hreads : ∀ follow, Reads follow → rebuildNode follow node = some value)
    (hfits : values.length + (1 + size) ≤ 2 ^ 32) :
    ∃ id last, pushNode node after = .ok (id, last) ∧
      Written values last [id] (1 + size) (fun follow => follow id = some value) ∧
        id.toNat + 1 = last.length := by
  have hlen := h.length_eq
  obtain ⟨⟨nodes, rfl, hnodes, rfl⟩, hfollow⟩ := h
  have hid : (UInt32.ofNat (values ++ nodes).length).toNat = (values ++ nodes).length := by
    rw [UInt32.toNat_ofNat']
    exact mod_eq_of_lt (by omega)
  refine ⟨UInt32.ofNat (values ++ nodes).length, values ++ nodes ++ [node], ?_, ⟨?_, ?_⟩, ?_⟩
  · rw [pushNode, bind_unit_ok, reject_ok, not_le]
    exact ⟨by omega, rfl⟩
  · refine ⟨nodes ++ [node], append_assoc .., ?_, ?_⟩
    · rw [length_append]
      exact hnodes.concat (by omega)
    · rw [length_append, length_singleton, add_comm]
  · intro table fuel htable hfuel
    rw [length_append, length_singleton] at hfuel
    obtain ⟨less, rfl⟩ := exists_eq_succ_of_ne_zero (by omega : fuel ≠ 0)
    have hbefore := hfollow table less ((prefix_append _ [node]).trans htable) (by omega)
    have hget : table[(values ++ nodes).length]? = some node := by
      obtain ⟨rest, rfl⟩ := htable
      rw [append_assoc, getElem?_append_right le_rfl, Nat.sub_self]
      rfl
    rw [rebuild, hid, hget]
    exact hreads _ hbefore
  · rw [hid]
    simp only [length_append, length_singleton]

theorem written_leaf (hleaf : node.references = [])
    (hreads : ∀ follow, rebuildNode follow node = some value)
    (hfits : values.length + 1 ≤ 2 ^ 32) :
    ∃ id last, pushNode node values = .ok (id, last) ∧
      Written values last [id] 1 (fun follow => follow id = some value) ∧
        id.toNat + 1 = last.length := by
  have h : Written values values node.references 0 fun _ => True :=
    hleaf ▸ written_nil fun _ => trivial
  exact h.push node (fun follow _ => hreads follow) hfits

mutual

theorem pushValue_written : ∀ (value : TypedValue) (values : List BindingNode),
    values.length + value.size ≤ 2 ^ 32 → ∃ id after, pushValue value values = .ok (id, after) ∧
      Written values after [id] value.size (fun follow => follow id = some value) ∧
        id.toNat + 1 = after.length
  | .null, _, h | .boolean _, _, h | .integer _, _, h | .unsigned _, _, h | .float _, _, h
  | .string _, _, h => by
    rw [TypedValue.size] at h ⊢
    · exact written_leaf rfl (fun _ => rfl) h
    all_goals simp
  | .path value, _, h => by
    rw [TypedValue.size] at h ⊢
    · exact written_leaf rfl (fun _ => dif_pos value.2) h
    all_goals simp
  | .list items, values, h => by
    rw [TypedValue.size] at h ⊢
    obtain ⟨ids, after, hitems, hwritten⟩ := pushItems_written items values (by omega)
    rw [pushValue, hitems]
    exact hwritten.push (.listValue ids) (fun _ hids => by rw [rebuildNode, hids]; rfl) h
  | .record es, values, h => by
    rw [TypedValue.size] at h ⊢
    obtain ⟨fields, after, hfields, hwritten⟩ := pushFields_written es values (by omega)
    rw [pushValue, hfields]
    exact hwritten.push (.recordValue fields)
      (fun _ hread => by rw [rebuildNode, hread]; rfl) h
  | .collection es, values, h => by
    rw [TypedValue.size] at h ⊢
    obtain ⟨fields, after, hfields, hwritten⟩ := pushFields_written es values (by omega)
    rw [pushValue, hfields]
    exact hwritten.push (.collectionValue fields)
      (fun _ hread => by rw [rebuildNode, hread]; rfl) h

theorem pushItems_written : ∀ (items : List TypedValue) (values : List BindingNode),
    values.length + itemsSize items ≤ 2 ^ 32 →
      ∃ ids after, pushItems items values = .ok (ids, after) ∧
        Written values after ids (itemsSize items)
          (fun follow => ids.mapM follow = some items)
  | [], values, _ => ⟨[], values, rfl, written_nil fun _ => rfl⟩
  | first :: rest, values, h => by
    rw [itemsSize] at h ⊢
    obtain ⟨id, after, hfirst, hid, -⟩ := pushValue_written first values (by omega)
    have hlen := hid.length_eq
    obtain ⟨ids, last, hrest, hids⟩ := pushItems_written rest after (by omega)
    refine ⟨id :: ids, last, by simp only [pushItems, hfirst, ok_bind, hrest, pure_eq], ?_⟩
    refine hid.trans hids fun follow hvalue hitems => ?_
    rw [mapM_cons, hvalue, hitems]
    rfl

theorem pushFields_written : ∀ (es : List (RichKey × TypedValue))
    (values : List BindingNode), values.length + entriesSize es ≤ 2 ^ 32 →
      ∃ fields after, pushFields es values = .ok (fields, after) ∧
        Written values after (fields.map Prod.snd) (entriesSize es)
          (fun follow => fields.mapM (rebuildField follow) = some es)
  | [], values, _ => ⟨[], values, rfl, written_nil fun _ => rfl⟩
  | (name, first) :: rest, values, h => by
    rw [entriesSize] at h ⊢
    obtain ⟨id, after, hfirst, hid, -⟩ := pushValue_written first values (by omega)
    have hlen := hid.length_eq
    obtain ⟨fields, last, hrest, hfields⟩ := pushFields_written rest after (by omega)
    refine ⟨(name.val, id) :: fields, last,
      by simp only [pushFields, hfirst, ok_bind, hrest, pure_eq], ?_⟩
    refine hid.trans hfields fun follow hvalue hentries => ?_
    have hfield : rebuildField follow (name.val, id) = some (name, first) := by
      rw [rebuildField, hvalue]
      exact dif_pos name.2
    rw [mapM_cons, hfield, hentries]
    rfl

end

def BindingValue.rebuilt (binding : BindingValue) : Option TypedValue :=
  rebuild binding.values binding.values.length binding.root

/-! ## 4. Requests -/

/-- The table of a value holds its nodes, and nothing else. -/
structure Complete (value : TypedValue) (binding : BindingValue) : Prop where
  size : binding.values.length = value.size
  backward : ∀ (index : Nat) (node : BindingNode), binding.values[index]? = some node →
    ∀ id ∈ node.references, id.toNat < index
  once : ((binding.values.flatMap BindingNode.references).map UInt32.toNat).Perm
    (List.range (binding.values.length - 1))
  last : binding.root.toNat + 1 = binding.values.length
  rebuilt : binding.rebuilt = some value

theorem toBindingValue_complete (h : value.size ≤ 2 ^ 32) :
    ∃ binding, toBindingValue value = .ok binding ∧ Complete value binding := by
  obtain ⟨id, after, hpush, ⟨⟨nodes, hnodes, hstretch, hsize⟩, hreads⟩, hlast⟩ :=
    pushValue_written value [] (by rwa [length_nil, zero_add])
  rw [nil_append] at hnodes
  subst hnodes
  refine ⟨⟨id, after⟩, by rw [toBindingValue, hpush]; rfl, hsize, ?_, ?_, hlast,
    hreads after _ prefix_rfl le_rfl⟩
  · intro index node hget id hid
    have hlt := hstretch.backward index node hget id hid
    rwa [length_nil, zero_add] at hlt
  · have honce := hstretch.once
    rw [← hlast, length_nil, range'_1_concat, map_append, map_singleton, Nat.zero_add] at honce
    rw [← hlast, Nat.add_sub_cancel, range_eq_range']
    exact (perm_append_right_iff _).1 honce

theorem toBindingValue_of_validate (h : value.validate = .ok ()) :
    ∃ binding, toBindingValue value = .ok binding ∧ Complete value binding := by
  obtain ⟨-, -, hsize⟩ := validate_ok.1 h
  rw [maxRichTotalValues] at hsize
  exact toBindingValue_complete (by omega)

variable {sha256 : List UInt8 → ObjectDigest} {first second request : TransformRequest}

theorem toBindingRequest_rebuilt (h : request.validate sha256 = .ok ()) :
    ∃ binding, toBindingRequest request = .ok binding ∧
      binding.document.root.rebuilt = some request.document.root ∧
        binding.options.map (fun option => (option.1, option.2.rebuilt)) =
          request.options.entries.map fun e => (e.1.val, some e.2.value) := by
  have hvalid := TransformRequest.valid_of_validate h
  simp only [TransformRequest.validate, canonicalTypedDocumentBytes,
    CanonicalTypedDocument.validate, bind_ok, exists_unit, mapError_ok] at h
  obtain ⟨-, bytes, ⟨⟨-, -, hroot, -⟩, -⟩, -, optionBytes, hloop, -⟩ := h
  obtain ⟨root, hbinding, hroot⟩ := toBindingValue_of_validate hroot
  have hoption : ∀ e ∈ request.options.entries, ∃ option, toBindingOption e = .ok option ∧
      (option.1, option.2.rebuilt) = (e.1.val, some e.2.value) := by
    intro e hentry
    obtain ⟨before, after, hstep⟩ := foldlM_ok_of_mem hloop hentry
    simp only [validateOption, bind_ok, exists_unit, mapError_ok] at hstep
    obtain ⟨binding, hbinding, hcomplete⟩ := toBindingValue_of_validate hstep.2.1
    refine ⟨(e.2.name.val, binding), by rw [toBindingOption, hbinding]; rfl, ?_⟩
    rw [hvalid.optionNames e hentry, hcomplete.rebuilt]
  obtain ⟨options, hoptions⟩ := exists_mapM_ok fun e hentry =>
    (hoption e hentry).imp fun _ h => h.1
  have hrequest : ∃ binding, toBindingRequest request = .ok binding ∧
      binding.document.root = root ∧ binding.options = options := by
    rw [toBindingRequest, toBindingDocument, hbinding, hoptions]
    exact ⟨_, rfl, rfl, rfl⟩
  obtain ⟨binding, hhanded, rfl, rfl⟩ := hrequest
  refine ⟨binding, hhanded, hroot.rebuilt,
    map_of_mapM_ok hoptions fun e hentry option hbound => ?_⟩
  obtain ⟨found, hfound, hread⟩ := hoption e hentry
  rw [hbound] at hfound
  obtain rfl := ok.inj hfound
  exact hread

theorem toBindingRequest_injective (hfirst : first.validate sha256 = .ok ())
    (hsecond : second.validate sha256 = .ok ())
    (h : toBindingRequest first = toBindingRequest second) :
    first.document.root = second.document.root ∧ first.options = second.options := by
  obtain ⟨binding, hbinding, hroot, hoptions⟩ := toBindingRequest_rebuilt hfirst
  obtain ⟨other, hother, hroot', hoptions'⟩ := toBindingRequest_rebuilt hsecond
  obtain rfl := ok.inj (hbinding.symm.trans (h.trans hother))
  refine ⟨Option.some.inj (hroot.symm.trans hroot'),
    options_eq (valid_of_validate hfirst)
      (valid_of_validate hsecond) ?_⟩
  have hpairs : Function.Injective fun pair : RichName × TypedValue =>
      (pair.1.val, some pair.2) := by
    rintro ⟨name, value⟩ ⟨other, value'⟩ hsame
    obtain ⟨hname, hvalue⟩ := Prod.mk.inj hsame
    obtain rfl := Subtype.ext hname
    obtain rfl := Option.some.inj hvalue
    rfl
  refine map_injective_iff.2 hpairs ?_
  rw [map_map, map_map]
  exact hoptions.symm.trans hoptions'

/-- **The values handed to a component are complete**, and requests with different values
are handed over as different tables. -/
theorem component_values_complete (sha256 : List UInt8 → ObjectDigest) :
    (∀ value : TypedValue, value.size ≤ 2 ^ 32 →
      ∃ binding, toBindingValue value = .ok binding ∧ Complete value binding) ∧
    ∀ first second : TransformRequest, first.validate sha256 = .ok () →
      second.validate sha256 = .ok () → (∃ binding, toBindingRequest first = .ok binding) ∧
        (toBindingRequest first = toBindingRequest second →
          first.document.root = second.document.root ∧ first.options = second.options) :=
  ⟨fun _ => toBindingValue_complete, fun _ _ hfirst hsecond =>
    ⟨(toBindingRequest_rebuilt hfirst).imp fun _ h => h.1,
      toBindingRequest_injective hfirst hsecond⟩⟩

end Malm.Config
