/-
Malm.Config.RichTypeTheorems — typed resolution conforms and is idempotent
(`malm-config/src/rich.rs`).

A value that resolution returns has the shape of its type and resolves to itself, by
recursion on the type: a field that was left out holds its default, which the
constructor of the field had resolved.
-/
import Malm.Config.RichTypes

namespace Malm.Config

open Pack Pack.Object Checks List Prod SortedMap TypedValue TypedValueType

variable {r v : TypedValue} {es values : List (RichKey × TypedValue)}

variable {field : TypedRecordField TypedValueType} {item valueType : TypedValueType}

/-! ## 1. Conformance -/

/-- A value has the shape of a type; null stands only where a field is optional. -/
inductive Conforms : TypedValueType → Bool → TypedValue → Prop
  | null {valueType : TypedValueType} : Conforms valueType true .null
  | scalar {kind : TypedScalarType} {value : TypedValue} {optional : Bool} :
      scalarAccepts kind value = true → Conforms (.scalar kind) optional value
  | list {item : TypedValueType} {values : List TypedValue} {optional : Bool} :
      (∀ value ∈ values, Conforms item false value) →
      Conforms (.list item) optional (.list values)
  | collection {item : TypedValueType} {values : List (RichKey × TypedValue)} {optional : Bool} :
      (∀ entry ∈ values, Conforms item false entry.2) →
      Conforms (.collection item) optional (.collection values)
  | record {fields : List (RichKey × TypedRecordField TypedValueType)}
      {values : List (RichKey × TypedValue)} {optional : Bool} :
      values.map Prod.fst = fields.map Prod.fst →
      (∀ name field value, (name, field) ∈ fields → (name, value) ∈ values →
        Conforms field.valueType field.optional value) →
      Conforms (.record fields) optional (.record values)

def FieldConforms (field : TypedRecordField TypedValueType) (value : TypedValue) : Prop :=
  Conforms field.valueType field.optional value

/-- What a type resolves conforms to it and resolves to itself. -/
def Stable (valueType : TypedValueType) : Prop :=
  ∀ value optional result, resolveTypedValue valueType value optional = .ok result →
    Conforms valueType optional result ∧
      resolveTypedValue valueType result optional = .ok result

inductive TypedValueType.Declares : TypedValueType → TypedRecordField TypedValueType → Prop
  | here {fields : List (RichKey × TypedRecordField TypedValueType)} {name : RichKey}
      {field : TypedRecordField TypedValueType} : (name, field) ∈ fields →
      Declares (.record fields) field
  | nested {fields : List (RichKey × TypedRecordField TypedValueType)} {name : RichKey}
      {outer field : TypedRecordField TypedValueType} : (name, outer) ∈ fields →
      Declares outer.valueType field → Declares (.record fields) field
  | list {item : TypedValueType} {field : TypedRecordField TypedValueType} :
      Declares item field → Declares (.list item) field
  | collection {item : TypedValueType} {field : TypedRecordField TypedValueType} :
      Declares item field → Declares (.collection item) field

/-! ## 2. What the constructors check -/

namespace TypedValue

theorem newList_ok {values : List TypedValue} (h : newList values = .ok v) : v = .list values := by
  simp only [newList, bind_ok, exists_unit, pure_ok] at h
  exact h.2.2.symm

theorem newRecord_ok (h : newRecord values = .ok v) : v = .record values := by
  simp only [newRecord, bind_ok, exists_unit, pure_ok] at h
  exact h.2.2.symm

theorem newCollection_ok (h : newCollection values = .ok v) : v = .collection values := by
  simp only [newCollection, bind_ok, exists_unit, pure_ok] at h
  exact h.2.2.symm

end TypedValue

namespace TypedValueType

theorem newList_ok (h : newList item = .ok valueType) : valueType = .list item := by
  simp only [newList, bind_ok, exists_unit, pure_ok] at h
  exact h.2.symm

theorem newRecord_ok {fields : SortedMap RichKey (TypedRecordField TypedValueType)}
    (h : newRecord fields = .ok valueType) : valueType = .record fields.entries := by
  simp only [newRecord, bind_ok, exists_unit, pure_ok] at h
  exact h.2.2.symm

theorem newCollection_ok (h : newCollection item = .ok valueType) :
    valueType = .collection item := by
  simp only [newCollection, bind_ok, exists_unit, pure_ok] at h
  exact h.2.symm

theorem Built.list_item (h : Built (.list item)) : item.Built := by
  cases h with
  | list hitem hnew => cases newList_ok hnew; exact hitem
  | record _ hnew => cases newRecord_ok hnew
  | collection _ hnew => cases newCollection_ok hnew

theorem Built.collection_item (h : Built (.collection item)) : item.Built := by
  cases h with
  | list _ hnew => cases newList_ok hnew
  | record _ hnew => cases newRecord_ok hnew
  | collection hitem hnew => cases newCollection_ok hnew; exact hitem

theorem Built.record_fields {fields : List (RichKey × TypedRecordField TypedValueType)}
    (h : Built (.record fields)) :
    (fields.map fst).Pairwise (· < ·) ∧
      ∀ e ∈ fields, TypedRecordField.Built e.2 := by
  cases h with
  | list _ hnew => cases newList_ok hnew
  | record hfields hnew => cases newRecord_ok hnew; exact ⟨SortedMap.sorted _, hfields⟩
  | collection _ hnew => cases newCollection_ok hnew

end TypedValueType

namespace TypedRecordField

variable {default : TypedValue}

theorem newDefaulted_ok (h : newDefaulted valueType default = .ok field) :
    ∃ res, resolveTypedValue valueType default false = .ok res ∧
      field = ⟨valueType, false, some res⟩ := by
  simp only [newDefaulted, resolve, bind_ok, pure_ok] at h
  obtain ⟨res, hresolved, hfield⟩ := h
  exact ⟨res, hresolved, hfield.symm⟩

theorem newOptionalDefaulted_ok (h : newOptionalDefaulted valueType default = .ok field) :
    ∃ res, resolveTypedValue valueType default true = .ok res ∧
      field = ⟨valueType, true, some res⟩ := by
  simp only [newOptionalDefaulted, resolveOptional, bind_ok, pure_ok] at h
  obtain ⟨res, hresolved, hfield⟩ := h
  exact ⟨res, hresolved, hfield.symm⟩

theorem Built.valueType_built (h : field.Built) : field.valueType.Built := by
  cases h with
  | required hbuilt => exact hbuilt
  | optional hbuilt => exact hbuilt
  | defaulted hbuilt hnew =>
    obtain ⟨res, -, rfl⟩ := newDefaulted_ok hnew
    exact hbuilt
  | optionalDefaulted hbuilt hnew =>
    obtain ⟨res, -, rfl⟩ := newOptionalDefaulted_ok hnew
    exact hbuilt

theorem Built.default_resolved (h : field.Built) (hdefault : field.default = some default) :
    ∃ v, resolveTypedValue field.valueType v field.optional = .ok default := by
  cases h with
  | required hbuilt => cases hdefault
  | optional hbuilt => cases hdefault
  | defaulted hbuilt hnew =>
    obtain ⟨res, hresolved, rfl⟩ := newDefaulted_ok hnew
    cases hdefault
    exact ⟨_, hresolved⟩
  | optionalDefaulted hbuilt hnew =>
    obtain ⟨res, hresolved, rfl⟩ := newOptionalDefaulted_ok hnew
    cases hdefault
    exact ⟨_, hresolved⟩

end TypedRecordField

/-! ## 3. Scalars, lists and collections -/

theorem resolve_null {optional : Bool} (hnull : v.isNull = true)
    (h : resolveTypedValue valueType v optional = .ok r) :
    optional = true ∧ r = .null := by
  unfold resolveTypedValue at h
  rw [if_pos hnull] at h
  split_ifs at h with hoptional
  cases h
  exact ⟨hoptional, rfl⟩

theorem resolve_null_optional (valueType : TypedValueType) :
    resolveTypedValue valueType .null true = .ok .null := by
  unfold resolveTypedValue
  rfl

theorem stable_of_not_null (h : ∀ v optional r, v.isNull = false →
      resolveTypedValue valueType v optional = .ok r →
      Conforms valueType optional r ∧
        resolveTypedValue valueType r optional = .ok r) : Stable valueType := by
  intro v optional r hresolve
  cases hnull : v.isNull with
  | false => exact h v optional r hnull hresolve
  | true =>
    obtain ⟨rfl, rfl⟩ := resolve_null hnull hresolve
    exact ⟨.null, resolve_null_optional valueType⟩

theorem stable_scalar (kind : TypedScalarType) : Stable (.scalar kind) := by
  refine stable_of_not_null fun v optional r hnull h => ?_
  have hagain := h
  simp only [resolveTypedValue, hnull, Bool.false_eq_true, if_false] at h
  split_ifs at h with haccepts
  cases h
  exact ⟨.scalar haccepts, hagain⟩

theorem mapped_ok {α β : Type} {checked : Except RichTypeError α} {f : α → β} {result : β} :
    checked.map f = .ok result ↔ ∃ v, checked = .ok v ∧ f v = result := by
  cases checked <;> simp [Except.map]

theorem mapM_self {α : Type} {f : α → Except RichTypeError α} :
    ∀ {vs : List α}, (∀ v ∈ vs, f v = .ok v) → vs.mapM f = .ok vs
  | [], _ => rfl
  | first :: rest, h => by
    rw [mapM_cons, h first mem_cons_self,
      mapM_self fun v hvalue => h v (mem_cons_of_mem first hvalue)]
    rfl

theorem stable_list (hitem : Stable item) : Stable (.list item) := by
  refine stable_of_not_null fun v optional result hnull h => ?_
  unfold resolveTypedValue at h
  rw [if_neg (by simp [hnull])] at h
  cases v with
  | list vs =>
    simp only [bind_ok, mapError_ok] at h
    obtain ⟨results, hresults, hnew⟩ := h
    cases newList_ok hnew
    have hstable : ∀ result ∈ results, Conforms item false result ∧
        resolveTypedValue item result false = .ok result := by
      intro result hres
      obtain ⟨v, -, hvalue⟩ := exists_left_of_forall₂ (mapM_forall₂ hresults) hres
      exact hitem v false result hvalue
    refine ⟨.list fun result hres => (hstable result hres).1, ?_⟩
    unfold resolveTypedValue
    rw [if_neg (by simp [isNull])]
    simp only [bind_ok, mapError_ok]
    exact ⟨results, mapM_self fun result hres => (hstable result hres).2, hnew⟩
  | _ => cases h

theorem stable_collection (hitem : Stable item) :
    Stable (.collection item) := by
  refine stable_of_not_null fun v optional r hnull h => ?_
  unfold resolveTypedValue at h
  rw [if_neg (by simp [hnull])] at h
  cases v with
  | collection vs =>
    simp only [bind_ok, mapError_ok] at h
    obtain ⟨results, hresults, hnew⟩ := h
    cases newCollection_ok hnew
    have hstable : ∀ r ∈ results, Conforms item false r.2 ∧
        resolveTypedValue item r.2 false = .ok r.2 := by
      intro r hres
      obtain ⟨e, -, hentry⟩ := exists_left_of_forall₂ (mapM_forall₂ hresults) hres
      rw [mapped_ok] at hentry
      obtain ⟨v, hvalue, rfl⟩ := hentry
      exact hitem e.2 false v hvalue
    refine ⟨.collection fun r hres => (hstable r hres).1, ?_⟩
    unfold resolveTypedValue
    rw [if_neg (by simp [isNull])]
    simp only [bind_ok, mapError_ok]
    refine ⟨results, mapM_self fun r hres => ?_, hnew⟩
    rw [(hstable r hres).2]
    rfl
  | _ => cases h

/-! ## 4. Records -/

/-- What a field of a stable type becomes conforms and resolves to itself. -/
theorem field_stable {name : RichKey} {field : TypedRecordField TypedValueType}
    (hbuilt : field.Built) (hstable : Stable field.valueType) {given : Option TypedValue}
    {result : TypedValue} (h : (match given with
      | some v => resolveTypedValue field.valueType v field.optional
      | none => absentField name field) = .ok result) :
    Conforms field.valueType field.optional result ∧
      resolveTypedValue field.valueType result field.optional = .ok result := by
  cases given with
  | some v => exact hstable v field.optional result h
  | none =>
    simp only [absentField] at h
    cases hdefault : field.default with
    | some known =>
      rw [hdefault] at h
      cases h
      obtain ⟨v, hvalue⟩ := hbuilt.default_resolved hdefault
      exact hstable v field.optional result hvalue
    | none =>
      rw [hdefault] at h
      simp only at h
      split_ifs at h with hoptional
      cases h
      rw [hoptional]
      exact ⟨.null, resolve_null_optional _⟩

/-- The result has the names of the fields, conforms, and resolves to itself. -/
theorem resolveFields_stable :
    ∀ {fields : List (RichKey × TypedRecordField TypedValueType)},
      (∀ e ∈ fields, TypedRecordField.Built e.2 ∧ Stable e.2.valueType) →
      ∀ {vs res : List (RichKey × TypedValue)},
        resolveFields fields vs = .ok res →
        List.Forall₂ (fun field e => e.1 = field.1 ∧ FieldConforms field.2 e.2)
          fields res ∧
        ∀ {again : List (RichKey × TypedValue)},
          (∀ e ∈ res, again.lookup e.1 = some e.2) →
          resolveFields fields again = .ok res
  | [], _, vs, res, h => by
    rw [resolveFields] at h
    cases h
    exact ⟨.nil, fun _ => by rw [resolveFields]⟩
  | (name, ⟨valueType, optional, default⟩) :: rest, hfields, vs, res, h => by
    rw [resolveFields] at h
    simp only [bind_ok, pure_ok] at h
    obtain ⟨v, hvalue, others, hothers, rfl⟩ := h
    obtain ⟨hbuilt, hstable⟩ := hfields _ mem_cons_self
    obtain ⟨hconforms, hself⟩ :=
      @field_stable name ⟨valueType, optional, default⟩ hbuilt hstable _ _ hvalue
    obtain ⟨hrelated, hagain⟩ := resolveFields_stable
      (fun e hentry => hfields e (mem_cons_of_mem _ hentry)) hothers
    refine ⟨.cons ⟨rfl, hconforms⟩ hrelated, fun hlookup => ?_⟩
    rw [resolveFields, hlookup (name, v) mem_cons_self]
    simp only [bind_ok, pure_ok]
    exact ⟨v, hself, others,
      hagain fun e hentry => hlookup e (mem_cons_of_mem _ hentry), rfl⟩

theorem lookup_mem : ∀ {es : List (RichKey × TypedValue)},
    (es.map fst).Pairwise (· < ·) → ∀ {e : RichKey × TypedValue},
      e ∈ es → es.lookup e.1 = some e.2
  | (first, value) :: rest, h, e, hentry => by
    rw [map_cons, pairwise_cons] at h
    rcases mem_cons.1 hentry with rfl | hrest
    · simp
    · have hne : e.1 ≠ first := (h.1 e.1 (mem_map_of_mem hrest)).ne'
      rw [lookup_cons, beq_eq_false_iff_ne.2 hne]
      exact lookup_mem h.2 hrest

variable {fields : List (RichKey × TypedRecordField TypedValueType)}

theorem names_of_related
    (h : List.Forall₂ (fun field e => e.1 = field.1 ∧ FieldConforms field.2 e.2) fields es) :
    es.map fst = fields.map fst := by
  induction h with
  | nil => rfl
  | cons hfirst _ ih => rw [map_cons, map_cons, hfirst.1, ih]

theorem related_of_mem (hsorted : (fields.map fst).Pairwise (· < ·))
    (h : List.Forall₂ (fun field e => e.1 = field.1 ∧ FieldConforms field.2 e.2) fields es)
    {name : RichKey} {value : TypedValue} (hfield : (name, field) ∈ fields)
    (hvalue : (name, value) ∈ es) :
    FieldConforms field value := by
  obtain ⟨other, hother, hname, hrelated⟩ := exists_left_of_forall₂ h hvalue
  have hfound := (lookup_eq_some hsorted).2 hfield
  rw [show name = other.1 from hname, (lookup_eq_some hsorted).2 hother] at hfound
  cases hfound
  exact hrelated

theorem stable_record (hsorted : (fields.map fst).Pairwise (· < ·))
    (hfields : ∀ entry ∈ fields, TypedRecordField.Built entry.2 ∧ Stable entry.2.valueType) :
    Stable (.record fields) := by
  refine stable_of_not_null fun value optional result hnull h => ?_
  unfold resolveTypedValue at h
  rw [if_neg (by simp [hnull])] at h
  cases value with
  | record values =>
    simp only [bind_ok, exists_unit, mapError_ok, rejectSome_ok] at h
    obtain ⟨-, resolved, hresolved, hnew⟩ := h
    cases newRecord_ok hnew
    obtain ⟨hrelated, hagain⟩ := resolveFields_stable hfields hresolved
    have hnames := names_of_related hrelated
    refine ⟨.record hnames fun name field value hfield hvalue => ?_, ?_⟩
    · exact related_of_mem hsorted hrelated hfield hvalue
    · unfold resolveTypedValue
      rw [if_neg (by simp [isNull])]
      simp only [bind_ok, exists_unit, mapError_ok, rejectSome_ok]
      refine ⟨?_, resolved, hagain fun entry hentry => lookup_mem (hnames ▸ hsorted) hentry, hnew⟩
      rw [unknownField, hnames, List.find?_eq_none]
      intro name hname
      simpa using hname
  | _ => cases h

/-! ## 5. Every valid type -/

mutual

theorem TypedValueType.Built.stable :
    ∀ {valueType : TypedValueType}, valueType.Built → Stable valueType
  | .scalar kind, _ => stable_scalar kind
  | .list _, h => stable_list (TypedValueType.Built.stable h.list_item)
  | .collection _, h => stable_collection (TypedValueType.Built.stable h.collection_item)
  | .record _, h =>
    stable_record h.record_fields.1 fun e hentry =>
      ⟨h.record_fields.2 e hentry, stable_fields h.record_fields.2 e hentry⟩

theorem stable_fields :
    ∀ {fields : List (RichKey × TypedRecordField TypedValueType)},
      (∀ e ∈ fields, TypedRecordField.Built e.2) →
      ∀ e ∈ fields, Stable e.2.valueType
  | [], _ => by simp
  | (name, ⟨valueType, optional, known⟩) :: rest, h => by
    have hfirst : valueType.Built := (h _ mem_cons_self).valueType_built
    intro e hentry
    rcases mem_cons.1 hentry with rfl | hrest
    · exact TypedValueType.Built.stable hfirst
    · exact stable_fields (fun other hother => h other (mem_cons_of_mem _ hother)) e hrest

end

theorem TypedValueType.Built.declared (h : valueType.Built) (hdeclares : valueType.Declares field) :
    field.Built := by
  induction hdeclares with
  | here hfield => exact h.record_fields.2 _ hfield
  | nested houter _ ih => exact ih (h.record_fields.2 _ houter).valueType_built
  | list _ ih => exact ih h.list_item
  | collection _ ih => exact ih h.collection_item

theorem resolveFields_default :
    ∀ {fields : List (RichKey × TypedRecordField TypedValueType)}
      {vs res : List (RichKey × TypedValue)},
      resolveFields fields vs = .ok res →
      ∀ {name : RichKey} {field : TypedRecordField TypedValueType} {known : TypedValue},
        (name, field) ∈ fields → field.default = some known → vs.lookup name = none →
        (name, known) ∈ res
  | (first, ⟨valueType, optional, default⟩) :: rest, vs, res, h, name, field, known,
      hfield, hdefault, habsent => by
    rw [resolveFields] at h
    simp only [bind_ok, pure_ok] at h
    obtain ⟨v, hvalue, others, hothers, rfl⟩ := h
    rcases mem_cons.1 hfield with heq | hrest
    · cases heq
      cases hdefault
      rw [habsent] at hvalue
      cases hvalue
      exact mem_cons_self
    · exact mem_cons_of_mem _ (resolveFields_default hothers hrest hdefault habsent)

theorem resolve_record {vs : List (RichKey × TypedValue)}
    (h : resolve (.record fields) (.record vs) = .ok r) :
    ∃ resolved, r = .record resolved ∧ resolveFields fields vs = .ok resolved := by
  unfold resolve resolveTypedValue at h
  rw [if_neg (by simp [isNull])] at h
  simp only [bind_ok, exists_unit, mapError_ok] at h
  obtain ⟨-, resolved, hresolved, hnew⟩ := h
  exact ⟨resolved, newRecord_ok hnew, hresolved⟩

/-- The key of the outer field of the sample type, whose default is an empty record. -/
def paletteKey : RichKey := ⟨"palette".toList, by decide⟩

/-- The key of the inner field, whose default is a text. -/
def accentKey : RichKey := ⟨"accent".toList, by decide⟩

def accentField : TypedRecordField TypedValueType :=
  ⟨.scalar .string, false, some (.string "teal".toList)⟩

def paletteType : TypedValueType := .record [(accentKey, accentField)]

def paletteValue : TypedValue := .record [(accentKey, .string "teal".toList)]

def paletteField : TypedRecordField TypedValueType := ⟨paletteType, false, some paletteValue⟩

def appearanceType : TypedValueType := .record [(paletteKey, paletteField)]

theorem built_of_field {key : RichKey} (hfield : field.Built)
    (hnew : newRecord ⟨[(key, field)], pairwise_singleton _ _⟩ =
      .ok (.record [(key, field)])) : TypedValueType.Built (.record [(key, field)]) := by
  refine .record ?_ hnew
  intro e hentry
  cases mem_singleton.1 hentry
  exact hfield

theorem paletteType_built : paletteType.Built :=
  built_of_field (@TypedRecordField.Built.defaulted _ (.string "teal".toList) _ (.scalar .string) rfl)
    rfl

theorem appearanceType_built : appearanceType.Built :=
  built_of_field (@TypedRecordField.Built.defaulted _ (.record []) _ paletteType_built rfl) rfl

end Malm.Config
