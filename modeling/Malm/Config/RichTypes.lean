/-
Malm.Config.RichTypes — closed types of rich values (`malm-config/src/rich.rs`).

The fields of a record are its entries in key order; a field may be optional, and may
carry a default. Resolving a value checks its shape and fills in the defaults of the
fields it leaves out.
-/
import Malm.Config.Rich

namespace Malm.Config

open Pack Pack.Object

/-! ## 1. Values -/

/-- `RichConfigErrorV1`, as far as types raise it. -/
inductive RichTypeError where
  | rich (error : RichConfigError)
  | unknownRecordField (name : RichKey)
  | missingRecordField (name : RichKey)
deriving DecidableEq

def checkTypeLimit (resource : String) (actual limit : Nat) : Except RichTypeError Unit :=
  (checkRichLimit resource actual limit).mapError .rich

namespace TypedValue

def isNull : TypedValue → Bool
  | null => true
  | _ => false

def newList (values : List TypedValue) : Except RichConfigError TypedValue := do
  checkRichLimit "list items" values.length maxRichCollectionItems
  (list values).validate
  return list values

def newRecord (values : List (RichKey × TypedValue)) : Except RichConfigError TypedValue := do
  checkRichLimit "record fields" values.length maxRichCollectionItems
  (record values).validate
  return record values

def newCollection (values : List (RichKey × TypedValue)) : Except RichConfigError TypedValue := do
  checkRichLimit "keyed collection items" values.length maxRichCollectionItems
  (collection values).validate
  return collection values

end TypedValue

/-! ## 2. Types -/

inductive TypedScalarType where
  | boolean
  | integer
  | unsigned
  | float
  | string
  | path
deriving DecidableEq, Repr

def TypedScalarType.asStr : TypedScalarType → String
  | boolean => "bool"
  | integer => "integer"
  | unsigned => "unsigned"
  | float => "float"
  | string => "string"
  | path => "path"

structure TypedRecordField (τ : Type) where
  valueType : τ
  optional : Bool
  default : Option TypedValue

inductive TypedValueType where
  | scalar (kind : TypedScalarType)
  | list (item : TypedValueType)
  | record (fields : List (RichKey × TypedRecordField TypedValueType))
  | collection (item : TypedValueType)

def TypedValueType.label : TypedValueType → String
  | scalar kind => kind.asStr
  | list item => "list<" ++ item.label ++ ">"
  | record _ => "record"
  | collection item => "collection<" ++ item.label ++ ">"

/-! ## 3. Resolution -/

def scalarAccepts : TypedScalarType → TypedValue → Bool
  | .boolean, .boolean _ => true
  | .integer, .integer _ => true
  | .unsigned, .unsigned _ => true
  | .float, .float _ => true
  | .string, .string _ => true
  | .path, .path _ => true
  | _, _ => false

def mismatch (valueType : TypedValueType) (value : TypedValue) : RichTypeError :=
  .rich (.typeMismatch valueType.label value.kindName)

def absentField (name : RichKey) (field : TypedRecordField TypedValueType) :
    Except RichTypeError TypedValue :=
  match field.default with
  | some default => .ok default
  | none => if field.optional then .ok .null else .error (.missingRecordField name)

/-- The first name in a record that its type does not declare. -/
def unknownField (fields : List (RichKey × TypedRecordField TypedValueType))
    (values : List (RichKey × TypedValue)) : Option RichKey :=
  (values.map Prod.fst).find? fun name => !decide (name ∈ fields.map Prod.fst)

mutual

def resolveTypedValue (valueType : TypedValueType) (value : TypedValue) (optional : Bool) :
    Except RichTypeError TypedValue :=
  if value.isNull then
    if optional then .ok .null else .error (mismatch valueType .null)
  else match valueType, value with
    | .scalar expected, actual =>
      if scalarAccepts expected actual then .ok actual else .error (mismatch valueType actual)
    | .list item, .list values => do
      let values ← values.mapM fun value => resolveTypedValue item value false
      (TypedValue.newList values).mapError .rich
    | .collection item, .collection values => do
      let values ← values.mapM fun entry =>
        (resolveTypedValue item entry.2 false).map fun value => (entry.1, value)
      (TypedValue.newCollection values).mapError .rich
    | .record fields, .record values => do
      Checks.rejectSome (unknownField fields values) .unknownRecordField
      let resolved ← resolveFields fields values
      (TypedValue.newRecord resolved).mapError .rich
    | valueType, value => .error (mismatch valueType value)

def resolveFields : List (RichKey × TypedRecordField TypedValueType) →
    List (RichKey × TypedValue) → Except RichTypeError (List (RichKey × TypedValue))
  | [], _ => .ok []
  | (name, ⟨valueType, optional, default⟩) :: rest, values => do
    let value ← (match values.lookup name with
      | some value => resolveTypedValue valueType value optional
      | none => absentField name ⟨valueType, optional, default⟩)
    let resolved ← resolveFields rest values
    return (name, value) :: resolved

end

namespace TypedValueType

def resolve (valueType : TypedValueType) (value : TypedValue) : Except RichTypeError TypedValue :=
  resolveTypedValue valueType value false

def resolveOptional (valueType : TypedValueType) (value : TypedValue) (optional : Bool) :
    Except RichTypeError TypedValue :=
  resolveTypedValue valueType value optional

/-! ## 4. Validation -/

/-- The count of types that `validate_type_at` carries, with this one. -/
def countType (depth total : Nat) : Except RichTypeError Nat := do
  checkTypeLimit "typed schema depth" depth maxRichValueDepth
  checkTypeLimit "typed schema nodes" (total + 1) maxRichTotalValues
  return total + 1

def checkDefault (field : TypedRecordField TypedValueType) : Except RichTypeError Unit :=
  Checks.whenSome field.default fun default => do
    let _ ← field.valueType.resolveOptional default field.optional

mutual

def validateAt (depth total : Nat) : TypedValueType → Except RichTypeError Nat
  | scalar _ => countType depth total
  | list item => do
    let total ← countType depth total
    validateAt (depth + 1) total item
  | record fields => do
    let total ← countType depth total
    checkTypeLimit "record schema fields" fields.length maxRichCollectionItems
    validateFields (depth + 1) total fields
  | collection item => do
    let total ← countType depth total
    validateAt (depth + 1) total item

def validateFields (depth total : Nat) :
    List (RichKey × TypedRecordField TypedValueType) → Except RichTypeError Nat
  | [] => .ok total
  | (_, ⟨valueType, optional, default⟩) :: rest => do
    let total ← validateAt depth total valueType
    checkDefault ⟨valueType, optional, default⟩
    validateFields depth total rest

end

def validate (valueType : TypedValueType) : Except RichTypeError Unit := do
  let _ ← valueType.validateAt 1 0

/-! ## 5. Constructors -/

def newList (item : TypedValueType) : Except RichTypeError TypedValueType := do
  (list item).validate
  return list item

def newRecord (fields : SortedMap RichKey (TypedRecordField TypedValueType)) :
    Except RichTypeError TypedValueType := do
  checkTypeLimit "record schema fields" fields.entries.length maxRichCollectionItems
  (record fields.entries).validate
  return record fields.entries

def newCollection (item : TypedValueType) : Except RichTypeError TypedValueType := do
  (collection item).validate
  return collection item

end TypedValueType

namespace TypedRecordField

def newRequired (valueType : TypedValueType) : TypedRecordField TypedValueType :=
  ⟨valueType, false, none⟩

def newOptional (valueType : TypedValueType) : TypedRecordField TypedValueType :=
  ⟨valueType, true, none⟩

def newDefaulted (valueType : TypedValueType) (default : TypedValue) :
    Except RichTypeError (TypedRecordField TypedValueType) := do
  let default ← valueType.resolve default
  return ⟨valueType, false, some default⟩

def newOptionalDefaulted (valueType : TypedValueType) (default : TypedValue) :
    Except RichTypeError (TypedRecordField TypedValueType) := do
  let default ← valueType.resolveOptional default true
  return ⟨valueType, true, some default⟩

end TypedRecordField

/-! ## 6. Valid types -/

mutual

/-- The types that the constructors return. -/
inductive TypedValueType.Built : TypedValueType → Prop
  | scalar (kind : TypedScalarType) : TypedValueType.Built (.scalar kind)
  | list {item valueType : TypedValueType} : TypedValueType.Built item →
      TypedValueType.newList item = .ok valueType → TypedValueType.Built valueType
  | record {fields : SortedMap RichKey (TypedRecordField TypedValueType)}
      {valueType : TypedValueType} :
      (∀ entry ∈ fields.entries, TypedRecordField.Built entry.2) →
      TypedValueType.newRecord fields = .ok valueType → TypedValueType.Built valueType
  | collection {item valueType : TypedValueType} : TypedValueType.Built item →
      TypedValueType.newCollection item = .ok valueType → TypedValueType.Built valueType

/-- The fields that the constructors return. -/
inductive TypedRecordField.Built : TypedRecordField TypedValueType → Prop
  | required {valueType : TypedValueType} : TypedValueType.Built valueType →
      TypedRecordField.Built (.newRequired valueType)
  | optional {valueType : TypedValueType} : TypedValueType.Built valueType →
      TypedRecordField.Built (.newOptional valueType)
  | defaulted {valueType : TypedValueType} {default : TypedValue}
      {field : TypedRecordField TypedValueType} : TypedValueType.Built valueType →
      TypedRecordField.newDefaulted valueType default = .ok field → TypedRecordField.Built field
  | optionalDefaulted {valueType : TypedValueType} {default : TypedValue}
      {field : TypedRecordField TypedValueType} : TypedValueType.Built valueType →
      TypedRecordField.newOptionalDefaulted valueType default = .ok field →
      TypedRecordField.Built field

end

end Malm.Config
