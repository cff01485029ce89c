/-
Malm.Authoring.Syntax — values, types and parsed declarations of the
authoring language (`value.rs`, `ast.rs`).

A Rust `BTreeMap` of fields is a list of fields in name order. An output
declaration is a parameter: the loader only moves the outputs of a module
along, and asks of an overlay's whether there are any.
-/
import Malm.Authoring.Kdl

namespace Malm.Authoring

open Checks

/-! ## 1. Values -/

/-- `Value`. Properties and items carry the span they were written at. -/
inductive Value where
  | null
  | bool (value : Bool)
  | int (value : Int)
  | float (value : Float64)
  | string (value : String)
  | path (value : String)
  | list (items : List Value)
  | record (fields : List (String × Value))
  | collection (items : List (String × Value × Span))
  | kdlDocument (document : KdlDocument)
  | rawRecordLiteral (properties : List (String × Value × Span)) (children : KdlDocument)
  | unresolvedListDefault (properties : List (String × Value × Span)) (children : KdlDocument)

namespace Value

def isNull : Value → Bool
  | null => true
  | _ => false

end Value

/-- A scalar as a typed `Value`; references are the caller's concern. -/
def scalarValue (file : FileId) (entry : KdlEntry) : ParseResult Value := do
  reject (entry.ty.isSome = true) <|
    entryError file entry Codes.nodeShape "type-annotated values are not allowed here"
  match entry.value with
  | .null => return .null
  | .bool value => return .bool value
  | .integer value =>
    let value ← require (asI64 value) <|
      entryError file entry Codes.nodeShape "integer is out of range for a 64-bit value"
    return .int value
  | .float value =>
    reject (value.isFinite = false) <|
      entryError file entry Codes.nodeShape "non-finite floats are not allowed"
    return .float value
  | .string value => return .string value

/-! ## 2. Types -/

inductive NumericBound where
  | int (value : Int)
  | float (value : Float64)
deriving DecidableEq, Repr

mutual

inductive Ty where
  | bool
  | int
  | float
  | string
  | path
  | enum (values : List String)
  | list (item : Ty)
  | record (fields : List FieldSchema)
  | collection (item : Ty)
  | kdlDocument
  | optional (inner : Ty)
  | named (name : String)
  | variant (discriminator : String) (cases : List VariantCase)
  | refine (name : String) (base : Ty) (min max : Option NumericBound) (format unit : Option String)
      (span : Span)
  | map (item : Ty)
  | tuple (items : List Ty)
  | set (item : Ty)

inductive FieldSchema where
  | mk (name : String) (ty : Ty) (required : Bool) (default : Option Value)
      (defaultSpan : Option Span) (span : Span)

inductive VariantCase where
  | mk (name : String) (fields : List FieldSchema) (span : Span)

end

/-! ## 3. Modules -/

structure NamedTypeDecl where
  name : String
  ty : Ty
  span : Span

inductive RequirementKind where
  | command
  | file
  | feature
deriving DecidableEq, Repr

/-- `Predicate`: the condition of a short condition node. -/
inductive Predicate where
  | test (reference : Ref)
  | set (reference : Ref)
  | nonEmpty (reference : Ref)
  | eq (reference : Ref) (expected : Value) (negated : Bool)

/-- `RequirementNode`: a requirement, or a condition around more of them. -/
inductive RequirementNode where
  | requirement (kind : RequirementKind) (subject : String) (span : Span)
  | when (predicate : Predicate) (then_ otherwise : List RequirementNode) (span : Span)

structure InputDecl where
  name : String
  ty : Ty
  default : Option Value
  span : Span
  defaultSpan : Option Span
  computedDefault : Option String
  computedDefaultSpan : Option Span

inductive FragmentCardinality where
  | one
  | many
deriving DecidableEq, Repr

/-- `FragmentSource`: a file of the pack and the directory it resolves from. -/
structure FragmentSource where
  path : String
  baseDir : String
  span : Span
deriving DecidableEq, Repr

structure FragmentDecl where
  name : String
  format : String
  cardinality : FragmentCardinality
  defaults : List FragmentSource
  span : Span
  dir : String
deriving DecidableEq, Repr

structure ModuleDecl (Output : Type) where
  name : String
  description : Option String
  slot : Option String
  types : List NamedTypeDecl
  requirements : List RequirementNode
  inputs : List InputDecl
  fragments : List FragmentDecl
  outputs : List Output
  span : Span
  dir : String

structure ExtendModule (Output : Type) where
  module : String
  requirements : List RequirementNode
  inputs : List InputDecl
  fragments : List FragmentDecl
  outputs : List Output
  span : Span
  dir : String

/-! ## 4. Profiles -/

structure WithEntry where
  name : String
  value : Value
  span : Span

structure FragmentOpBody where
  fragment : String
  source : FragmentSource
  span : Span
deriving DecidableEq, Repr

inductive FragmentOp where
  | replace (body : FragmentOpBody)
  | append (body : FragmentOpBody)
deriving DecidableEq, Repr

/-- `SetPatch`: `value = none` is `unset`. -/
structure SetPatch where
  path : String
  value : Option Value
  span : Span

inductive PatchOp where
  | replace (key : String) (value : Value) (span : Span)
  | append (key : String) (value : Value) (span : Span)
  | remove (key : String) (optional : Bool) (span : Span)
  | replaceAll (items : List (String × Value × Span)) (span : Span)

structure CollectionPatch where
  collection : String
  ops : List PatchOp
  span : Span

/-- `PatchEntry`: one entry of an instance's ordered patch stream. -/
inductive PatchEntry where
  | field (patch : SetPatch)
  | collection (patch : CollectionPatch)

structure InstanceConfig where
  withEntries : List WithEntry
  fragments : List FragmentOp
  patchEntries : List PatchEntry


/-- `ProfileItem`: `use` activates a module, `replace` swaps a slot provider. -/
inductive ProfileItem where
  | use (module : String) (alias_ : Option String) (config : InstanceConfig) (span : Span)
  | replace (slot : String) (module : String) (alias_ : Option String) (config : InstanceConfig)
      (span : Span)

def ProfileItem.config : ProfileItem → InstanceConfig
  | use _ _ config _ => config
  | replace _ _ _ config _ => config

structure ProfileDecl where
  name : String
  abstract_ : Bool
  parents : List (String × Span)
  items : List ProfileItem
  span : Span
  dir : String

structure ExtendProfile where
  profile : String
  parents : List (String × Span)
  items : List ProfileItem
  span : Span

/-! ## 5. Workspaces -/

structure GlobalVar where
  name : String
  value : Value
  overrideExisting : Bool
  span : Span
  origin : String

abbrev SlotMax := Option Nat

structure SlotDecl where
  name : String
  max : SlotMax
  description : Option String
  span : Span
deriving DecidableEq, Repr

/-- `ParsedWorkspace`: workspace declarations before resolution. -/
structure ParsedWorkspace (Output : Type) where
  modules : List (ModuleDecl Output)
  extensions : List (ExtendModule Output)
  profiles : List ProfileDecl
  profileExtensions : List ExtendProfile
  slots : List SlotDecl
  globals : List GlobalVar

def ParsedWorkspace.default {Output : Type} : ParsedWorkspace Output := ⟨[], [], [], [], [], []⟩

end Malm.Authoring
