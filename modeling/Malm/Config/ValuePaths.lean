/-
Malm.Config.ValuePaths — paths into a document root and changes there
(`malm-config/src/rich_eval.rs`).

A path leads through records and keyed collections; a change replaces the value that the
path leads to, or an entry of it. It is what is left of an `emit` or a patch operation when
its operands are evaluated.
-/
import Malm.Config.RichTypes

namespace Malm.Config

open Pack Pack.Object Checks

/-- The entries of a record, of a collection or of the root, in key order. -/
abbrev Entries := List (RichKey × TypedValue)

/-! ## 1. Paths -/

def RichValuePath.new (segments : List RichKey) : Except RichConfigError RichValuePath :=
  if hempty : segments = [] then
    .error (.invalidValue "rich value path must not be empty")
  else if hbound : segments.length ≤ maxRichValueDepth then
    .ok ⟨segments, hempty, hbound⟩
  else
    .error (.limitExceeded "rich value path segments" maxRichValueDepth segments.length)

def RichValuePath.root (key : RichKey) : RichValuePath := ⟨[key], by simp, by simp [maxRichValueDepth]⟩

def RichValuePath.withSuffix (path : RichValuePath) (key : RichKey) :
    Except RichConfigError RichValuePath :=
  RichValuePath.new (path.segments ++ [key])

def pathIsStrictPrefix (ancestor path : RichValuePath) : Bool :=
  ancestor.segments.length < path.segments.length && ancestor.segments.isPrefixOf path.segments

/-! ## 2. Entries -/

def replaceEntry (key : RichKey) (value : TypedValue) : Entries → Entries
  | [] => []
  | entry :: rest =>
    if entry.1 = key then (key, value) :: rest else entry :: replaceEntry key value rest

/-- `BTreeMap::insert`: a replaced value, or a new entry at its place. -/
def putEntry (entries : Entries) (key : RichKey) (value : TypedValue) : Entries :=
  if (entries.lookup key).isSome then
    replaceEntry key value entries
  else
    SortedMap.insertEntry key value entries

def dropEntry (entries : Entries) (key : RichKey) : Entries :=
  entries.filter fun entry => entry.1 ≠ key

namespace TypedValue

def children : TypedValue → Option Entries
  | record values => some values
  | collection values => some values
  | _ => none

/-- The same kind of map over other entries. -/
def withChildren : TypedValue → Entries → TypedValue
  | record _, values => record values
  | collection _, values => collection values
  | value, _ => value

def select : List RichKey → TypedValue → Option TypedValue
  | [], value => some value
  | key :: rest, value => do
    let entries ← value.children
    let child ← entries.lookup key
    child.select rest

def replaceAt (value : TypedValue) (segments : List RichKey) (replacement : TypedValue) :
    TypedValue :=
  match segments with
  | [] => replacement
  | key :: rest =>
    match value.children with
    | none => value
    | some entries =>
      match entries.lookup key with
      | none => value
      | some child => value.withChildren (putEntry entries key (child.replaceAt rest replacement))

end TypedValue

def getPath (root : Entries) (path : RichValuePath) : Option TypedValue :=
  (TypedValue.record root).select path.segments

/-- Writing through the reference that `get_path_mut` returns. -/
def writePath (root : Entries) (path : RichValuePath) (value : TypedValue) : Entries :=
  (((TypedValue.record root).replaceAt path.segments value).children).getD root

/-! ## 3. Changes -/

/-- Why a patch operation is refused. -/
inductive PatchError where
  | missingParent (parent : RichValuePath)
  | parentNotRecord (parent : RichValuePath)
  | missingPath (path : RichValuePath)
  | missingList (path : RichValuePath)
  | notList (path : RichValuePath)
  | missingCollection (path : RichValuePath)
  | notCollection (path : RichValuePath)
  | presentKey (key : RichKey)
  | absentKey (key : RichKey)
  | limit (resource : String)
  | value (error : RichConfigError)
  /-- An expectation of the code that does not hold; the code does not answer. -/
  | unexpected (expectation : String)
deriving DecidableEq

/-- The entries of the record that holds the last segment; the root is such a record. -/
def parentOf (root : Entries) (path : RichValuePath) :
    Except PatchError (Option RichValuePath × Entries × RichKey) :=
  match path.segments.getLast? with
  | none => .error (.unexpected "validated paths are nonempty")
  | some last =>
    if path.segments.dropLast = [] then
      .ok (none, root, last)
    else
      match RichValuePath.new path.segments.dropLast with
      | .error _ => .error (.unexpected "a prefix of a validated path remains valid")
      | .ok parent =>
        match getPath root parent with
        | none => .error (.missingParent parent)
        | some (.record fields) => .ok (some parent, fields, last)
        | some _ => .error (.parentNotRecord parent)

def storeParent (root : Entries) (parent : Option RichValuePath) (fields : Entries) : Entries :=
  match parent with
  | none => fields
  | some path => writePath root path (.record fields)

def setPath (root : Entries) (path : RichValuePath) (value : TypedValue) :
    Except PatchError Entries := do
  let found ← parentOf root path
  return storeParent root found.1 (putEntry found.2.1 found.2.2 value)

/-- `remove_path`, with whether an entry was there. -/
def removePath (root : Entries) (path : RichValuePath) : Except PatchError (Entries × Bool) := do
  let found ← parentOf root path
  return (storeParent root found.1 (dropEntry found.2.1 found.2.2),
    (found.2.1.lookup found.2.2).isSome)

def collectionAt (root : Entries) (path : RichValuePath) : Except PatchError Entries :=
  match getPath root path with
  | none => .error (.missingCollection path)
  | some (.collection values) => .ok values
  | some _ => .error (.notCollection path)

def listAt (root : Entries) (path : RichValuePath) : Except PatchError (List TypedValue) :=
  match getPath root path with
  | none => .error (.missingList path)
  | some (.list values) => .ok values
  | some _ => .error (.notList path)

/-- An `emit` or a patch operation with its operands evaluated. -/
inductive RootChange where
  | emit (key : RichKey) (value : TypedValue)
  | set (path : RichValuePath) (value : TypedValue)
  | unset (path : RichValuePath) (isOptional : Bool)
  | listAppend (path : RichValuePath) (value : TypedValue)
  | collectionInsert (path : RichValuePath) (key : RichKey) (value : TypedValue)
  | collectionReplace (path : RichValuePath) (key : RichKey) (value : TypedValue)
  | collectionRemove (path : RichValuePath) (key : RichKey) (isOptional : Bool)
  | collectionReplaceAll (path : RichValuePath) (values : Entries)

namespace RootChange

def apply (root : Entries) : RootChange → Except PatchError Entries
  | emit key value => .ok (putEntry root key value)
  | set path value => setPath root path value
  | unset path isOptional => do
    let removed ← removePath root path
    reject (removed.2 = false ∧ isOptional = false) (.missingPath path)
    return removed.1
  | listAppend path value => do
    let values ← listAt root path
    reject (maxRichCollectionItems ≤ values.length) (.limit "patched list items")
    return writePath root path (.list (values ++ [value]))
  | collectionInsert path key value => do
    let collection ← collectionAt root path
    reject ((collection.lookup key).isSome = true) (.presentKey key)
    reject (maxRichCollectionItems ≤ collection.length) (.limit "patched collection items")
    return writePath root path (.collection (putEntry collection key value))
  | collectionReplace path key value => do
    let collection ← collectionAt root path
    reject ((collection.lookup key).isNone = true) (.absentKey key)
    return writePath root path (.collection (putEntry collection key value))
  | collectionRemove path key isOptional => do
    let collection ← collectionAt root path
    reject ((collection.lookup key).isNone = true ∧ isOptional = false) (.absentKey key)
    return writePath root path (.collection (dropEntry collection key))
  | collectionReplaceAll path values => do
    let _ ← collectionAt root path
    return writePath root path (.collection values)

def target : RootChange → Except PatchError RichValuePath
  | emit key _ => .ok (.root key)
  | set path _ => .ok path
  | unset path _ => .ok path
  | listAppend path _ => .ok path
  | collectionInsert path key _ => (path.withSuffix key).mapError .value
  | collectionReplace path key _ => (path.withSuffix key).mapError .value
  | collectionRemove path key _ => (path.withSuffix key).mapError .value
  | collectionReplaceAll path _ => .ok path

/-- Whether the provenance below the target is dropped. -/
def dropsBelow : RootChange → Bool
  | collectionReplaceAll _ _ => true
  | _ => false

end RootChange

end Malm.Config
