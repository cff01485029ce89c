/-
Malm.Authoring.Parse — the parsers of module extensions, profiles and
global variables (`lang/parse.rs`).

The grammars of named types, inputs and outputs are parameters (`ModuleGrammar`). A parser
that descends into blocks recurses on the nesting height of its nodes, or, behind
`validate_document_depth`, on the depth it allows.
-/
import Malm.Authoring.Syntax

namespace Malm.Authoring

open Checks

/-- The parsers whose results the loader does not look into. -/
structure ModuleGrammar (Output : Type) where
  parseTypes : FileId → KdlNode → ParseResult (List NamedTypeDecl)
  parseInputs : FileId → KdlNode → ParseResult (List InputDecl)
  parseOutputs : FileId → String → KdlNode → ParseResult (List Output)

/-! ## 1. Requirements -/

def parseEquality (file : FileId) (node : KdlNode) (reference : Ref) :
    ParseResult (Option Predicate) := do
  let isEntry := propEntry node "is"
  let isNotEntry := propEntry node "is-not"
  reject (isEntry.isSome = true ∧ isNotEntry.isSome = true) <|
    nodeError file node Codes.nodeShape "`@if` takes either `is=` or `is-not=`, not both"
  match isEntry.or isNotEntry with
  | none => return none
  | some entry =>
    let expected ← scalarValue file entry
    match expected with
    | .null | .float _ =>
      .error (entryError file entry Codes.whenPredicate
        "`is=` compares enum, string, int, or bool literals")
    | expected => return some (.eq reference expected isNotEntry.isSome)

def namedPredicate (file : FileId) (node : KdlNode) (reference : Ref) : ParseResult Predicate :=
  match node.name with
  | "@if" => .ok (.test reference)
  | "@if-present" => .ok (.set reference)
  | "@if-nonempty" => .ok (.nonEmpty reference)
  | name => .error (nodeError file node Codes.unknownNode s!"unknown condition `{name}`")

def parseCondition (file : FileId) (node : KdlNode) : ParseResult Predicate := do
  rejectUnknownProps file node (if node.name = "@if" then ["is", "is-not"] else [])
  expectArgs file node 1
  -- `expect_args` has counted exactly one argument
  let entry ← require node.arguments.head? <|
    nodeError file node Codes.nodeShape "one argument checked"
  let reference ← plainRef file entry "condition reference"
  let equality ← if node.name = "@if" then parseEquality file node reference else pure none
  match equality with
  | some predicate => return predicate
  | none => namedPredicate file node reference

def elseSibling : List KdlNode → Option KdlNode
  | [] => none
  | next :: _ => if next.name = "@else" then some next else none

def afterElse : List KdlNode → List KdlNode
  | [] => []
  | next :: rest => if next.name = "@else" then rest else next :: rest

theorem afterElse_length : ∀ nodes : List KdlNode, (afterElse nodes).length ≤ nodes.length
  | [] => Nat.le_refl _
  | next :: rest => by
    by_cases h : next.name = "@else" <;> simp [afterElse, h]

/-- A condition and its optional immediately following `@else` sibling. -/
def parseWhen {α β : Type} (file : FileId) (node : KdlNode) (otherwise : Option KdlNode)
    (parseChildren : List KdlNode → ParseResult (List α))
    (build : Predicate → List α → List α → Span → β) : ParseResult β := do
  let predicate ← parseCondition file node
  let then_ ← parseChildren (childNodes node)
  let otherwise ← match otherwise with
    | none => pure []
    | some node => do
      validateElse file node
      parseChildren (childNodes node)
  return build predicate then_ otherwise (nodeSpan file node)

def parseRequirementKind (file : FileId) (node : KdlNode) : ParseResult RequirementKind :=
  match node.name with
  | "command" => .ok .command
  | "file" => .ok .file
  | "feature" => .ok .feature
  | name =>
    let unknown := nodeError file node Codes.unknownNode
      s!"unknown requirement `{name}` (allowed: command, file, feature, @if, @if-present, @if-nonempty)"
    .error ((removedControl file node).getD unknown)

def parseRequirementNode (file : FileId) (node : KdlNode) : ParseResult RequirementNode := do
  let kind ← parseRequirementKind file node
  rejectUnknownProps file node []
  rejectUnknownChildren file node []
  let subject ← reqStrArg file node
  return .requirement kind subject (nodeSpan file node)

/-- The loop of `parse_requirement_nodes` over one list of siblings. -/
def parseRequirementSiblings (file : FileId)
    (parseChildren : List KdlNode → ParseResult (List RequirementNode)) :
    List KdlNode → ParseResult (List RequirementNode)
  | [] => .ok []
  | node :: rest =>
    if isConditionName node.name then do
      let condition ← parseWhen file node (elseSibling rest) parseChildren RequirementNode.when
      let others ← parseRequirementSiblings file parseChildren (afterElse rest)
      return condition :: others
    else if node.name = "@else" then
      .error (orphanElse file node)
    else do
      let requirement ← parseRequirementNode file node
      let others ← parseRequirementSiblings file parseChildren rest
      return requirement :: others
termination_by nodes => nodes.length
decreasing_by
  · have := afterElse_length rest
    simp
    omega
  · simp

def parseRequirementNodes (file : FileId) : Nat → List KdlNode → ParseResult (List RequirementNode)
  | 0 => parseRequirementSiblings file fun _ => .ok []
  | height + 1 => parseRequirementSiblings file (parseRequirementNodes file height)

def parseRequires (file : FileId) (node : KdlNode) : ParseResult (List RequirementNode) := do
  rejectUnknownProps file node []
  expectArgs file node 0
  parseRequirementNodes file (KdlNode.heightList (childNodes node)) (childNodes node)

/-! ## 2. Fragments -/

def knownFormats : List String :=
  ["text", "json", "jsonc", "toml", "xml", "ini", "kdl-v1", "kdl-v2", "hypr", "hyprlock",
    "hypridle", "lua", "css", "gtk-css", "key-value", "line-list", "scalar", "mango", "kanshi",
    "shell"]

def knownFormatsHelp : String :=
  let names := ", ".intercalate knownFormats
  s!"known formats: {names}"

def parseCardinality (file : FileId) (node : KdlNode) : ParseResult FragmentCardinality := do
  let value ← optStrProp file node "cardinality"
  match value with
  | none | some "one" => return .one
  | some "many" => return .many
  | some other =>
    .error (nodeError file node Codes.nodeShape
      s!"fragment cardinality `{other}` (allowed: one, many)")

def parseFragmentDefaults (file : FileId) (dir : String) (node : KdlNode) :
    ParseResult (List FragmentSource) :=
  match optChild node "default" with
  | none => .ok []
  | some defaults => defaults.arguments.mapM fun entry => do
    let path ← require entry.value.asString <|
      entryError file entry Codes.nodeShape "fragment defaults must be string paths"
    return ⟨path, dir, entrySpan file entry⟩

def parseFragment (file : FileId) (dir : String) (fragments : List FragmentDecl)
    (node : KdlNode) : ParseResult (List FragmentDecl) := do
  rejectUnknownProps file node ["format", "cardinality"]
  rejectUnknownChildren file node ["default"]
  rejectDuplicateChildren file node ["default"]
  let name ← reqStrArg file node
  reject (fragments.any (·.name == name) = true) <|
    nodeError file node Codes.duplicate s!"duplicate fragment `{name}`"
  let cardinality ← parseCardinality file node
  let defaults ← parseFragmentDefaults file dir node
  let count := defaults.length
  reject (cardinality = .one ∧ 1 < defaults.length) <|
    nodeError file node Codes.nodeShape
      s!"fragment `{name}` has cardinality \"one\" but {count} defaults"
  let format ← reqStrProp file node "format"
  reject (knownFormats.contains format = false) <|
    (nodeError file node Codes.fragment
      s!"fragment `{name}` declares unknown format `{format}`").withHelp knownFormatsHelp
  return fragments ++ [⟨name, format, cardinality, defaults, nodeSpan file node, dir⟩]

def parseFragments (file : FileId) (dir : String) (node : KdlNode) :
    ParseResult (List FragmentDecl) := do
  rejectUnknownProps file node []
  expectArgs file node 0
  rejectUnknownChildren file node ["fragment"]
  (childNodes node).foldlM (parseFragment file dir) []

/-! ## 3. Modules -/

section Modules

variable {Output : Type} (grammar : ModuleGrammar Output) (file : FileId) (dir : String)

def moduleSections : List String :=
  ["description", "slot", "types", "requires", "inputs", "fragments", "outputs"]

/-- One section of a module. Any other name was rejected before. -/
def parseModuleSection (module : ModuleDecl Output) (child : KdlNode) :
    ParseResult (ModuleDecl Output) :=
  match child.name with
  | "description" => do
    let text ← reqStrArg file child
    return { module with description := some text }
  | "slot" => do
    let slot ← reqStrArg file child
    return { module with slot := some slot }
  | "types" => do
    let types ← grammar.parseTypes file child
    return { module with types := types }
  | "requires" => do
    let requirements ← parseRequires file child
    return { module with requirements := requirements }
  | "inputs" => do
    let inputs ← grammar.parseInputs file child
    return { module with inputs := inputs }
  | "fragments" => do
    let fragments ← parseFragments file dir child
    return { module with fragments := fragments }
  | "outputs" => do
    let outputs ← grammar.parseOutputs file dir child
    return { module with outputs := outputs }
  | _ => .ok module

def parseModule (node : KdlNode) : ParseResult (ModuleDecl Output) := do
  let name ← reqStrArg file node
  rejectUnknownProps file node []
  rejectUnknownChildren file node moduleSections
  rejectDuplicateChildren file node moduleSections
  (childNodes node).foldlM (parseModuleSection grammar file dir)
    ⟨name, none, none, [], [], [], [], [], nodeSpan file node, dir⟩

def extensionSections : List String := ["requires", "inputs", "fragments", "outputs"]

/-- One section of a module extension. Any other name was rejected before. -/
def parseExtensionSection (extension : ExtendModule Output) (child : KdlNode) :
    ParseResult (ExtendModule Output) :=
  match child.name with
  | "requires" => do
    let requirements ← parseRequires file child
    return { extension with requirements := requirements }
  | "inputs" => do
    let inputs ← grammar.parseInputs file child
    return { extension with inputs := inputs }
  | "fragments" => do
    let fragments ← parseFragments file dir child
    return { extension with fragments := fragments }
  | "outputs" => do
    let outputs ← grammar.parseOutputs file dir child
    return { extension with outputs := outputs }
  | _ => .ok extension

def parseExtendModule (node : KdlNode) : ParseResult (ExtendModule Output) := do
  let name ← reqStrArg file node
  rejectUnknownProps file node []
  rejectUnknownChildren file node extensionSections
  rejectDuplicateChildren file node extensionSections
  (childNodes node).foldlM (parseExtensionSection grammar file dir)
    ⟨name, [], [], [], [], nodeSpan file node, dir⟩

end Modules

/-! ## 4. Values of `with` -/

def parseRawProperties (file : FileId) (node : KdlNode) :
    ParseResult (List (String × Value × Span)) :=
  node.properties.mapM fun entry => do
    let value ← scalarValue file entry
    return (entry.name.getD "", value, entrySpan file entry)

/-- The explicit empty aggregates `(list)`, `(record)` and `(collection)`. -/
def parseEmptyAggregate (file : FileId) (node : KdlNode) (aggregate : String) :
    ParseResult Value := do
  reject (["list", "record", "collection"].contains aggregate = false) <|
    nodeError file node Codes.nodeShape
      s!"unknown `with` aggregate annotation `({aggregate})` (allowed: list, record, collection)"
  reject (node.entries ≠ [] ∨ childNodes node ≠ []) <|
    nodeError file node Codes.nodeShape
      s!"`({aggregate})` is an explicit empty aggregate constructor"
  reject (aggregate = "list" ∧ node.children.isSome = true) <|
    nodeError file node Codes.nodeShape "`(list)` uses `(list)name` without a children block"
  reject (aggregate ≠ "list" ∧ node.children.isSome = false) <|
    nodeError file node Codes.nodeShape
      s!"`({aggregate})` requires an explicit empty children block"
  return if aggregate = "list" then .list [] else
    if aggregate = "record" then .record [] else .collection []

/-- A profile-supplied value, without the input's declared type. -/
def parseGenericValue (file : FileId) (node : KdlNode) : ParseResult Value :=
  match node.ty with
  | some aggregate => parseEmptyAggregate file node aggregate
  | none =>
    let name := node.name
    match node.arguments, node.properties, childNodes node with
    | [], _ :: _, _ => do
      let properties ← parseRawProperties file node
      return .rawRecordLiteral properties (childNodes node)
    | [], [], child :: children => .ok (.kdlDocument (child :: children))
    | [], [], [] =>
      .error (nodeError file node Codes.nodeShape s!"input `{name}` needs a value")
    | [argument], [], [] => scalarValue file argument
    | arguments, [], [] => do
      let items ← arguments.mapM (scalarValue file)
      return .list items
    | _, _, _ =>
      .error (nodeError file node Codes.nodeShape
        s!"input `{name}` mixes arguments with field properties or a children block")

def parseWithEntry (file : FileId) (entries : List WithEntry) (node : KdlNode) :
    ParseResult (List WithEntry) := do
  let name := node.name
  reject (name = "") <|
    nodeError file node Codes.nodeShape "`with` contains an empty input name"
  reject (entries.any (·.name == name) = true) <|
    nodeError file node Codes.duplicate s!"`with` sets input `{name}` twice"
  let value ← parseGenericValue file node
  return entries ++ [⟨name, value, nodeSpan file node⟩]

def parseWith (file : FileId) (node : KdlNode) : ParseResult (List WithEntry) := do
  rejectUnknownProps file node []
  expectArgs file node 0
  (childNodes node).foldlM (parseWithEntry file) []

/-! ## 5. Structural documents -/

/-- `seen` holds the property names so far, `index` the position of the next entry. -/
def validatePlainKdlEntries (file : FileId) (targetName : String) (skippedEntry : Option Nat) :
    Nat → List String → List KdlEntry → ParseResult Unit
  | _, _, [] => .ok ()
  | index, seen, entry :: entries =>
    if skippedEntry = some index then
      validatePlainKdlEntries file targetName skippedEntry (index + 1) seen entries
    else do
      let name := entry.name.getD ""
      reject (entry.name.any seen.contains = true) <| entryError file entry
        Codes.duplicate s!"node `{targetName}` sets property `{name}` twice"
      Checks.when (isRef entry = true) do
        let _ ← parseRef file entry
        return ()
      validatePlainKdlEntries file targetName skippedEntry (index + 1)
        (entry.name.toList ++ seen) entries

def escapedNodeTarget (node : KdlNode) : Option (Nat × KdlEntry) :=
  (node.entries.zipIdx.find? fun entry => entry.1.name.isNone).map fun entry => (entry.2, entry.1)

def validateEscapedKdlNode (file : FileId) (node : KdlNode) : ParseResult Unit := do
  let (index, entry) ← require (escapedNodeTarget node) <|
    nodeError file node Codes.nodeShape "`node` requires a literal target node name"
  let name := entry.value.asString.getD ""
  reject (entry.ty.isSome = true ∨ name = "") <|
    entryError file entry Codes.nodeShape "`node` target name must be a non-empty literal string"
  validatePlainKdlEntries file name (some index) 0 [] node.entries

/-- The checks on a node that is neither a condition nor an `@else`. -/
def validateStructuralNode (file : FileId) (validateChildren : List KdlNode → ParseResult Unit)
    (node : KdlNode) : ParseResult Unit :=
  match node.name with
  | "@for-each" => do
    let _ ← parseEachHeader file node
    validateChildren (childNodes node)
  | "@for-range" => do
    let _ ← parseRangeHeader file node
    validateChildren (childNodes node)
  | "@insert-documents" => do
    let _ ← parseSplice file node
    return ()
  | "@include-fragment" => do
    expectArgs file node 0
    rejectUnknownProps file node ["fragment"]
    rejectUnknownChildren file node []
    let _ ← reqStrProp file node "fragment"
    return ()
  | "node" => do
    validateEscapedKdlNode file node
    validateChildren (childNodes node)
  | name => do
    Checks.when (name.startsWith "@" = true) <| rejectSome (removedControl file node) id
    validatePlainKdlEntries file name none 0 [] node.entries
    validateChildren (childNodes node)

/-- The loop of `validate_structural_kdl_nodes` over one list of siblings. -/
def validateStructuralSiblings (file : FileId)
    (validateChildren : List KdlNode → ParseResult Unit) : List KdlNode → ParseResult Unit
  | [] => .ok ()
  | node :: rest =>
    if isConditionName node.name then do
      let _ ← parseCondition file node
      validateChildren (childNodes node)
      whenSome (elseSibling rest) fun otherwise => do
        validateElse file otherwise
        validateChildren (childNodes otherwise)
      validateStructuralSiblings file validateChildren (afterElse rest)
    else if node.name = "@else" then
      .error (orphanElse file node)
    else do
      validateStructuralNode file validateChildren node
      validateStructuralSiblings file validateChildren rest
termination_by nodes => nodes.length
decreasing_by
  · have := afterElse_length rest
    simp
    omega
  · simp

def validateStructuralKdlNodes (file : FileId) : Nat → List KdlNode → ParseResult Unit
  | 0 => validateStructuralSiblings file fun _ => .ok ()
  | height + 1 => validateStructuralSiblings file (validateStructuralKdlNodes file height)

def validateStructuralKdlDocument (file : FileId) (nodes : List KdlNode) : ParseResult Unit := do
  validateDocumentDepth file nodes
  validateStructuralKdlNodes file (KdlNode.heightList nodes) nodes

def validateCollectionDocument (file : FileId) (value : Value) (context : String) :
    ParseResult Unit :=
  match value with
  | .kdlDocument document =>
    (validateStructuralKdlDocument file document).mapError fun diagnostic =>
      diagnostic.withNote s!"while validating {context}"
  | _ => .ok ()

/-! ## 6. Patches -/

def parseCollectionKey (file : FileId) (node : KdlNode) (entry : Option KdlEntry) :
    ParseResult String :=
  let name := node.name
  let key := ((entry.filter (·.ty.isNone)).bind (·.value.asString)).filter (· != "")
  require key <| nodeError file node Codes.nodeShape
    s!"`{name}` requires a plain, non-empty string key argument"

/-- The key and the payload, whose form the declared item type disambiguates. -/
def parseCollectionItem (file : FileId) (node : KdlNode) : ParseResult (String × Value) := do
  let name := node.name
  let key ← parseCollectionKey file node node.arguments.head?
  if node.properties ≠ [] then do
    reject (node.arguments.length ≠ 1) <| nodeError file node Codes.nodeShape
      s!"`{name}` with field properties takes only the key argument"
    let properties ← parseRawProperties file node
    return (key, .rawRecordLiteral properties (childNodes node))
  else
    match node.arguments, childNodes node with
    | [_], children => return (key, .kdlDocument children)
    | [_, value], [] => do
      let value ← scalarValue file value
      return (key, value)
    | _ :: values@(_ :: _ :: _), [] => do
      let items ← values.mapM (scalarValue file)
      return (key, .list items)
    | _, _ => .error (nodeError file node Codes.nodeShape
        s!"`{name}` takes a key plus either one scalar value or a children block")

def parseValidItem (file : FileId) (node : KdlNode) (context : String) :
    ParseResult (String × Value) := do
  let (key, value) ← parseCollectionItem file node
  validateCollectionDocument file value context
  return (key, value)

def parseReplaceAllItem (file : FileId) (items : List (String × Value × Span)) (node : KdlNode) :
    ParseResult (List (String × Value × Span)) := do
  let (key, value) ← parseValidItem file node "collection replace-all item"
  reject (items.any (·.1 == key) = true) <|
    nodeError file node Codes.duplicate s!"`replace-all` repeats key `{key}`"
  return items ++ [(key, value, nodeSpan file node)]

def parseRemoveOp (file : FileId) (node : KdlNode) : ParseResult PatchOp := do
  rejectUnknownProps file node ["optional"]
  rejectUnknownChildren file node []
  reject (node.arguments.length ≠ 1) <|
    nodeError file node Codes.nodeShape "`remove` requires exactly one collection key"
  let key ← parseCollectionKey file node node.arguments.head?
  let optional ← boolProp file node "optional"
  return .remove key optional (nodeSpan file node)

def parseReplaceAllOp (file : FileId) (node : KdlNode) : ParseResult PatchOp := do
  rejectUnknownProps file node []
  expectArgs file node 0
  rejectUnknownChildren file node ["item"]
  let items ← (childNodes node).foldlM (parseReplaceAllItem file) []
  return .replaceAll items (nodeSpan file node)

def parsePatchOp (file : FileId) (node : KdlNode) : ParseResult PatchOp :=
  match node.name with
  | "replace" => do
    let (key, value) ← parseValidItem file node "collection patch replacement"
    return .replace key value (nodeSpan file node)
  | "append" => do
    let (key, value) ← parseValidItem file node "collection patch append"
    return .append key value (nodeSpan file node)
  | "remove" => parseRemoveOp file node
  | "replace-all" => parseReplaceAllOp file node
  | other => .error (nodeError file node Codes.unknownNode
      s!"unknown patch operation `{other}` (allowed: replace, append, remove, replace-all)")

/-- Whether a text is a dotted path without empty segments. -/
def isFieldPath (path : String) : Bool :=
  path.toList.contains '.' && !(path.toList.splitOn '.').contains []

def parseSetValue (file : FileId) (entry : KdlEntry) : ParseResult Value := do
  let value ← scalarValue file entry
  reject (value.isNull = true) <|
    entryError file entry Codes.nodeShape "use `unset` to clear an optional field"
  return value

def parseFieldPath (file : FileId) (node : KdlNode) (first : KdlEntry) : ParseResult String :=
  let name := node.name
  let path := first.value.asString.filter fun path => first.ty.isNone && isFieldPath path
  require path <| entryError file first Codes.nodeShape
    s!"`{name}` takes a dotted `input.field[.subfield...]` path"

def parseSetPatch (file : FileId) (node : KdlNode) : ParseResult SetPatch := do
  rejectUnknownProps file node []
  rejectUnknownChildren file node []
  let name := node.name
  let first ← require node.arguments.head? <|
    nodeError file node Codes.nodeShape s!"`{name}` requires an `input.field` path"
  let path ← parseFieldPath file node first
  if node.name = "unset" then do
    reject (node.arguments.length ≠ 1) <|
      nodeError file node Codes.nodeShape "`unset` takes only the field path"
    return ⟨path, none, nodeSpan file node⟩
  else do
    let values ← node.arguments.tail.mapM (parseSetValue file)
    match values with
    | [] => .error (nodeError file node Codes.nodeShape
        "`set` requires a value after the field path")
    | [value] => return ⟨path, some value, nodeSpan file node⟩
    | values => return ⟨path, some (.list values), nodeSpan file node⟩

def parsePatchEntry (file : FileId) (node : KdlNode) : ParseResult PatchEntry :=
  if node.name = "set" ∨ node.name = "unset" then do
    let patch ← parseSetPatch file node
    return .field patch
  else do
    rejectUnknownProps file node []
    let collection ← reqStrArg file node
    let ops ← (childNodes node).mapM (parsePatchOp file)
    return .collection ⟨collection, ops, nodeSpan file node⟩

def parsePatches (file : FileId) (node : KdlNode) : ParseResult (List PatchEntry) := do
  rejectUnknownProps file node []
  expectArgs file node 0
  rejectUnknownChildren file node ["collection", "set", "unset"]
  (childNodes node).mapM (parsePatchEntry file)

/-! ## 7. Profiles -/

/-- One operation of a `fragments` block. Any other name was rejected before. -/
def parseFragmentOp (file : FileId) (dir : String) (node : KdlNode) : ParseResult FragmentOp := do
  rejectUnknownProps file node ["source"]
  rejectUnknownChildren file node []
  let fragment ← reqStrArg file node
  let entry ← require (propEntry node "source") <| nodeError file node Codes.nodeShape
    s!"fragment `{fragment}` operation requires `source=\"…\"`"
  let path ← reqStrProp file node "source"
  let body : FragmentOpBody := ⟨fragment, ⟨path, dir, entrySpan file entry⟩, nodeSpan file node⟩
  return if node.name = "replace" then .replace body else .append body

def parseFragmentOps (file : FileId) (dir : String) (node : KdlNode) :
    ParseResult (List FragmentOp) := do
  rejectUnknownProps file node []
  expectArgs file node 0
  rejectUnknownChildren file node ["replace", "append"]
  (childNodes node).mapM (parseFragmentOp file dir)

/-- An optional section: `if let Some(node) = opt_child(node, name)`. -/
def parseSection {α : Type} (node : KdlNode) (name : String)
    (parse : KdlNode → ParseResult (List α)) : ParseResult (List α) :=
  match optChild node name with
  | none => .ok []
  | some child => parse child

def parseInstanceConfig (file : FileId) (dir : String) (node : KdlNode) :
    ParseResult InstanceConfig := do
  rejectUnknownChildren file node ["with", "fragments", "patch"]
  rejectDuplicateChildren file node ["with", "fragments", "patch"]
  let withEntries ← parseSection node "with" (parseWith file)
  let fragments ← parseSection node "fragments" (parseFragmentOps file dir)
  let patchEntries ← parseSection node "patch" (parsePatches file)
  return ⟨withEntries, fragments, patchEntries⟩

def parseParents (file : FileId) (node : KdlNode) : ParseResult (List (String × Span)) := do
  rejectUnknownProps file node []
  rejectUnknownChildren file node []
  node.arguments.mapM fun entry => do
    let parent ← require entry.value.asString <| entryError file entry Codes.nodeShape
      "`extends` expects profile names as string arguments"
    return (parent, entrySpan file entry)

def parseUse (file : FileId) (dir : String) (node : KdlNode) : ParseResult ProfileItem := do
  rejectUnknownProps file node ["as"]
  let module ← reqStrArg file node
  let alias_ ← optStrProp file node "as"
  let config ← parseInstanceConfig file dir node
  return .use module alias_ config (nodeSpan file node)

def parseReplace (file : FileId) (dir : String) (node : KdlNode) : ParseResult ProfileItem := do
  rejectUnknownProps file node ["slot", "module", "as"]
  expectArgs file node 0
  let slot ← reqStrProp file node "slot"
  let module ← reqStrProp file node "module"
  let alias_ ← optStrProp file node "as"
  let config ← parseInstanceConfig file dir node
  return .replace slot module alias_ config (nodeSpan file node)

/-- One child of a profile. Any other name was rejected before. -/
def parseProfileChild (file : FileId) (dir : String) (profile : ProfileDecl) (child : KdlNode) :
    ParseResult ProfileDecl :=
  match child.name with
  | "extends" => do
    let parents ← parseParents file child
    return { profile with parents := profile.parents ++ parents }
  | "use" => do
    let item ← parseUse file dir child
    return { profile with items := profile.items ++ [item] }
  | "replace" => do
    let item ← parseReplace file dir child
    return { profile with items := profile.items ++ [item] }
  | _ => .ok profile

def parseProfile (file : FileId) (dir : String) (node : KdlNode) : ParseResult ProfileDecl := do
  let name ← reqStrArg file node
  rejectUnknownProps file node ["abstract"]
  rejectUnknownChildren file node ["extends", "use", "replace"]
  let abstract_ ← boolProp file node "abstract"
  (childNodes node).foldlM (parseProfileChild file dir)
    ⟨name, abstract_, [], [], nodeSpan file node, dir⟩

def parseExtendProfile (file : FileId) (dir : String) (node : KdlNode) :
    ParseResult ExtendProfile := do
  let profile ← parseProfile file dir node
  reject (profile.abstract_ = true) <| nodeError file node Codes.nodeShape
    "`abstract=` is only valid on a profile declaration, not `extend-profile`"
  return ⟨profile.name, profile.parents, profile.items, profile.span⟩

/-! ## 8. Global variables and slots -/

def parseGlobal (file : FileId) (origin : String) (globals : List GlobalVar) (node : KdlNode) :
    ParseResult (List GlobalVar) := do
  let name := node.name
  reject (name.startsWith "global." = false ∨ name.utf8ByteSize ≤ 7) <|
    (nodeError file node Codes.reservedName
      s!"variable `{name}` must live in the `global.` namespace").withHelp
      "module-scoped values are typed inputs now; only global.* design tokens remain variables"
  reject (globals.any (·.name == name) = true) <|
    nodeError file node Codes.duplicate s!"`variables` sets `{name}` twice"
  rejectUnknownProps file node ["override"]
  rejectUnknownChildren file node []
  expectArgs file node 1
  -- `expect_args` has counted exactly one argument
  let entry ← require node.arguments.head? <|
    nodeError file node Codes.nodeShape "argument count validated"
  let value ← scalarValue file entry
  reject (value.isNull = true) <|
    nodeError file node Codes.nodeShape s!"variable `{name}` must not be #null"
  let overrideExisting ← boolProp file node "override"
  return globals ++ [⟨name, value, overrideExisting, nodeSpan file node, origin⟩]

def parseGlobals (file : FileId) (node : KdlNode) (origin : String) :
    ParseResult (List GlobalVar) := do
  rejectUnknownProps file node []
  expectArgs file node 0
  (childNodes node).foldlM (parseGlobal file origin) []

/-- An integer beyond `usize` is rejected like a non-positive one. -/
def parseSlotMax (file : FileId) (node : KdlNode) : ParseResult SlotMax :=
  let invalid := nodeError file node Codes.nodeShape
    "slot `max` must be a positive integer or \"many\""
  match node.property "max" with
  | none => .ok (some 1)
  | some (.integer count) =>
    if 1 ≤ count ∧ count < 2 ^ 64 then .ok (some count.toNat) else .error invalid
  | some (.string "many") => .ok none
  | some _ => .error invalid

def parseSlot (file : FileId) (slots : List SlotDecl) (node : KdlNode) :
    ParseResult (List SlotDecl) := do
  rejectUnknownProps file node ["max", "description"]
  rejectUnknownChildren file node []
  let name ← reqStrArg file node
  reject (slots.any (·.name == name) = true) <|
    nodeError file node Codes.duplicate s!"duplicate slot `{name}`"
  let max ← parseSlotMax file node
  let description ← optStrProp file node "description"
  return slots ++ [⟨name, max, description, nodeSpan file node⟩]

def parseSlots (file : FileId) (node : KdlNode) : ParseResult (List SlotDecl) := do
  rejectUnknownProps file node []
  expectArgs file node 0
  rejectUnknownChildren file node ["slot"]
  (childNodes node).foldlM (parseSlot file) []

end Malm.Authoring
