/-
Malm.Authoring.Kdl — KDL documents as abstract syntax, the diagnostics of
the authoring language (`diag.rs`), and the span-aware accessors of `kdl_util.rs`.

A document is what the KDL library returns, a list of nodes with ordered entries and an
optional block of children. A float is its bit pattern.
-/
import Malm.Lib.Checks

namespace Malm.Authoring

open Checks

/-! ## 1. Documents -/

/-- An `f64`, as its bit pattern. -/
structure Float64 where
  bits : BitVec 64
deriving DecidableEq, Repr

/-- `f64::is_finite`: not all eleven exponent bits are set. -/
def Float64.isFinite (value : Float64) : Bool :=
  value.bits.extractLsb' 52 11 != 0x7ff#11

/-- `KdlValue`. The library holds an integer as an `i128`. -/
inductive KdlValue where
  | string (value : String)
  | integer (value : Int)
  | float (value : Float64)
  | bool (value : Bool)
  | null
deriving DecidableEq, Repr

namespace KdlValue

def asString : KdlValue → Option String
  | string value => some value
  | _ => none

def asInteger : KdlValue → Option Int
  | integer value => some value
  | _ => none

def asBool : KdlValue → Option Bool
  | bool value => some value
  | _ => none

end KdlValue

/-- A byte range of the document a node or entry was read from. -/
structure SourceSpan where
  offset : Nat
  len : Nat
deriving DecidableEq, Repr

/-- One argument (`name = none`) or property of a node. -/
structure KdlEntry where
  name : Option String
  ty : Option String
  value : KdlValue
  span : SourceSpan
deriving DecidableEq, Repr

/-- A node: its annotation, name, entries in order, and its block if any. -/
inductive KdlNode where
  | mk (ty : Option String) (name : String) (entries : List KdlEntry)
      (children : Option (List KdlNode)) (span : SourceSpan)

abbrev KdlDocument := List KdlNode

namespace KdlNode

def ty : KdlNode → Option String
  | mk ty _ _ _ _ => ty

def name : KdlNode → String
  | mk _ name _ _ _ => name

def entries : KdlNode → List KdlEntry
  | mk _ _ entries _ _ => entries

def children : KdlNode → Option KdlDocument
  | mk _ _ _ children _ => children

def span : KdlNode → SourceSpan
  | mk _ _ _ _ span => span

/-- The positional arguments: `node.iter().filter(|e| e.name().is_none())`. -/
def arguments (node : KdlNode) : List KdlEntry :=
  node.entries.filter (·.name.isNone)

/-- The properties: `node.iter().filter(|e| e.name().is_some())`. -/
def properties (node : KdlNode) : List KdlEntry :=
  node.entries.filter (·.name.isSome)

def argument (node : KdlNode) (index : Nat) : Option KdlValue :=
  node.arguments[index]?.map (·.value)

def property (node : KdlNode) (name : String) : Option KdlValue :=
  (node.entries.reverse.find? (·.name == some name)).map (·.value)

mutual

/-- The nesting of blocks below and including a node. -/
def height : KdlNode → Nat
  | mk _ _ _ none _ => 1
  | mk _ _ _ (some children) _ => heightList children + 1

def heightList : List KdlNode → Nat
  | [] => 0
  | node :: nodes => max node.height (heightList nodes)

end

end KdlNode

/-! ## 2. Diagnostics -/

/-- `FileId`: the index of a file in the source map. -/
structure FileId where
  index : Nat
deriving DecidableEq, Repr

/-- `Span`: a byte range inside one source file. -/
structure Span where
  file : FileId
  offset : Nat
  len : Nat
deriving DecidableEq, Repr

inductive Severity where
  | error
  | warning
deriving DecidableEq, Repr

structure Label where
  message : String
  span : Span
deriving DecidableEq, Repr

structure Diagnostic where
  severity : Severity
  code : String
  message : String
  span : Option Span
  labels : List Label
  help : Option String
  notes : List String
deriving DecidableEq, Repr

namespace Diagnostic

def error (code message : String) : Diagnostic :=
  { severity := .error, code, message, span := none, labels := [], help := none, notes := [] }

def withSpan (diagnostic : Diagnostic) (span : Span) : Diagnostic :=
  { diagnostic with span := some span }

def withHelp (diagnostic : Diagnostic) (help : String) : Diagnostic :=
  { diagnostic with help := some help }

def withNote (diagnostic : Diagnostic) (note : String) : Diagnostic :=
  { diagnostic with notes := diagnostic.notes ++ [note] }

end Diagnostic

/-- `Diagnostics`: what was reported so far, in order. -/
abbrev Diagnostics := List Diagnostic

namespace Codes

/-! The stable codes of `diag::codes`, as far as the modelled functions
report them. -/

def unknownNode := "MALM1002"
def nodeShape := "MALM1003"
def duplicate := "MALM1004"
def reservedName := "MALM1006"
def badRef := "MALM2101"
def whenPredicate := "MALM2304"
def fragment := "MALM3008"
def budget := "MALM4001"
def binding := "MALM4003"

end Codes

abbrev ParseResult (α : Type) := Except Diagnostic α

/-! ## 3. Shape checks and accessors -/

def nodeSpan (file : FileId) (node : KdlNode) : Span :=
  ⟨file, node.span.offset, node.span.len⟩

def entrySpan (file : FileId) (entry : KdlEntry) : Span :=
  ⟨file, entry.span.offset, entry.span.len⟩

def nodeError (file : FileId) (node : KdlNode) (code message : String) : Diagnostic :=
  (Diagnostic.error code message).withSpan (nodeSpan file node)

def entryError (file : FileId) (entry : KdlEntry) (code message : String) : Diagnostic :=
  (Diagnostic.error code message).withSpan (entrySpan file entry)

/-- The node's children, or none when it declares no block. -/
def childNodes (node : KdlNode) : List KdlNode := node.children.getD []

def propEntry (node : KdlNode) (prop : String) : Option KdlEntry :=
  node.entries.find? (·.name == some prop)

def optChild (node : KdlNode) (name : String) : Option KdlNode :=
  (childNodes node).find? (·.name == name)

def maxControlNesting : Nat := 16

/-- The first node that lies too deep; the `pending` stack pops the last sibling first. -/
def tooDeep : Nat → KdlNode → Option KdlNode
  | 0, node => some node
  | remaining + 1, node => (childNodes node).reverse.findSome? (tooDeep remaining)

def validateDocumentDepth (file : FileId) (nodes : List KdlNode) : ParseResult Unit :=
  rejectSome (nodes.reverse.findSome? (tooDeep maxControlNesting)) fun node =>
    nodeError file node Codes.budget
      s!"document nesting exceeds the maximum depth of {maxControlNesting}"

/-- Requires exactly `expected` positional arguments. -/
def expectArgs (file : FileId) (node : KdlNode) (expected : Nat) : ParseResult Unit :=
  let count := node.arguments.length
  let name := node.name
  reject (count ≠ expected) <| nodeError file node Codes.nodeShape
    s!"`{name}` expects {expected} positional argument(s), found {count}"

/-- The suffix ` (allowed: …)` of the messages about unknown names. -/
def allowedSuffix (allowed : List String) : String :=
  if allowed.isEmpty then "" else
    let names := ", ".intercalate allowed
    s!" (allowed: {names})"

/-- The loop of `reject_unknown_props`: `seen` holds the names read so far. -/
def rejectUnknownPropsFrom (file : FileId) (node : KdlNode) (allowed : List String) :
    List String → List KdlEntry → ParseResult Unit
  | _, [] => .ok ()
  | seen, entry :: entries =>
    match entry.name with
    | none => rejectUnknownPropsFrom file node allowed seen entries
    | some name =>
      let owner := node.name
      if ¬ allowed.contains name then
        let suffix := allowedSuffix allowed
        .error (entryError file entry Codes.nodeShape
          s!"`{owner}` has unknown property `{name}`{suffix}")
      else if seen.contains name then
        .error (entryError file entry Codes.duplicate s!"`{owner}` sets property `{name}` twice")
      else
        rejectUnknownPropsFrom file node allowed (name :: seen) entries

def rejectUnknownProps (file : FileId) (node : KdlNode) (allowed : List String) :
    ParseResult Unit :=
  rejectUnknownPropsFrom file node allowed [] node.entries

def rejectUnknownChildren (file : FileId) (node : KdlNode) (allowed : List String) :
    ParseResult Unit :=
  (childNodes node).forM fun child =>
    let owner := node.name
    let name := child.name
    let suffix := allowedSuffix allowed
    reject (allowed.contains child.name = false) <| nodeError file child Codes.nodeShape
      s!"`{owner}` has unknown child `{name}`{suffix}"

def rejectDuplicateChildren (file : FileId) (node : KdlNode) (singletons : List String) :
    ParseResult Unit :=
  singletons.forM fun name =>
    let owner := node.name
    rejectSome ((childNodes node).filter (·.name == name))[1]? fun second =>
      nodeError file second Codes.duplicate s!"`{owner}` has more than one `{name}` child"

def reqStrArg (file : FileId) (node : KdlNode) : ParseResult String := do
  expectArgs file node 1
  let name := node.name
  require ((node.argument 0).bind KdlValue.asString) <|
    nodeError file node Codes.nodeShape s!"`{name}` requires a string argument"

def optStrProp (file : FileId) (node : KdlNode) (prop : String) : ParseResult (Option String) :=
  match propEntry node prop with
  | none => .ok none
  | some entry =>
    let name := node.name
    (require entry.value.asString <| entryError file entry Codes.nodeShape
      s!"`{name}`: property `{prop}=` must be a string").map some

def reqStrProp (file : FileId) (node : KdlNode) (prop : String) : ParseResult String := do
  let value ← optStrProp file node prop
  let name := node.name
  require value <| nodeError file node Codes.nodeShape
    s!"`{name}` is missing the required property `{prop}=`"

def boolProp (file : FileId) (node : KdlNode) (prop : String) : ParseResult Bool :=
  match propEntry node prop with
  | none => .ok false
  | some entry =>
    let name := node.name
    require entry.value.asBool <| entryError file entry Codes.nodeShape
      s!"`{name}`: property `{prop}=` must be #true or #false"

def asI64 (value : Int) : Option Int :=
  if -2 ^ 63 ≤ value ∧ value < 2 ^ 63 then some value else none

def intProp (file : FileId) (node : KdlNode) (prop : String) : ParseResult (Option Int) :=
  match propEntry node prop with
  | none => .ok none
  | some entry =>
    let name := node.name
    match entry.value.asInteger with
    | some value =>
      (require (asI64 value) <| entryError file entry Codes.nodeShape
        s!"`{name}`: property `{prop}=` is out of range for a 64-bit integer").map some
    | none =>
      .error (entryError file entry Codes.nodeShape
        s!"`{name}`: property `{prop}=` must be an integer")

/-! ## 4. References and conditions -/

/-- Returns whether an entry carries the `(ref)` type annotation. -/
def isRef (entry : KdlEntry) : Bool := entry.ty == some "ref"

/-- A `(ref)"name"` reference, possibly dotted. -/
structure Ref where
  name : String
  span : Span
deriving DecidableEq, Repr

def parseRef (file : FileId) (entry : KdlEntry) : ParseResult Ref := do
  reject (isRef entry = false) <|
    (entryError file entry Codes.badRef "expected a `(ref)\"name\"` reference").withHelp
      "annotate the value with the `ref` type: (ref)\"my-input\""
  let name ← require entry.value.asString <|
    entryError file entry Codes.badRef "a `(ref)` value must be a string"
  reject (name = "") <|
    entryError file entry Codes.badRef "a `(ref)` name must not be empty"
  return ⟨name, entrySpan file entry⟩

def plainRef (file : FileId) (entry : KdlEntry) (context : String) : ParseResult Ref := do
  reject (entry.ty.isSome = true) <| entryError file entry Codes.badRef
    s!"{context} is a plain string, not a typed value"
  let name ← require (entry.value.asString.filter (· != "")) <|
    entryError file entry Codes.badRef s!"{context} must be a non-empty string"
  return ⟨name, entrySpan file entry⟩

def isConditionName (name : String) : Bool :=
  name == "@if" || name == "@if-present" || name == "@if-nonempty"

def removedControlReplacement : String → Option String
  | "when" | "@when" => some "@if"
  | "when-set" | "@when-set" => some "@if-present"
  | "when-nonempty" | "@when-nonempty" => some "@if-nonempty"
  | "each" | "@each" => some "@for-each"
  | "range" | "@range" => some "@for-range"
  | "@spread" => some "@insert-fields"
  | "splice" | "@splice" => some "@insert-documents"
  | "@file" => some "@include-file"
  | "compose" | "@compose" => some "@include-fragment"
  | "@raw" => some "@raw-text"
  | "@transform" => some "@component-transform"
  | _ => none

def removedControl (file : FileId) (node : KdlNode) : Option Diagnostic :=
  (removedControlReplacement node.name).map fun replacement =>
    let name := node.name
    nodeError file node Codes.unknownNode s!"`{name}` was removed; use `{replacement}`"

def validateElse (file : FileId) (node : KdlNode) : ParseResult Unit := do
  expectArgs file node 0
  rejectUnknownProps file node []

def orphanElse (file : FileId) (node : KdlNode) : Diagnostic :=
  nodeError file node Codes.nodeShape
    "`@else` must immediately follow an `@if`, `@if-present`, or `@if-nonempty` sibling"

def parseEachHeader (file : FileId) (node : KdlNode) : ParseResult (String × Ref) := do
  rejectUnknownProps file node ["in"]
  let binding ← reqStrArg file node
  reject (binding = "") <|
    nodeError file node Codes.binding "`@for-each` binding must not be empty"
  let entry ← require (propEntry node "in") <|
    nodeError file node Codes.nodeShape "`@for-each` requires `in=\"source\"`"
  let source ← plainRef file entry "`@for-each in=` reference"
  return (binding, source)

def parseRangeHeader (file : FileId) (node : KdlNode) : ParseResult (String × Int × Int) := do
  rejectUnknownProps file node ["from", "through"]
  let binding ← reqStrArg file node
  reject (binding = "") <|
    nodeError file node Codes.binding "`@for-range` binding must not be empty"
  let first ← intProp file node "from"
  let first ← require first <|
    nodeError file node Codes.nodeShape "`@for-range` requires `from=<int>`"
  let last ← intProp file node "through"
  let last ← require last <|
    nodeError file node Codes.nodeShape "`@for-range` requires `through=<int>`"
  return (binding, first, last)

def parseSplice (file : FileId) (node : KdlNode) : ParseResult Ref := do
  rejectUnknownProps file node []
  rejectUnknownChildren file node []
  expectArgs file node 1
  -- `expect_args` has counted exactly one argument
  let entry ← require node.arguments.head? <|
    nodeError file node Codes.nodeShape "one argument checked"
  plainRef file entry "`@insert-documents` collection reference"

end Malm.Authoring
