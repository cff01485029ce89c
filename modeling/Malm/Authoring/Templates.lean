/-
Malm.Authoring.Templates — templates with substitutions, and the codecs that write a
value into one (`text.rs`, `value.rs`).

Delimiters, quotes and backslashes are ASCII, so scanners of bytes and of characters
stop at the same places. How floats are written, what `serde_json` does with one
string or float, and the constraints of refinements are parameters.
-/
import Malm.Authoring.Syntax
import Malm.Authoring.Escape
import Malm.Pack.LockWire

namespace Malm.Authoring

open Pack

/-! ## 1. Numbers -/

/-- What formatting of the standard library and `serde_json` provide. -/
structure TextFormats where
  /-- `format_float`. -/
  formatFloat : Float64 → Text
  /-- `serde_json::to_string` of a string and of a float, with its default on failure. -/
  jsonString : Text → Text
  jsonFloat : Float64 → Text
  /-- `serde_json::from_str::<String>`. -/
  parseJsonString : Text → Option Text

/-- The float of an integer with at most 53 significant bits. -/
def Float64.ofExact (value : Int) : Float64 :=
  let exponent := value.natAbs.log2
  let significand := value.natAbs * 2 ^ 52 / 2 ^ exponent
  ⟨BitVec.ofNat 64 ((if value < 0 then 2 ^ 63 else 0) + (exponent + 1023) * 2 ^ 52 +
    (significand - 2 ^ 52))⟩

/-- Rounding to 53 significant bits keeps an integer with zeros below them. -/
def exactI64ToF64 (value : Int) : Option Float64 :=
  if value = 0 then some ⟨0⟩
  else if value.natAbs % 2 ^ (value.natAbs.log2 - 52) = 0 then some (.ofExact value)
  else none

def intText (value : Int) : Text := (toString value).toList
def boolText (value : Bool) : Text :=
  if value then ['t', 'r', 'u', 'e'] else ['f', 'a', 'l', 's', 'e']

/-! ## 2. Types -/

def Value.typeLabel : Value → Text
  | null => "null".toList
  | bool _ => "bool".toList
  | int _ => "int".toList
  | float _ => "float".toList
  | string _ => "string".toList
  | path _ => "path".toList
  | list _ => "list".toList
  | record _ => "record".toList
  | collection _ => "collection".toList
  | kdlDocument _ => "kdl-document".toList
  | rawRecordLiteral _ _ => "raw-record-literal".toList
  | unresolvedListDefault _ _ => "unresolved-list-default".toList

def FieldSchema.name : FieldSchema → String
  | mk name _ _ _ _ _ => name

inductive LoweredList where
  | homogeneous (item : Ty)
  | tuple (types : List Ty)

/-- `LoweredType`: the shape of the values of a type. -/
inductive LoweredType where
  | bool
  | int
  | float
  | string
  | path
  | enum (values : List String)
  | list (items : LoweredList)
  | record
  | collection (item : Ty)
  | kdlDocument
  | optional
  | named

def LoweredType.isScalar : LoweredType → Bool
  | bool | int | float | string | path | enum _ => true
  | _ => false

namespace Ty

def isOptional : Ty → Bool
  | optional _ => true
  | _ => false

def loweredType : Ty → LoweredType
  | bool => .bool
  | int => .int
  | float => .float
  | string => .string
  | path => .path
  | enum values => .enum values
  | list item => .list (.homogeneous item)
  | set item => .list (.homogeneous item)
  | tuple types => .list (.tuple types)
  | record _ => .record
  | variant _ _ => .record
  | collection item => .collection item
  | map item => .collection item
  | kdlDocument => .kdlDocument
  | optional _ => .optional
  | named _ => .named
  | refine _ base _ _ _ _ _ => base.loweredType

mutual

def display : Ty → Text
  | bool => "bool".toList
  | int => "int".toList
  | float => "float".toList
  | string => "string".toList
  | path => "path".toList
  | enum values =>
    "enum\x7b".toList ++ [',', ' '].intercalate (values.map String.toList) ++ ['\x7d']
  | list item => "list<".toList ++ item.display ++ ['>']
  | record _ => "record".toList
  | collection item => "collection<".toList ++ item.display ++ ['>']
  | kdlDocument => "kdl-document".toList
  | optional inner => "optional<".toList ++ inner.display ++ ['>']
  | named name => name.toList
  | variant _ _ => "variant".toList
  | refine name _ _ _ _ _ _ => name.toList
  | map item => "map<".toList ++ item.display ++ ['>']
  | tuple types => "tuple<".toList ++ [',', ' '].intercalate (displayAll types) ++ ['>']
  | set item => "set<".toList ++ item.display ++ ['>']

def displayAll : List Ty → List Text
  | [] => []
  | first :: rest => first.display :: displayAll rest

end

section Accepts

/-! Whether a value meets the constraints of a refinement: `RefineSchema::validate` of
the name, the base, the bounds and the format. -/

variable (meets : Ty → Value → Bool)

mutual

def accepts : Ty → Value → Bool
  | optional inner, value => value.isNull || inner.accepts value
  | bool, .bool _ => true
  | int, .int _ => true
  | float, .float _ => true
  | float, .int value => (exactI64ToF64 value).isSome
  | string, .string _ => true
  | path, .path _ => true
  | path, .string _ => true
  | enum values, .string value => values.contains value
  | list item, .list values => values.all fun value => item.accepts value
  | set item, .list values => values.all fun value => item.accepts value
  | tuple types, .list values => values.length == types.length && acceptsAll types values
  | record fields, .record values =>
    acceptsFields fields values &&
      values.all fun entry => fields.any fun field => field.name == entry.1
  | collection item, .collection items => items.all fun entry => item.accepts entry.2.1
  | map item, .collection items => items.all fun entry => item.accepts entry.2.1
  | kdlDocument, .kdlDocument _ => true
  | refine name base min max format unit span, value =>
    !value.isNull && base.accepts value && meets (refine name base min max format unit span) value
  | _, _ => false

/-- The items of a tuple, type by type. -/
def acceptsAll : List Ty → List Value → Bool
  | ty :: types, value :: values => ty.accepts value && acceptsAll types values
  | _, _ => true

def acceptsFields : List FieldSchema → List (String × Value) → Bool
  | [], _ => true
  | .mk name ty required default _ _ :: rest, values =>
    (match (values.find? fun entry => entry.1 == name).map Prod.snd with
      | some value =>
        if value.isNull then ty.isOptional || (!required && default.isNone) else ty.accepts value
      | none => default.isSome || !required || ty.isOptional) && acceptsFields rest values

end

end Accepts

end Ty

/-! ## 3. Codecs -/

inductive Codec where
  | text
  | int
  | float
  | bool
  | tomlString
  | tomlArray
  | json
  | shellWord
  | lua
  | raw
  | auto
deriving DecidableEq

namespace Codec

def parse (name : Text) : Option Codec :=
  if name = "text".toList then some text
  else if name = "int".toList then some int
  else if name = "float".toList then some float
  else if name = "bool".toList then some bool
  else if name = "toml-string".toList then some tomlString
  else if name = "toml-array".toList then some tomlArray
  else if name = "json".toList then some json
  else if name = "shell-word".toList ∨ name = "shell".toList then some shellWord
  else if name = "lua".toList then some lua
  else if name = "raw".toList then some raw
  else none

def label : Codec → Text
  | text => "text".toList
  | int => "int".toList
  | float => "float".toList
  | bool => "bool".toList
  | tomlString => "toml-string".toList
  | tomlArray => "toml-array".toList
  | json => "json".toList
  | shellWord => "shell-word".toList
  | lua => "lua".toList
  | raw => "raw".toList
  | auto => "auto".toList

def isTomlScalarType (ty : Ty) : Bool := ty.loweredType.isScalar

def acceptsType (codec : Codec) (ty : Ty) : Bool :=
  !ty.isOptional &&
    match codec, ty.loweredType with
    | text, .string | text, .path | text, .enum _ => true
    | int, .int => true
    | float, .float | float, .int => true
    | bool, .bool => true
    | tomlArray, .list (.homogeneous item) => isTomlScalarType item
    | tomlArray, .list (.tuple types) => types.all isTomlScalarType
    | text, _ | int, _ | float, _ | bool, _ | tomlArray, _ => false
    | _, lowered => lowered.isScalar

end Codec

section Formats

variable (formats : TextFormats)

/-- The message about a value that a codec does not take. -/
def requires (name : Text) (expected : String) (value : Value) : Text :=
  ['\x60'] ++ name ++ "\x60 requires ".toList ++ expected.toList ++ ", found ".toList ++
    value.typeLabel

def tomlScalar : Value → Except Text Text
  | .string value | .path value => .ok (tomlString value.toList)
  | .int value => .ok (intText value)
  | .float value => .ok (formats.formatFloat value)
  | .bool value => .ok (boolText value)
  | other => .error (requires "toml-array".toList "TOML scalar items" other)

def scalarText (codec : Codec) : Value → Except Text Text
  | .string value | .path value => .ok value.toList
  | .int value => .ok (intText value)
  | .float value => .ok (formats.formatFloat value)
  | .bool value => .ok (boolText value)
  | other => .error (requires codec.label "a scalar" other)

def Codec.encode (codec : Codec) (value : Value) : Except Text Text :=
  if value.isNull then
    .error "value is #null; guard the reference with \x60@if-present\x60".toList
  else
    match codec, value with
    | .text, .string value | .text, .path value => .ok value.toList
    | .text, other => .error (requires codec.label "a string" other)
    | .int, .int value => .ok (intText value)
    | .int, other => .error (requires codec.label "an int" other)
    | .float, .float value => .ok (formats.formatFloat value)
    | .float, .int value =>
      match exactI64ToF64 value with
      | some converted => .ok (formats.formatFloat converted)
      | none =>
        .error ("integer \x60".toList ++ intText value ++
          "\x60 cannot be represented exactly as a float".toList)
    | .float, other => .error (requires codec.label "a float" other)
    | .bool, .bool value => .ok (boolText value)
    | .bool, other => .error (requires codec.label "a bool" other)
    | .tomlString, value => (scalarText formats codec value).map Authoring.tomlString
    | .tomlArray, .list items => do
      let encoded ← items.mapM (tomlScalar formats)
      return '[' :: ([',', ' '].intercalate encoded ++ [']'])
    | .tomlArray, other => .error (requires codec.label "a list" other)
    | .json, .string value | .json, .path value => .ok (formats.jsonString value.toList)
    | .json, .int value => .ok (intText value)
    | .json, .float value => .ok (formats.jsonFloat value)
    | .json, .bool value => .ok (boolText value)
    | .json, other => .error (requires codec.label "a scalar" other)
    | .shellWord, value => (scalarText formats codec value).map Authoring.shellWord
    | .lua, .string value | .lua, .path value =>
      .ok ('\x22' :: (luaEscape value.toList ++ ['\x22']))
    | .lua, .int value => .ok (intText value)
    | .lua, .float value => .ok (formats.formatFloat value)
    | .lua, .bool value => .ok (boolText value)
    | .lua, other => .error (requires codec.label "a scalar" other)
    | .raw, value => scalarText formats codec value
    | .auto, value => scalarText formats codec value

/-! ## 4. Templates -/

inductive Directive where
  | substitute (codec : Codec) (name : Text)
  | literal (text : Text)
deriving DecidableEq

inductive Segment where
  | text (text : Text)
  | directive (raw : Text) (parsed : Directive)
deriving DecidableEq

/-- `str::find("{{")`: the text before the first opening delimiter, and behind it. -/
def findOpen : Text → Option (Text × Text)
  | [] => none
  | first :: rest =>
    if first = '\x7b' ∧ rest.head? = some '\x7b' then some ([], rest.tail)
    else (findOpen rest).map fun found => (first :: found.1, found.2)

def findDirectiveClose (inString escaped : Bool) : Text → Option Nat
  | [] => none
  | character :: rest =>
    if escaped then (findDirectiveClose inString false rest).map (· + 1)
    else if character = '\x5c' ∧ inString = true then
      (findDirectiveClose inString true rest).map (· + 1)
    else if character = '\x22' then (findDirectiveClose (!inString) false rest).map (· + 1)
    else if character = '\x7d' ∧ inString = false ∧ rest.head? = some '\x7d' then some 0
    else (findDirectiveClose inString false rest).map (· + 1)

def trim (value : Text) : Text :=
  ((value.dropWhile isWhitespace).reverse.dropWhile isWhitespace).reverse

def splitWhitespace (value : Text) : List Text := (value.splitOnP isWhitespace).filter (· ≠ [])

/-- `str::strip_prefix("literal")`, with whitespace behind it. -/
def literalArgument (trimmed : Text) : Option Text :=
  if "literal".toList.isPrefixOf trimmed ∧ (trimmed.drop 7).head?.any isWhitespace = true then
    some (trim (trimmed.drop 7))
  else none

def delimited (raw : Text) : Text := "\x7b\x7b".toList ++ raw ++ "\x7d\x7d".toList

def unknownCodec (name : Text) : Text :=
  "unknown codec \x60".toList ++ name ++
    ("\x60 (known: text, int, float, bool, toml-string, toml-array, json, shell-word, shell, " ++
      "lua, raw, literal)").toList

def parseDirective (raw : Text) : Except Text Directive :=
  let trimmed := trim raw
  match literalArgument trimmed with
  | some argument =>
    match formats.parseJsonString argument with
    | some inner => .ok (.literal inner)
    | none =>
      .error ("\x60literal\x60 expects one escape-aware double-quoted string: " ++
        "\x7b\x7bliteral \"…\"\x7d\x7d").toList
  | none =>
    if trimmed.head? = some '#' ∨ trimmed.head? = some '/' ∨
        "include".toList.isPrefixOf trimmed = true then
      .error (['\x60'] ++ delimited raw ++
        ("\x60: templates are substitution-only — control flow and includes live in KDL " ++
          "outputs (when / each / range / emit-file)").toList)
    else
      match splitWhitespace trimmed with
      | [token] =>
        match token.idxOf? ':' with
        | none => .ok (.substitute .auto token)
        | some colon =>
          if token.take colon = [] then
            .error ("malformed directive \x60".toList ++ delimited raw ++ "\x60: empty path".toList)
          else
            match Codec.parse (token.drop (colon + 1)) with
            | some codec => .ok (.substitute codec (token.take colon))
            | none => .error (unknownCodec (token.drop (colon + 1)))
      | _ =>
        .error ("malformed directive \x60".toList ++ delimited raw ++
          ("\x60; use \x60\x7b\x7bpath\x7d\x7d\x60 or \x60\x7b\x7bpath:codec\x7d\x7d\x60 " ++
            "(control flow lives in KDL outputs)").toList)

/-- The loop of `parse_template_with`: each round takes two characters or more. -/
def parseSegments : Nat → Text → Except Text (List Segment)
  | _, [] => .ok []
  | 0, _ :: _ => .ok []
  | fuel + 1, first :: tail =>
    match findOpen (first :: tail) with
    | none => .ok [.text (first :: tail)]
    | some (before, after) =>
      match findDirectiveClose false false after with
      | none => .error "unterminated \x60\x7b\x7b\x60 directive".toList
      | some close => do
        let parsed ← parseDirective formats (after.take close)
        let rest ← parseSegments fuel (after.drop (close + 2))
        return (if before = [] then [] else [.text before]) ++
          .directive (after.take close) parsed :: rest

def parseTemplateWith (input : Text) : Except Text (List Segment) :=
  parseSegments formats input.length input

def checkSegment (lookup : Text → Option Ty) : Segment → List Text
  | .directive _ (.substitute codec name) =>
    match lookup name with
    | none => [['\x60'] ++ name ++ "\x60 is not defined in this module's scope".toList]
    | some ty =>
      if codec.acceptsType ty then []
      else
        [['\x60'] ++ delimited (codec.label ++ [' '] ++ name) ++ "\x60: codec \x60".toList ++
          codec.label ++ "\x60 does not accept ".toList ++ ty.display]
  | _ => []

def checkTemplateWithV3 (input : Text) (lookup : Text → Option Ty) : List Text :=
  match parseTemplateWith formats input with
  | .error message => [message]
  | .ok segments => segments.flatMap (checkSegment lookup)

def appendWithLimit (out value : Text) (maxBytes : Nat) : Except Text Text :=
  if maxBytes < out.byteLen + value.byteLen then
    .error ("rendered template exceeds the maximum of ".toList ++ (toString maxBytes).toList ++
      " bytes".toList)
  else .ok (out ++ value)

def segmentText (lookup : Text → Option Value) : Segment → Except Text Text
  | .text text => .ok text
  | .directive _ (.literal text) => .ok text
  | .directive raw (.substitute codec name) => do
    let value ← Checks.require (lookup name)
      (['\x60'] ++ name ++ "\x60 is not defined (in \x60".toList ++ delimited raw ++ "\x60)".toList)
    (codec.encode formats value).mapError fun message =>
      message ++ " (in \x60".toList ++ delimited raw ++ "\x60)".toList

def renderSegment (lookup : Text → Option Value) (maxBytes : Nat) (out : Text)
    (segment : Segment) : Except Text Text := do
  let text ← segmentText formats lookup segment
  appendWithLimit out text maxBytes

def renderTemplateWithLimit (input : Text) (lookup : Text → Option Value) (maxBytes : Nat) :
    Except Text Text := do
  let segments ← parseTemplateWith formats input
  segments.foldlM (renderSegment formats lookup maxBytes) []

end Formats

end Malm.Authoring
