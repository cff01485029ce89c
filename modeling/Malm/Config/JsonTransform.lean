/-
Malm.Config.JsonTransform — the built-in canonical JSON transform
(`malm-config/src/transform.rs`).

The writer appends to a buffer and refuses to let it grow past the limit of an output. How
the standard library writes a float is a parameter.
-/
import Malm.Config.Transform
import Malm.Lib.Json

namespace Malm.Config

open Bytes Checks

/-! ## 1. Failures -/

/-- `TransformFailureV1` of the JSON transform: its class, with a message or an error. -/
inductive TransformFailure where
  | invalidRequest (message : String)
  | resourceLimit (message : String)
  | invalidResult (error : TransformContractError)

def TransformResponse.new (output : List UInt8) (mediaType : Text)
    (diagnostics : List RichDiagnostic) : Except TransformContractError TransformResponse := do
  let diagnostics ← canonicalDiagnostics diagnostics
  reject (diagnostics.any (fun diagnostic => diagnostic.severity = .error) = true)
    .errorDiagnosticOnSuccess
  let response : TransformResponse := ⟨output, mediaType, diagnostics⟩
  response.validateShape
  return response

def rejectUnexpectedInputs (request : TransformRequest) (permittedOptions : List RichName)
    (unknownOption unexpectedResources : String) : Except TransformFailure Unit := do
  reject (request.options.keys.any (fun name => name ∉ permittedOptions) = true)
    (.invalidRequest unknownOption)
  reject (request.resources.entries ≠ []) (.invalidRequest unexpectedResources)

/-! ## 2. The writer -/

abbrev JsonWriter := StateT (List UInt8) (Except TransformFailure)

namespace JsonWriter

def append (bytes : List UInt8) : JsonWriter Unit := fun output => do
  reject (maxTransformOutputBytes < output.length + bytes.length)
    (.resourceLimit "JSON output exceeds 67108864 bytes")
  return ((), output ++ bytes)

def appendText (text : Text) : JsonWriter Unit := append (utf8 text)

def indent : Nat → JsonWriter Unit
  | 0 => pure ()
  | depth + 1 => do
    appendText [' ', ' ']
    indent depth

def separator (pretty : Bool) (depth : Nat) : JsonWriter Unit :=
  if pretty then do
    appendText ['\n']
    indent depth
  else pure ()

def lastSeparator (pretty : Bool) (depth : Nat) (isEmpty : Bool) : JsonWriter Unit :=
  if isEmpty then pure () else separator pretty depth

def comma (first : Bool) : JsonWriter Unit := if first then pure () else appendText [',']

def writeChar (character : Char) : JsonWriter Unit :=
  if character = '\x22' then appendText ['\x5c', '\x22']
  else if character = '\x5c' then appendText ['\x5c', '\x5c']
  else if character = '\x08' then appendText ['\x5c', 'b']
  else if character = '\x0c' then appendText ['\x5c', 'f']
  else if character = '\n' then appendText ['\x5c', 'n']
  else if character = '\x0d' then appendText ['\x5c', 'r']
  else if character = '\t' then appendText ['\x5c', 't']
  else if character.toNat ≤ 0x1f then
    appendText ['\x5c', 'u', '0', '0', Json.escapeDigit (character.toNat >>> 4),
      Json.escapeDigit (character.toNat &&& 0x0f)]
  else appendText [character]

def writeString (value : Text) : JsonWriter Unit := do
  appendText ['\x22']
  value.forM writeChar
  appendText ['\x22']

section Values

variable (floatText : FiniteFloat → Text) (pretty : Bool)

/-- The text of a float in `write_value`: a fraction is added where there is none. -/
def jsonFloat (value : FiniteFloat) : Text :=
  let text := floatText value
  if text.any (fun character => character ∈ ['.', 'e', 'E']) then text else text ++ ['.', '0']

mutual

def writeValue (depth : Nat) : TypedValue → JsonWriter Unit
  | .null => appendText ['n', 'u', 'l', 'l']
  | .boolean true => appendText ['t', 'r', 'u', 'e']
  | .boolean false => appendText ['f', 'a', 'l', 's', 'e']
  | .integer value => appendText (toString value.toInt).toList
  | .unsigned value => appendText (toString value.toNat).toList
  | .float value => appendText (jsonFloat floatText value)
  | .string value => writeString value
  | .path value => writeString value.val
  -- `write_list`
  | .list values => do
    appendText ['[']
    writeItems (depth + 1) true values
    lastSeparator pretty depth values.isEmpty
    appendText [']']
  -- `write_map`
  | .record values => do
    appendText ['\x7b']
    writeEntries (depth + 1) true values
    lastSeparator pretty depth values.isEmpty
    appendText ['\x7d']
  | .collection values => do
    appendText ['\x7b']
    writeEntries (depth + 1) true values
    lastSeparator pretty depth values.isEmpty
    appendText ['\x7d']

def writeItems (depth : Nat) (first : Bool) : List TypedValue → JsonWriter Unit
  | [] => pure ()
  | value :: rest => do
    comma first
    separator pretty depth
    writeValue depth value
    writeItems depth false rest

def writeEntries (depth : Nat) (first : Bool) : List (RichKey × TypedValue) → JsonWriter Unit
  | [] => pure ()
  | (key, value) :: rest => do
    comma first
    separator pretty depth
    writeString key.val
    appendText (if pretty then [':', ' '] else [':'])
    writeValue depth value
    writeEntries depth false rest

end

end Values

end JsonWriter

/-! ## 3. The transform -/

def TypedValue.asBool : TypedValue → Option Bool
  | boolean value => some value
  | _ => none

def prettyName : RichName := ⟨['p', 'r', 'e', 't', 't', 'y'], by decide⟩

/-- The option of `transform`, which is off unless it is given. -/
def requestedPretty (request : TransformRequest) : Except TransformFailure Bool :=
  match request.options.get? prettyName with
  | some option =>
    require option.value.asBool
      (.invalidRequest "canonical-json option `pretty` must be boolean")
  | none => .ok false

def canonicalJsonTransform (floatText : FiniteFloat → Text) (request : TransformRequest) :
    Except TransformFailure TransformResponse := do
  rejectUnexpectedInputs request [prettyName]
    "canonical-json accepts only the optional boolean `pretty` option"
    "canonical-json does not accept resources"
  let pretty ← requestedPretty request
  let ((), output) ← (do
    JsonWriter.writeValue floatText pretty 0 request.document.root
    JsonWriter.appendText ['\n'] : JsonWriter Unit) []
  (TransformResponse.new output "application/json".toList []).mapError .invalidResult

end Malm.Config
