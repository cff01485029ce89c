/-
Malm.Pack.LockWire — the lock document (`malm-pack/src/lock.rs`, the wire part).

The decoder validates every text again and builds the lock with its constructors. The JSON
parser and the URL parser are parameters. A struct is read from an object or, as serde
reads it, from an array of its fields.
-/
import Malm.Lib.Json
import Malm.Pack.Object
import Malm.Tree.Codec

namespace Malm.Pack

open Commit Bytes Checks

def lockSchemaVersion : Nat := 1
def maxLockBytes : Nat := 16 * 1024 * 1024
def maxLocalLocatorBytes : Nat := 4096
def maxLocalLocatorSegments : Nat := 64
def maxGitUrlBytes : Nat := 2048
def formatComponentInterface : Text := "format-component/v1".toList

/-! ## 1. Texts -/

def isLowercaseLetter (character : Char) : Bool := 'a' ≤ character && character ≤ 'z'

def isLowercaseAlphanumeric (character : Char) : Bool :=
  isLowercaseLetter character || ('0' ≤ character && character ≤ '9')

def validateSimpleName (maximum : Nat) (tooLong : String) (value : Text) : Except String Unit := do
  reject (maximum < value.byteLen) tooLong
  match value with
  | [] => .error "must not be empty"
  | first :: rest => do
    reject (isLowercaseLetter first = false) "must start with a lowercase ASCII letter"
    reject
      (rest.all (fun character => isLowercaseAlphanumeric character || character = '-') = false)
      "may contain only lowercase ASCII letters, digits, and hyphens"


def validateAlias : Text → Except String Unit := validateSimpleName 32 "must be at most 32 bytes"

def validatePackageSegment (segment : Text) : Except String Unit :=
  match segment with
  | [] => .error "must not contain empty segments"
  | first :: rest => do
    reject (isLowercaseLetter first = false)
      "each segment must start with a lowercase ASCII letter"
    reject (segment.getLast? = some '-') "segments must not end with a hyphen"
    reject
      (rest.all (fun character => isLowercaseAlphanumeric character || character = '-') = false)
      "segments may contain only lowercase ASCII letters, digits, and hyphens"

def validatePackageId (value : Text) : Except String Unit := do
  reject (253 < value.byteLen) "must be at most 253 bytes"
  reject ('.' ∉ value) "must contain at least two dot-separated segments"
  (value.splitOn '.').forM validatePackageSegment

/-- One segment of `validate_local_locator`; whether a normal one was seen. -/
def validateLocatorSegment (sawNormal : Bool) (segment : Text) : Except String Bool := do
  reject (segment = []) "must not contain empty segments"
  reject (segment = ['.']) "must already be lexically normalized"
  if segment = ['.', '.'] then do
    reject (sawNormal = true) "parent segments are allowed only at the beginning"
    return sawNormal
  else do
    reject (Object.maxPathSegmentBytes < segment.byteLen)
      "segments must be at most 255 bytes"
    reject (reservedSegment segment = true) "must not enter reserved .git or lock paths"
    return true

def validateLocalLocator (value : Text) : Except String Unit :=
  if value = ['.'] then .ok ()
  else do
    reject (value = []) "must not be empty"
    reject (maxLocalLocatorBytes < value.byteLen) "must be at most 4096 bytes"
    reject (value.head? = some '/') "must be relative to the root pack"
    reject ('\x5c' ∈ value) "must use slash separators"
    reject (value.any Text.isControl = true) "must not contain control characters"
    reject (maxLocalLocatorSegments < (Text.segments value).length)
      "must contain at most 64 segments"
    let _ ← (Text.segments value).foldlM validateLocatorSegment false

/-- The digits of an object ID, after its tag. -/
def validateHex (count : Nat) (wrongCount : String) (hex : Text) : Except String Unit := do
  reject (hex.byteLen ≠ count) wrongCount
  reject (hex.all (fun character => (hexValue character).isSome) = false)
    "must contain only lowercase hexadecimal digits"

def validateGitObjectId (value : Text) : Except String Unit :=
  match stripName "sha1-".toList value, stripName "sha256-".toList value with
  | some hex, _ => validateHex 40 "sha1 IDs must contain exactly 40 hexadecimal digits" hex
  | none, some hex => validateHex 64 "sha256 IDs must contain exactly 64 hexadecimal digits" hex
  | none, none => .error "must start with sha1- or sha256-"

def validatePackSubdir (value : Text) : Except String Unit :=
  if value = ['.'] then .ok () else Object.validatePackPath value

def isWhitespace (character : Char) : Bool :=
  let code := character.toNat
  (9 ≤ code && code ≤ 13) || code = 32 || code = 0x85 || code = 0xa0 || code = 0x1680 ||
    (0x2000 ≤ code && code ≤ 0x200a) || code = 0x2028 || code = 0x2029 || code = 0x202f ||
      code = 0x205f || code = 0x3000

structure ParsedUrl where
  scheme : Text
  host : Option Text
  username : Text
  password : Option Text
  query : Option Text
  fragment : Option Text
  text : Text
deriving DecidableEq

/-- The parsers of `serde_json` and of the `url` crate. -/
structure WireLibraries where
  /-- `serde_json::from_slice`, of a value without a type. -/
  parseJson : List UInt8 → Option Json
  /-- `Url::parse`. -/
  parseUrl : Text → Option ParsedUrl

section Libraries

variable (libraries : WireLibraries)

def canonicalizeHttpsUrl (value : Text) : Except String Text := do
  reject (maxGitUrlBytes < value.byteLen) "must be at most 2048 bytes"
  reject (value.head?.any isWhitespace = true ∨ value.getLast?.any isWhitespace = true)
    "must not contain leading or trailing whitespace"
  reject ('\x5c' ∈ value) "must not contain backslashes"
  reject (value.any Text.isControl = true) "must not contain control characters"
  let parsed ← require (libraries.parseUrl value) "must be a valid absolute URL"
  reject (parsed.scheme ≠ "https".toList) "must use HTTPS"
  reject (parsed.host = none) "must contain a host"
  reject (parsed.username ≠ [] ∨ parsed.password ≠ none)
    "must not contain embedded credentials"
  reject (parsed.query ≠ none ∨ parsed.fragment ≠ none)
    "must not contain a query or fragment"
  return parsed.text

/-! ## 2. Wire values -/

structure ComponentWire where
  name : ContributionName
  path : PackPath
  digest : Digest
  interface : Text
  executionProfile : Digest

structure NodeWire where
  nodeId : PackNodeId
  packageId : PackageId
  source : LockedSource
  contentDigest : Digest
  dependencies : List LockedDependency
  components : List ComponentWire

structure LockWire where
  schemaVersion : Nat
  rootNodeId : PackNodeId
  nodes : List NodeWire

def ComponentInterface.asStr : ComponentInterface → Text
  | .formatComponent => formatComponentInterface

def NodeWire.ofNode (node : LockedNode) : NodeWire where
  nodeId := node.nodeId
  packageId := node.packageId
  source := node.source
  contentDigest := node.contentDigest
  dependencies := node.dependencies
  components := node.components.map fun component =>
    ⟨component.name, component.path, component.digest, component.interface.asStr,
      component.executionProfile⟩

def LockWire.ofLock {codec : LockCodec} (lock : Lock codec) : LockWire where
  schemaVersion := lockSchemaVersion
  rootNodeId := lock.rootNodeId
  nodes := lock.nodes.map fun node => .ofNode node.toLockedNode

def ComponentWire.toComponent (nodeId : PackNodeId) (wire : ComponentWire) :
    Except LockValidationError LockedComponent := do
  reject (wire.interface ≠ ComponentInterface.formatComponent.asStr)
    (.manifestMismatch nodeId "component has unsupported interface")
  return ⟨wire.name, wire.path, wire.digest, .formatComponent, wire.executionProfile⟩

def NodeWire.toNode (codec : LockCodec) (wire : NodeWire) :
    Except LockValidationError (LockedPack codec) := do
  let components ← wire.components.mapM (ComponentWire.toComponent wire.nodeId)
  let node ← LockedPack.new codec wire.packageId wire.source wire.contentDigest wire.dependencies
    components
  reject (wire.nodeId ≠ node.nodeId) (.nodeIdMismatch wire.nodeId node.nodeId)
  return node

def LockWire.toLock (codec : LockCodec) (wire : LockWire) :
    Except LockValidationError (Lock codec) := do
  let nodes ← wire.nodes.mapM (NodeWire.toNode codec)
  Lock.new wire.rootNodeId nodes

/-! ## 3. Writing -/

def jsonField (key : String) (value : Json) : List Char × Json := (key.toList, value)

def digestJson (digest : Digest) : Json := .string (digestText digest)

def sourceJson : LockedSource → Json
  | .root => .object [jsonField "kind" (.string "root".toList)]
  | .git source => .object [jsonField "kind" (.string "git".toList),
      jsonField "url" (.string source.url), jsonField "commit" (.string source.commit),
      jsonField "subdir" (.string source.subdir)]
  | .localLocator locator => .object [jsonField "kind" (.string "local".toList),
      jsonField "locator" (.string locator)]

def dependencyJson (dependency : LockedDependency) : Json :=
  .object [jsonField "alias" (.string dependency.aliasName),
    jsonField "target_node_id" (digestJson dependency.targetNodeId)]

def componentJson (component : ComponentWire) : Json :=
  .object [jsonField "name" (.string component.name.val),
    jsonField "path" (.string component.path),
    jsonField "digest" (digestJson component.digest),
    jsonField "interface" (.string component.interface),
    jsonField "execution_profile" (digestJson component.executionProfile)]

def nodeJson (node : NodeWire) : Json :=
  .object [jsonField "node_id" (digestJson node.nodeId),
    jsonField "package_id" (.string node.packageId),
    jsonField "source" (sourceJson node.source),
    jsonField "content_digest" (digestJson node.contentDigest),
    jsonField "dependencies" (.array (node.dependencies.map dependencyJson)),
    jsonField "components" (.array (node.components.map componentJson))]

def lockJson (wire : LockWire) : Json :=
  .object [jsonField "schema_version" (.number wire.schemaVersion),
    jsonField "root_node_id" (digestJson wire.rootNodeId),
    jsonField "nodes" (.array (wire.nodes.map nodeJson))]

def encodeLock {codec : LockCodec} (lock : Lock codec) : List UInt8 :=
  utf8 ((lockJson (.ofLock lock)).pretty 0) ++ [10]

/-! ## 4. Reading -/

def structFields (names : List String) : Json → Option (List Json)
  | .object fields =>
    if (fields.map Prod.fst).Nodup ∧ ∀ field ∈ fields, field.1 ∈ names.map String.toList then
      names.mapM fun name => fields.lookup name.toList
    else none
  | .array items => if items.length = names.length then some items else none
  | _ => none

def readString : Json → Option Text
  | .string text => some text
  | _ => none

def readValidated (validate : Text → Except String Unit) (json : Json) : Option Text :=
  (readString json).filter fun text => (validate text).toOption.isSome

def readDigestJson (json : Json) : Option Digest :=
  (readString json).bind fun text => (Tree.digestOf text).map Subtype.val

def readContributionName (json : Json) : Option ContributionName :=
  (readString json).bind contributionName

def readGitUrl (json : Json) : Option Text :=
  (readString json).bind fun text => (canonicalizeHttpsUrl libraries text).toOption

def readArray {α : Type} (read : Json → Option α) : Json → Option (List α)
  | .array items => items.mapM read
  | _ => none

def readTagged (tag : Text) (content : Json) : Option LockedSource :=
  if tag = "root".toList then
    match content with
    | .array (_ :: _) => none
    | _ => some .root
  else if tag = "git".toList then do
    match ← structFields ["url", "commit", "subdir"] content with
    | [url, commit, subdir] =>
      return .git ⟨← readGitUrl libraries url, ← readValidated validateGitObjectId commit,
        ← readValidated validatePackSubdir subdir⟩
    | _ => none
  else if tag = "local".toList then do
    match ← structFields ["locator"] content with
    | [locator] => return .localLocator (← readValidated validateLocalLocator locator)
    | _ => none
  else none

def readSource : Json → Option LockedSource
  | .object fields => do
    let tag ← fields.lookup "kind".toList
    readTagged libraries (← readString tag)
      (.object (fields.filter fun field => field.1 ≠ "kind".toList))
  | .array (tag :: items) => do readTagged libraries (← readString tag) (.array items)
  | _ => none

def readDependency (json : Json) : Option LockedDependency := do
  match ← structFields ["alias", "target_node_id"] json with
  | [aliasName, target] =>
    return ⟨← readValidated validateAlias aliasName, ← readDigestJson target⟩
  | _ => none

def readComponent (json : Json) : Option ComponentWire := do
  match ← structFields ["name", "path", "digest", "interface", "execution_profile"] json with
  | [name, path, digest, interface, profile] =>
    return ⟨← readContributionName name, ← readValidated Object.validatePackPath path,
      ← readDigestJson digest, ← readString interface, ← readDigestJson profile⟩
  | _ => none

def readNode (json : Json) : Option NodeWire := do
  match ← structFields ["node_id", "package_id", "source", "content_digest", "dependencies",
    "components"] json with
  | [nodeId, packageId, source, contentDigest, dependencies, components] =>
    return ⟨← readDigestJson nodeId, ← readValidated validatePackageId packageId,
      ← readSource libraries source, ← readDigestJson contentDigest,
      ← readArray readDependency dependencies, ← readArray readComponent components⟩
  | _ => none

def readNumberBelow (bound : Nat) : Json → Option Nat
  | .number value => if value < bound then some value else none
  | _ => none

def readLockWire (json : Json) : Option LockWire := do
  match ← structFields ["schema_version", "root_node_id", "nodes"] json with
  | [version, root, nodes] =>
    return ⟨← readNumberBelow (2 ^ 32) version, ← readDigestJson root,
      ← readArray (readNode libraries) nodes⟩
  | _ => none

/-- `Deserialize for VersionProbe`, which ignores other fields. -/
def versionProbe : Json → Option Nat
  | .object fields => (fields.lookup "schema_version".toList).bind (readNumberBelow (2 ^ 64))
  | .array [version] => readNumberBelow (2 ^ 64) version
  | _ => none

inductive LockReadError where
  | tooLarge (limit actual : Nat)
  | malformedJson
  | unsupportedVersion (expected found : Nat)
  | invalidLock (error : LockValidationError)

def decodeLock (codec : LockCodec) (bytes : List UInt8) : Except LockReadError (Lock codec) := do
  reject (maxLockBytes < bytes.length) (.tooLarge maxLockBytes bytes.length)
  let json ← require (libraries.parseJson bytes) .malformedJson
  reject (json.noDuplicateKeys = false) .malformedJson
  let version ← require (versionProbe json) .malformedJson
  reject (version ≠ lockSchemaVersion) (.unsupportedVersion lockSchemaVersion version)
  let wire ← require (readLockWire libraries json) .malformedJson
  reject (wire.schemaVersion ≠ lockSchemaVersion)
    (.unsupportedVersion lockSchemaVersion wire.schemaVersion)
  (wire.toLock codec).mapError .invalidLock

end Libraries

end Malm.Pack
