/-
Malm.Authoring.Workspace — the include-walking loader over a captured
source set and the overlays on top of it (`workspace.rs`).

A document is read by the KDL library, which is a parameter
(`DocumentReader`). The walk keeps the documents it is inside of on a
stack of at most `MAX_INCLUDE_DEPTH`, so its recursion is on the depth
that is left.
-/
import Malm.Authoring.Parse

namespace Malm.Authoring

open Checks

/-! ## 1. Captured sources -/

def maxAuthoringDocumentBytes : Nat := 1024 * 1024
def maxTotalDocumentBytes : Nat := 4 * 1024 * 1024
def maxIncludeDepth : Nat := 16
def maxDocuments : Nat := 64

def pathSegments (path : String) : List String :=
  (path.toList.splitOn '/').map String.ofList

def isSourcePath (path : String) : Bool :=
  path != "" && !path.startsWith "/" &&
    (pathSegments path).all fun segment => segment != "" && segment != "." && segment != ".."

/-- `AuthoringSourceSetV1`: the captured files of a pack. -/
structure AuthoringSourceSet where
  files : List (String × ByteArray)
  valid : ∀ file ∈ files, isSourcePath file.1 = true

def AuthoringSourceSet.get (sources : AuthoringSourceSet) (path : String) : Option ByteArray :=
  sources.files.lookup path

/-- The KDL library: what `text.parse::<KdlDocument>()` returns. -/
abbrev DocumentReader := String → Except String KdlDocument

def parentDirectory (path : String) : String :=
  "/".intercalate (pathSegments path).dropLast

def isExternalPath (path : String) : Bool :=
  path == "~" || path.startsWith "~/" || path.startsWith "/"

def normalizeComponent (stack : List String) (component : String) : List String :=
  if component = "" ∨ component = "." then stack
  else if component = ".." then
    match stack with
    | [] => [".."]
    | top :: rest => if top = ".." then ".." :: top :: rest else rest
  else component :: stack

def normalizeLexical (path : String) : List String :=
  ((pathSegments path).foldl normalizeComponent []).reverse

def joinDirectory (directory path : String) : String :=
  if directory = "" then path else directory ++ "/" ++ path

def renderPath (components : List String) : String :=
  if components = [] then "." else "/".intercalate components

/-! ## 2. Root sections -/

structure ConfigSettings where
  target : String
  defaultProfile : Option String
  requiredState : Option String
deriving DecidableEq, Repr

structure MetaSection where
  name : Option String
  author : Option String
  homepage : Option String
  malmVersion : Option String
deriving DecidableEq, Repr

structure AssetEntry where
  name : String
  url : String
  dst : String
  format : String
  sha256 : Option String
  path : Option String
  installedCheck : Option String
  refreshFontCache : Bool
deriving DecidableEq, Repr

structure AssetManifest where
  requireSha256 : Bool
  assets : List AssetEntry
deriving DecidableEq, Repr

structure OverlayDecl where
  name : String
  path : String
  optional : Bool
deriving DecidableEq, Repr

structure OverlaySource where
  name : String
  bytes : ByteArray
deriving DecidableEq

structure SourceFile where
  path : String
  text : String
  includeChain : List String
deriving DecidableEq, Repr

abbrev SourceMap := List SourceFile

namespace Workspace

/-! The shape checks of `workspace.rs` report texts without a span. -/

/-- The loop of `reject_unknown_props`: `seen` holds the names read so far. -/
def rejectUnknownPropsFrom (node : KdlNode) (allowed : List String) :
    List String → List KdlEntry → Except String Unit
  | _, [] => .ok ()
  | seen, entry :: entries =>
    match entry.name with
    | none => rejectUnknownPropsFrom node allowed seen entries
    | some name =>
      let owner := node.name
      if ¬ allowed.contains name then
        let suffix := allowedSuffix allowed
        .error s!"`{owner}` node: unknown property `{name}`{suffix}"
      else if seen.contains name then
        .error s!"`{owner}` node: duplicate property `{name}`"
      else
        rejectUnknownPropsFrom node allowed (name :: seen) entries

def rejectUnknownProps (node : KdlNode) (allowed : List String) : Except String Unit :=
  rejectUnknownPropsFrom node allowed [] node.entries

def rejectUnknownChildren (node : KdlNode) (allowed : List String) : Except String Unit :=
  (childNodes node).forM fun child =>
    let owner := node.name
    let name := child.name
    let suffix := allowedSuffix allowed
    reject (allowed.contains child.name = false)
      s!"`{owner}` node: unknown child `{name}`{suffix}"

def boolProp (node : KdlNode) (prop : String) : Except String Bool :=
  let owner := node.name
  match node.property prop with
  | none => .ok false
  | some value => require value.asBool
      s!"`{owner}` node: property `{prop}` must be a boolean (#true or #false)"

def expectArgCount (node : KdlNode) (expected : Nat) : Except String Unit :=
  let owner := node.name
  let count := node.arguments.length
  reject (count ≠ expected)
    s!"`{owner}` node: expected {expected} positional argument(s), found {count}"

def reqStrArg (node : KdlNode) : Except String String := do
  expectArgCount node 1
  let owner := node.name
  require ((node.argument 0).bind KdlValue.asString)
    s!"`{owner}` node: missing required string argument"

def optStrProp (node : KdlNode) (prop : String) : Except String (Option String) :=
  let owner := node.name
  match node.property prop with
  | none => .ok none
  | some value => (require value.asString
      s!"`{owner}` node: property `{prop}` must be a string").map some

def reqStrProp (node : KdlNode) (prop : String) : Except String String := do
  let value ← optStrProp node prop
  let owner := node.name
  require value s!"`{owner}` node: missing required property `{prop}`"

/-! ## 3. Assets -/

def optChildStr (node : KdlNode) (name asset : String) : Except String (Option String) :=
  match optChild node name with
  | none => .ok none
  | some child => (require ((child.argument 0).bind KdlValue.asString)
      s!"asset `{asset}`: `{name}` must be a string").map some

def reqChildStr (node : KdlNode) (name asset : String) : Except String String := do
  let value ← optChildStr node name asset
  require value s!"asset `{asset}`: missing required `{name}`"

def isAssetName (name : String) : Bool :=
  name != "" && name.toList.all fun c => c.isAlphanum || c == '-' || c == '_' || c == '.'

def isLowerHexDigest (digest : String) : Bool :=
  digest.utf8ByteSize == 64 &&
    digest.toList.all fun c => c.isDigit || (decide ('a' ≤ c) && decide (c ≤ 'f'))

def isPayloadPath (path : String) : Bool := isSourcePath path && !path.startsWith "~"

def parseRefresh (node : KdlNode) (asset : String) : Except String Bool :=
  match optChild node "refresh-font-cache" with
  | none => .ok false
  | some child => require ((child.argument 0).bind KdlValue.asBool)
      s!"asset `{asset}`: refresh-font-cache must be a boolean"

def parseAssetEntry (node : KdlNode) : Except String AssetEntry := do
  rejectUnknownProps node []
  expectArgCount node 1
  rejectUnknownChildren node
    ["url", "dst", "format", "sha256", "path", "installed-check", "refresh-font-cache"]
  let name ← require ((node.argument 0).bind KdlValue.asString)
    "`asset` node: missing name argument"
  reject (isAssetName name = false) s!"asset name `{name}` contains invalid characters"
  let url ← reqChildStr node "url" name
  reject (url.startsWith "https://" = false) s!"asset `{name}`: url must use https://"
  let dst ← reqChildStr node "dst" name
  let format ← reqChildStr node "format" name
  reject (["tar", "zip", "tar-xz", "tar-gz"].contains format = false)
    s!"asset `{name}`: unknown format `{format}` (allowed: tar, zip, tar-xz, tar-gz)"
  let sha256 ← optChildStr node "sha256" name
  reject (sha256.all isLowerHexDigest = false)
    s!"asset `{name}`: sha256 must be 64 lowercase hex characters"
  let path ← optChildStr node "path" name
  reject (path.all isPayloadPath = false)
    s!"asset `{name}`: path must be a plain pack-relative file path"
  let installedCheck ← optChildStr node "installed-check" name
  let refreshFontCache ← parseRefresh node name
  return ⟨name, url, dst, format, sha256, path, installedCheck, refreshFontCache⟩

def addAsset (requireSha256 : Bool) (assets : List AssetEntry) (node : KdlNode) :
    Except String (List AssetEntry) := do
  let asset ← parseAssetEntry node
  let name := asset.name
  reject (assets.any (·.name == name) = true) s!"assets: duplicate asset name `{name}`"
  reject (requireSha256 = true ∧ asset.sha256 = none)
    s!"asset `{name}`: missing required `sha256`"
  return assets ++ [asset]

def parseAssetManifest (node : KdlNode) : Except String AssetManifest := do
  rejectUnknownProps node ["require-sha256"]
  rejectUnknownChildren node ["asset"]
  expectArgCount node 0
  let requireSha256 ←
    if (node.property "require-sha256").isSome then boolProp node "require-sha256" else pure true
  let assets ← (childNodes node).foldlM (addAsset requireSha256) []
  return ⟨requireSha256, assets⟩

/-! ## 4. The walk -/

/-- `Walker`, with the diagnostics; the stack of documents is an argument of the walk. -/
structure Walker (Output : Type) where
  visited : List String
  seenCount : Nat
  totalBytes : Nat
  sourceMap : SourceMap
  settings : Option ConfigSettings
  metadata : Option MetaSection
  assets : Option AssetManifest
  overlays : List OverlayDecl
  parsed : ParsedWorkspace Output
  externalIncludesSkipped : List String
  diagnostics : Diagnostics

def Walker.initial {Output : Type} (diagnostics : Diagnostics) : Walker Output :=
  ⟨[], 0, 0, [], none, none, none, [], .default, [], diagnostics⟩

variable {Output : Type}

/-- A language-level declaration: a problem is reported and the walk goes on. -/
def declare {α : Type} (walker : Walker Output) (result : ParseResult α)
    (add : ParsedWorkspace Output → α → ParsedWorkspace Output) : Walker Output :=
  match result with
  | .ok value => { walker with parsed := add walker.parsed value }
  | .error diagnostic => { walker with diagnostics := walker.diagnostics ++ [diagnostic] }

def consumeConfig (node : KdlNode) (path : String) (walker : Walker Output) :
    Except String (Walker Output) := do
  reject (walker.settings.isSome = true) s!"{path}: duplicate `config` node"
  rejectUnknownProps node ["target", "default-profile", "required-state"]
  rejectUnknownChildren node []
  expectArgCount node 0
  let target ← reqStrProp node "target"
  let defaultProfile ← optStrProp node "default-profile"
  let requiredState ← optStrProp node "required-state"
  return { walker with settings := some ⟨target, defaultProfile, requiredState⟩ }

def consumeMeta (node : KdlNode) (path : String) (walker : Walker Output) :
    Except String (Walker Output) := do
  reject (walker.metadata.isSome = true) s!"{path}: duplicate `meta` node"
  rejectUnknownProps node ["name", "author", "homepage", "malm-version"]
  rejectUnknownChildren node []
  expectArgCount node 0
  let name ← optStrProp node "name"
  let author ← optStrProp node "author"
  let homepage ← optStrProp node "homepage"
  let malmVersion ← optStrProp node "malm-version"
  return { walker with metadata := some ⟨name, author, homepage, malmVersion⟩ }

def consumeAssets (node : KdlNode) (path : String) (walker : Walker Output) :
    Except String (Walker Output) := do
  reject (walker.assets.isSome = true) s!"{path}: duplicate `assets` node"
  let manifest ← parseAssetManifest node
  return { walker with assets := some manifest }

def consumeOverlay (node : KdlNode) (path : String) (walker : Walker Output) :
    Except String (Walker Output) := do
  rejectUnknownProps node ["path", "optional"]
  rejectUnknownChildren node []
  let name ← reqStrArg node
  let overlayPath ← reqStrProp node "path"
  reject (isExternalPath overlayPath = false)
    s!"{path}: overlay `{name}` path must be `~/`-relative or absolute                          (pack-internal documents use `include`)"
  reject (walker.overlays.any (·.name == name) = true)
    s!"{path}: duplicate overlay `{name}`"
  let optional ← boolProp node "optional"
  return { walker with overlays := walker.overlays ++ [⟨name, overlayPath, optional⟩] }

section Walk

variable (reader : DocumentReader) (grammar : ModuleGrammar Output) (sources : AuthoringSourceSet)

def consumeNode (node : KdlNode) (path : String) (file : FileId) (walker : Walker Output) :
    Except String (Walker Output) :=
  let dir := parentDirectory path
  match node.name with
  | "config" => consumeConfig node path walker
  | "meta" => consumeMeta node path walker
  | "assets" => consumeAssets node path walker
  | "variables" => .ok <| declare walker (parseGlobals file node path) fun parsed globals =>
      { parsed with globals := parsed.globals ++ globals }
  | "module" => .ok <| declare walker (parseModule grammar file dir node) fun parsed module =>
      { parsed with modules := parsed.modules ++ [module] }
  | "extend-module" =>
    .ok <| declare walker (parseExtendModule grammar file dir node) fun parsed extension =>
      { parsed with extensions := parsed.extensions ++ [extension] }
  | "profile" => .ok <| declare walker (parseProfile file dir node) fun parsed profile =>
      { parsed with profiles := parsed.profiles ++ [profile] }
  | "extend-profile" =>
    .ok <| declare walker (parseExtendProfile file dir node) fun parsed extension =>
      { parsed with profileExtensions := parsed.profileExtensions ++ [extension] }
  | "overlay" => consumeOverlay node path walker
  | "slots" => .ok <| declare walker (parseSlots file node) fun parsed slots =>
      { parsed with slots := parsed.slots ++ slots }
  | other => .error
      s!"{path}: unknown top-level node `{other}` (allowed: config, meta, assets, variables, module, extend-module, profile, extend-profile, slots, include, overlay)"

/-- `expand_include`, given the walk of the included document. -/
def expandInclude (expand : String → Walker Output → Except String (Walker Output))
    (node : KdlNode) (including : String) (walker : Walker Output) :
    Except String (Walker Output) := do
  rejectUnknownProps node ["optional"]
  rejectUnknownChildren node []
  let raw ← reqStrArg node
  let optional ← boolProp node "optional"
  if isExternalPath raw then
    return if walker.externalIncludesSkipped.contains raw then walker else
      { walker with externalIncludesSkipped := walker.externalIncludesSkipped ++ [raw] }
  else do
    let normalized := normalizeLexical (joinDirectory (parentDirectory including) raw)
    reject (normalized.head? = some "..")
      s!"{including}: include `{raw}` escapes the source root"
    let resolved := renderPath normalized
    if (sources.get resolved).isNone then do
      reject (optional = false)
        s!"{including}: included document not captured: {resolved}"
      return walker
    else
      expand resolved walker

/-- The loop body of `expand_document` over the nodes of a document. -/
def expandNode (expand : String → Walker Output → Except String (Walker Output)) (root : Bool)
    (path : String) (file : FileId) (walker : Walker Output) (node : KdlNode) :
    Except String (Walker Output) :=
  let name := node.name
  if node.name = "include" then
    expandInclude sources expand node path walker
  else if root = false ∧ ["config", "meta", "assets", "overlay"].contains node.name then
    .error s!"{path}: `{name}` is only allowed in the root configuration"
  else
    consumeNode grammar node path file walker

def readDocument (bytes : ByteArray) (notText : String) (describe : String → String) :
    Except String (String × KdlDocument) := do
  let text ← require (String.fromUTF8? bytes) notText
  let document ← (reader text).mapError describe
  return (text, document)

/-- Charge, read and register a captured document. -/
def openDocument (stack : List String) (path : String) (walker : Walker Output) :
    Except String (KdlDocument × FileId × Walker Output) := do
  let bytes ← require (sources.get path) s!"config document not captured: {path}"
  let size := bytes.size
  reject (maxAuthoringDocumentBytes < size)
    s!"config document is too large ({size} bytes, max {maxAuthoringDocumentBytes}): {path}"
  let total := walker.totalBytes + size
  reject (maxTotalDocumentBytes < total)
    s!"included configuration exceeds {maxTotalDocumentBytes} total bytes"
  let (text, document) ← readDocument reader bytes s!"configuration is not UTF-8: {path}"
    fun error => s!"parse {path}: {error}"
  return (document, ⟨walker.sourceMap.length⟩, { walker with
    totalBytes := total
    seenCount := walker.seenCount + 1
    sourceMap := walker.sourceMap ++ [⟨path, text, stack⟩] })

def expandDocument : Nat → List String → String → Bool → Walker Output →
    Except String (Walker Output)
  | 0, _, path, _, _ =>
    .error s!"maximum include depth ({maxIncludeDepth}) exceeded at {path}"
  | depthLeft + 1, stack, path, root, walker => do
    let chain := " -> ".intercalate (stack ++ [path])
    reject (stack.contains path = true) s!"include cycle detected: {chain}"
    reject (maxDocuments ≤ walker.seenCount)
      s!"maximum config document count ({maxDocuments}) exceeded"
    if walker.visited.contains path then
      return walker
    else do
      let (document, file, walker) ← openDocument reader sources stack path
        { walker with visited := path :: walker.visited }
      document.foldlM (expandNode grammar sources
        (fun included => expandDocument depthLeft (stack ++ [path]) included false) root path file)
        walker

end Walk

end Workspace

/-! ## 5. Loading -/

open Workspace

structure LoadedWorkspace (Output : Type) where
  settings : ConfigSettings
  metadata : Option MetaSection
  assets : Option AssetManifest
  parsed : ParsedWorkspace Output
  sourceMap : SourceMap
  overlays : List OverlayDecl
  externalIncludesSkipped : List String
  diagnostics : Diagnostics

variable {Output : Type}

/-- A declaration that parses is checked and added, or else it is reported. -/
def declareOverlay {α : Type} (loaded : LoadedWorkspace Output) (result : ParseResult α)
    (check : α → Except String Unit) (add : ParsedWorkspace Output → α → ParsedWorkspace Output) :
    Except String (LoadedWorkspace Output) :=
  match result with
  | .ok value => do
    check value
    return { loaded with parsed := add loaded.parsed value }
  | .error diagnostic => .ok { loaded with diagnostics := loaded.diagnostics ++ [diagnostic] }

def usesFragments : ProfileItem → Bool
  | .use _ _ config _ => !config.fragments.isEmpty
  | .replace _ _ _ _ _ => false

def checkOverlayProfile (label : String) (extension : ExtendProfile) : Except String Unit :=
  reject (extension.items.any usesFragments = true)
    s!"{label}: fragment operations are not allowed in                                      overlays (they reference files outside the pack)"

def checkOverlayModule (label : String) (extension : ExtendModule Output) : Except String Unit :=
  reject (extension.fragments.isEmpty = false ∨ extension.outputs.isEmpty = false)
    s!"{label}: fragment and output declarations are not allowed                              in overlays (they reference files outside the pack)"

section Loading

variable (reader : DocumentReader) (grammar : ModuleGrammar Output)

def applyOverlayNode (label : String) (file : FileId) (loaded : LoadedWorkspace Output)
    (node : KdlNode) : Except String (LoadedWorkspace Output) :=
  match node.name with
  | "variables" =>
    declareOverlay loaded (parseGlobals file node label) (fun _ => .ok ()) fun parsed globals =>
      { parsed with globals := parsed.globals ++ globals }
  | "extend-profile" =>
    declareOverlay loaded (parseExtendProfile file "" node) (checkOverlayProfile label)
      fun parsed extension =>
        { parsed with profileExtensions := parsed.profileExtensions ++ [extension] }
  | "extend-module" =>
    declareOverlay loaded (parseExtendModule grammar file "" node) (checkOverlayModule label)
      fun parsed extension => { parsed with extensions := parsed.extensions ++ [extension] }
  | other => .error
      s!"{label}: `{other}` is not allowed in an overlay                      (allowed: variables, extend-profile, extend-module)"

def applyOverlay (loaded : LoadedWorkspace Output) (declared : OverlayDecl) (bytes : ByteArray) :
    Except String (LoadedWorkspace Output) := do
  let name := declared.name
  let path := declared.path
  let size := bytes.size
  reject (maxAuthoringDocumentBytes < size)
    s!"overlay `{name}` is too large ({size} bytes, max {maxAuthoringDocumentBytes})"
  let (text, document) ← readDocument reader bytes s!"overlay `{name}` is not UTF-8"
    fun error => s!"parse overlay `{name}`: {error}"
  document.foldlM (applyOverlayNode grammar s!"overlay `{name}` ({path})"
      ⟨loaded.sourceMap.length⟩)
    { loaded with sourceMap := loaded.sourceMap ++ [⟨path, text, []⟩] }

def suppliedOverlay (overlays : List OverlaySource) (declared : OverlayDecl) :
    Option OverlaySource :=
  overlays.find? (·.name == declared.name)

/-- The overlay loop of `load_workspace` passes over those that are not supplied. -/
def applyDeclared (overlays : List OverlaySource) (loaded : LoadedWorkspace Output)
    (declared : OverlayDecl) : Except String (LoadedWorkspace Output) :=
  match suppliedOverlay overlays declared with
  | none => .ok loaded
  | some supplied => applyOverlay reader grammar loaded declared supplied.bytes

/-- The part of `load_workspace` that reads the captured documents. -/
def loadCaptured (sources : AuthoringSourceSet) (entry : String) (diagnostics : Diagnostics) :
    Except String (LoadedWorkspace Output) := do
  let walker ← expandDocument reader grammar sources maxIncludeDepth [] entry true
    (Walker.initial diagnostics)
  let settings ← require walker.settings s!"{entry}: missing required `config` node"
  return ⟨settings, walker.metadata, walker.assets, walker.parsed, walker.sourceMap,
    walker.overlays, walker.externalIncludesSkipped, walker.diagnostics⟩

def loadWorkspace (sources : AuthoringSourceSet) (entry : String) (overlays : List OverlaySource)
    (diagnostics : Diagnostics) : Except String (LoadedWorkspace Output) := do
  let loaded ← loadCaptured reader grammar sources entry diagnostics
  overlays.forM fun supplied =>
    let name := supplied.name
    reject (loaded.overlays.any (·.name == supplied.name) = false)
      s!"supplied overlay `{name}` is not declared by the root configuration"
  loaded.overlays.foldlM (applyDeclared reader grammar overlays) loaded

end Loading

end Malm.Authoring
