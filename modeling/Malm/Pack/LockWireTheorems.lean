/-
Malm.Pack.LockWireTheorems — which lock documents are read back.

Every text of a lock was validated when its type was built (`WellTyped`), and the
reader validates it again. Only `GitUrl` bounds the text it is given and keeps the
canonical one, which can be longer. So a lock is read back exactly when its URLs and
its document fit (`decodeLock_encodeLock_iff`).
-/
import Malm.Pack.LockWire
import Malm.Pack.LockTheorems
import Malm.Tree.CodecTheorems

namespace Malm.Pack

open Commit Checks List Option Prod Json NodeWire LockWire

variable {names : List String} {values : List Json} {node : LockedNode}

variable {dependency : LockedDependency} {fields : List (List Char × Json)} {url v : Text}

/-! ## 1. Structs -/

theorem lookup_of_mem {key : List Char} {value : Json} (hnodup : (fields.map fst).Nodup)
    (hmem : (key, value) ∈ fields) :
    fields.lookup key = some value := by
  induction fields with
  | nil => cases hmem
  | cons field rest ih =>
    rw [map_cons, nodup_cons] at hnodup
    rcases mem_cons.1 hmem with rfl | hrest
    · simp
    · have hne : key ≠ field.1 := fun heq =>
        hnodup.1 (mem_map.2 ⟨(key, value), hrest, heq⟩)
      rw [lookup_cons, beq_eq_false_iff_ne.2 hne]
      exact ih hnodup.2 hrest

theorem keys_zipWith {vs : List Json}
    (hlen : names.length = vs.length) :
    (zipWith jsonField names vs).map fst = names.map String.toList := by
  induction names generalizing vs with
  | nil => simp
  | cons name names ih =>
    cases vs with
    | nil => simp at hlen
    | cons v vs => simp [jsonField, ih (Nat.succ.inj hlen)]

theorem mapM_lookup (hnodup : (fields.map fst).Nodup)
    (hlen : names.length = values.length)
    (hfields : ∀ field ∈ zipWith jsonField names values, field ∈ fields) :
    (names.mapM fun name => fields.lookup name.toList) = some values := by
  induction names generalizing values with
  | nil =>
    cases values with
    | nil => rfl
    | cons v values => simp at hlen
  | cons name names ih =>
    cases values with
    | nil => simp at hlen
    | cons v values =>
      have hfirst := hfields (jsonField name v) (by simp)
      have hrest := ih (Nat.succ.inj hlen) fun field hfield => hfields field (by simp [hfield])
      rw [mapM_cons, lookup_of_mem hnodup hfirst, hrest]
      simp

theorem structFields_object
    (hlen : names.length = values.length) (hnodup : (names.map String.toList).Nodup) :
    structFields names (.object (zipWith jsonField names values)) = some values := by
  have hkeys := keys_zipWith hlen
  have hfields : ((zipWith jsonField names values).map fst).Nodup := by
    rw [hkeys]
    exact hnodup
  have hknown : ∀ field ∈ zipWith jsonField names values,
      field.1 ∈ names.map String.toList := by
    intro field hfield
    rw [← hkeys]
    exact mem_map_of_mem hfield
  rw [structFields, if_pos ⟨hfields, hknown⟩]
  exact mapM_lookup hfields hlen fun _ hfield => hfield

theorem readArray_map {α β : Type} {read : Json → Option β} {write : α → Json} (wire : α → β)
    (fits : α → Prop) [DecidablePred fits] {vs : List α}
    (h : ∀ v ∈ vs, read (write v) = if fits v then some (wire v) else none) :
    readArray read (.array (vs.map write)) =
      if ∀ v ∈ vs, fits v then some (vs.map wire) else none := by
  rw [readArray]
  induction vs with
  | nil => simp
  | cons v rest ih =>
    rw [map_cons, mapM_cons, h v mem_cons_self,
      ih fun other hother => h other (mem_cons_of_mem _ hother)]
    by_cases hrest : ∀ other ∈ rest, fits other
    · rw [if_pos hrest]
      by_cases hvalue : fits v
      · rw [if_pos hvalue, if_pos (forall_mem_cons.2 ⟨hvalue, hrest⟩)]
        rfl
      · rw [if_neg hvalue, if_neg fun hall => hvalue (hall v mem_cons_self)]
        rfl
    · rw [if_neg hrest, if_neg fun hall => hrest (forall_mem_cons.1 hall).2]
      split <;> rfl

theorem readArray_map_all {α : Type} {read : Json → Option α} {write : α → Json} {values : List α}
    (h : ∀ v ∈ values, read (write v) = some v) :
    readArray read (.array (values.map write)) = some values := by
  rw [readArray_map id (fun _ => True) fun v hvalue => by simp [h v hvalue]]
  simp

/-! ## 2. Texts -/

theorem readDigestJson_digestJson {digest : Digest} (h : digest.value < 16 ^ 64) :
    readDigestJson (digestJson digest) = some digest := by
  have hdigest : Tree.digestOf (digestText digest) = some ⟨digest, h⟩ :=
    Tree.digestOf_eq_some.2 rfl
  rw [readDigestJson, digestJson, readString, bind_some, hdigest]
  rfl

theorem readValidated_string {validate : Text → Except String Unit} {text : Text}
    (h : validate text = .ok ()) : readValidated validate (.string text) = some text := by
  rw [readValidated, readString, filter_some, h]
  rfl

theorem readContributionName_string (name : ContributionName) :
    readContributionName (.string name.val) = some name := by
  rw [readContributionName, readString, bind_some, contributionName_val]

section Libraries

variable (libraries : WireLibraries)

/-- The `url` crate: a serialization parses as its URL, in printable ASCII without a backslash. -/
structure UrlLaws : Prop where
  reparse : ∀ (value : Text) (parsed : ParsedUrl), libraries.parseUrl value = some parsed →
    parsed.scheme = "https".toList → libraries.parseUrl parsed.text = some parsed
  printable : ∀ (value : Text) (parsed : ParsedUrl), libraries.parseUrl value = some parsed →
    parsed.scheme = "https".toList → parsed.query = none → parsed.fragment = none →
    ∀ character ∈ parsed.text,
      0x20 < character.toNat ∧ character.toNat < 0x7f ∧ character ≠ '\x5c'

variable {libraries}

theorem isWhitespace_printable {c : Char} (hlow : 0x20 < c.toNat)
    (hhigh : c.toNat < 0x7f) : isWhitespace c = false := by
  simp only [isWhitespace, Bool.or_eq_false_iff, Bool.and_eq_false_iff, decide_eq_false_iff_not]
  omega

theorem canonicalizeHttpsUrl_canonical (laws : UrlLaws libraries) {r : Text}
    (h : canonicalizeHttpsUrl libraries v = .ok url) :
    canonicalizeHttpsUrl libraries url = .ok r ↔
      url.byteLen ≤ maxGitUrlBytes ∧ r = url := by
  simp only [canonicalizeHttpsUrl, bind_ok, exists_unit, reject_ok,
    require_ok, pure_ok, not_or, not_not] at h ⊢
  obtain ⟨-, -, -, -, parsed, hparsed, hscheme, hhost, hcredentials, hparts, rfl⟩ := h
  have hprintable := laws.printable v parsed hparsed hscheme hparts.1 hparts.2
  have hblank : ∀ c ∈ parsed.text, isWhitespace c = false :=
    fun c hchar =>
      isWhitespace_printable (hprintable c hchar).1
        (hprintable c hchar).2.1
  have hhead : ¬ parsed.text.head?.any isWhitespace = true := by
    simp only [Option.any_eq_true, not_exists, not_and, Bool.not_eq_true]
    exact fun c hchar => hblank c (mem_of_mem_head? hchar)
  have hlast : ¬ parsed.text.getLast?.any isWhitespace = true := by
    simp only [Option.any_eq_true, not_exists, not_and, Bool.not_eq_true]
    exact fun c hchar => hblank c (mem_of_mem_getLast? hchar)
  have hslash : '\x5c' ∉ parsed.text := fun hmem => (hprintable _ hmem).2.2 rfl
  have hcontrol : ¬ parsed.text.any Text.isControl = true := by
    simp only [List.any_eq_true, not_exists, not_and, Bool.not_eq_true]
    intro c hchar
    have hrange := hprintable c hchar
    simp only [Text.isControl, Bool.or_eq_false_iff, Bool.and_eq_false_iff, decide_eq_false_iff_not]
    omega
  have hreparse := laws.reparse v parsed hparsed hscheme
  rw [not_lt]
  constructor
  · rintro ⟨hfits, -, -, -, again, hagain, -, -, -, -, rfl⟩
    rw [hreparse, some.injEq] at hagain
    exact ⟨hfits, by rw [hagain]⟩
  · rintro ⟨hfits, rfl⟩
    exact ⟨hfits, ⟨hhead, hlast⟩, hslash, hcontrol, parsed, hreparse, hscheme, hhost, hcredentials,
      hparts, rfl⟩

theorem readGitUrl_string (laws : UrlLaws libraries)
    (h : canonicalizeHttpsUrl libraries v = .ok url) :
    readGitUrl libraries (.string url) =
      if url.byteLen ≤ maxGitUrlBytes then some url else none := by
  ext result
  rw [readGitUrl, readString, bind_some, toOption_eq_some, canonicalizeHttpsUrl_canonical laws h]
  by_cases hfits : url.byteLen ≤ maxGitUrlBytes
  · simp [hfits, eq_comm]
  · simp [hfits]

/-! ## 3. Parts of a node -/

/-- The canonical URL of a source is one that the reader accepts. -/
def LockedSource.UrlFits : LockedSource → Prop
  | .git source => source.url.byteLen ≤ maxGitUrlBytes
  | _ => True

instance : DecidablePred LockedSource.UrlFits
  | .root => inferInstanceAs (Decidable True)
  | .git source => inferInstanceAs (Decidable (source.url.byteLen ≤ maxGitUrlBytes))
  | .localLocator _ => inferInstanceAs (Decidable True)

variable (libraries)

def LockedSource.WellTyped : LockedSource → Prop
  | .root => True
  | .git source => (∃ value, canonicalizeHttpsUrl libraries value = .ok source.url) ∧
      validateGitObjectId source.commit = .ok () ∧ validatePackSubdir source.subdir = .ok ()
  | .localLocator locator => validateLocalLocator locator = .ok ()

/-- The texts and digests of a node are values of their types. -/
structure LockedNode.WellTyped (node : LockedNode) : Prop where
  nodeId : node.nodeId.value < 16 ^ 64
  packageId : validatePackageId node.packageId = .ok ()
  source : node.source.WellTyped libraries
  contentDigest : node.contentDigest.value < 16 ^ 64
  dependencies : ∀ dependency ∈ node.dependencies,
    validateAlias dependency.aliasName = .ok () ∧ dependency.targetNodeId.value < 16 ^ 64
  components : ∀ component ∈ node.components, Object.validatePackPath component.path = .ok () ∧
    component.digest.value < 16 ^ 64 ∧ component.executionProfile.value < 16 ^ 64

/-- The texts and digests of a lock are values of their types. -/
structure Lock.WellTyped {codec : LockCodec} (lock : Lock codec) : Prop where
  rootNodeId : lock.rootNodeId.value < 16 ^ 64
  nodes : ∀ node ∈ lock.nodes, node.toLockedNode.WellTyped libraries

variable {libraries}

theorem readSource_sourceJson (laws : UrlLaws libraries) {src : LockedSource}
    (h : src.WellTyped libraries) :
    readSource libraries (sourceJson src) = if src.UrlFits then some src else none := by
  cases src with
  | root => rfl
  | localLocator locator =>
    have hlocator := readValidated_string (show validateLocalLocator locator = .ok () from h)
    have hread : readSource libraries (sourceJson (.localLocator locator)) =
        readTagged libraries "local".toList
          (.object (zipWith jsonField ["locator"] [.string locator])) := rfl
    rw [hread]
    unfold readTagged
    rw [if_neg (by decide), if_neg (by decide), if_pos rfl, structFields_object rfl (by decide)]
    simp only [bind_eq_bind, bind_some, hlocator]
    rfl
  | git src =>
    obtain ⟨⟨v, hurl⟩, hcommit, hsubdir⟩ := h
    have hread : readSource libraries (sourceJson (.git src)) =
        readTagged libraries "git".toList (.object (zipWith jsonField
          ["url", "commit", "subdir"]
          [.string src.url, .string src.commit, .string src.subdir])) := rfl
    rw [hread]
    unfold readTagged
    rw [if_neg (by decide), if_pos rfl, structFields_object rfl (by decide)]
    simp only [bind_eq_bind, bind_some, readGitUrl_string laws hurl,
      readValidated_string hcommit, readValidated_string hsubdir]
    by_cases hfits : (LockedSource.git src).UrlFits
    · rw [if_pos hfits, if_pos (show src.url.byteLen ≤ maxGitUrlBytes from hfits)]
      rfl
    · rw [if_neg hfits, if_neg (show ¬ src.url.byteLen ≤ maxGitUrlBytes from hfits)]
      rfl

theorem readDependency_dependencyJson (halias : validateAlias dependency.aliasName = .ok ())
    (htarget : dependency.targetNodeId.value < 16 ^ 64) :
    readDependency (dependencyJson dependency) = some dependency := by
  have hwrite : dependencyJson dependency = .object (zipWith jsonField
      ["alias", "target_node_id"]
      [.string dependency.aliasName, digestJson dependency.targetNodeId]) := rfl
  rw [readDependency, hwrite, structFields_object rfl (by decide)]
  simp only [bind_eq_bind, bind_some, readValidated_string halias,
    readDigestJson_digestJson htarget]
  rfl

theorem readComponent_componentJson {comp : ComponentWire}
    (hpath : Object.validatePackPath comp.path = .ok ())
    (hdigest : comp.digest.value < 16 ^ 64)
    (hprof : comp.executionProfile.value < 16 ^ 64) :
    readComponent (componentJson comp) = some comp := by
  have hwrite : componentJson comp = .object (zipWith jsonField
      ["name", "path", "digest", "interface", "execution_profile"]
      [.string comp.name.val, .string comp.path, digestJson comp.digest,
        .string comp.interface, digestJson comp.executionProfile]) := rfl
  rw [readComponent, hwrite, structFields_object rfl (by decide)]
  simp only [bind_eq_bind, bind_some, readContributionName_string, readValidated_string hpath,
    readDigestJson_digestJson hdigest, readString, readDigestJson_digestJson hprof]
  rfl

/-! ## 4. Nodes and locks -/

theorem readNode_nodeJson (laws : UrlLaws libraries)
    (h : node.WellTyped libraries) :
    readNode libraries (nodeJson (.ofNode node)) =
      if node.source.UrlFits then some (.ofNode node) else none := by
  have hdeps : readArray readDependency
      (.array ((ofNode node).dependencies.map dependencyJson)) =
        some (ofNode node).dependencies :=
    readArray_map_all fun dep hdep =>
      readDependency_dependencyJson (h.dependencies dep hdep).1
        (h.dependencies dep hdep).2
  have hcomps : readArray readComponent
      (.array ((ofNode node).components.map componentJson)) =
        some (ofNode node).components := by
    refine readArray_map_all fun wire hwire => ?_
    obtain ⟨comp, hcomp, rfl⟩ := mem_map.1 hwire
    obtain ⟨hpath, hdigest, hprof⟩ := h.components comp hcomp
    exact readComponent_componentJson hpath hdigest hprof
  have hwrite : nodeJson (.ofNode node) = .object (zipWith jsonField
      ["node_id", "package_id", "source", "content_digest", "dependencies", "components"]
      [digestJson node.nodeId, .string node.packageId, sourceJson node.source,
        digestJson node.contentDigest,
        .array ((ofNode node).dependencies.map dependencyJson),
        .array ((ofNode node).components.map componentJson)]) := rfl
  rw [readNode, hwrite, structFields_object rfl (by decide)]
  simp only [bind_eq_bind, bind_some, readDigestJson_digestJson h.nodeId,
    readValidated_string h.packageId, readSource_sourceJson laws h.source,
    readDigestJson_digestJson h.contentDigest, hdeps, hcomps]
  by_cases hfits : node.source.UrlFits
  · rw [if_pos hfits, if_pos hfits]
    rfl
  · rw [if_neg hfits, if_neg hfits]
    rfl

variable {codec : LockCodec}

/-- Every canonical URL of a lock is one that the reader accepts. -/
def Lock.UrlsFit (lock : Lock codec) : Prop := ∀ node ∈ lock.nodes, node.source.UrlFits

instance (lock : Lock codec) : Decidable lock.UrlsFit :=
  inferInstanceAs (Decidable (∀ node ∈ lock.nodes, node.source.UrlFits))

theorem readLockWire_lockJson (laws : UrlLaws libraries) {lock : Lock codec}
    (h : lock.WellTyped libraries) :
    readLockWire libraries (lockJson (.ofLock lock)) =
      if lock.UrlsFit then some (.ofLock lock) else none := by
  have hnodes : readArray (readNode libraries)
      (.array ((ofLock lock).nodes.map nodeJson)) =
      if lock.UrlsFit then some (ofLock lock).nodes else none := by
    have hmap : (ofLock lock).nodes.map nodeJson =
        lock.nodes.map fun node => nodeJson (.ofNode node.toLockedNode) := map_map
    rw [hmap]
    exact readArray_map (fun node => ofNode node.toLockedNode)
      (fun node => node.source.UrlFits)
      fun node hnode => readNode_nodeJson laws (h.nodes node hnode)
  have hwrite : lockJson (.ofLock lock) = .object (zipWith jsonField
      ["schema_version", "root_node_id", "nodes"]
      [.number lockSchemaVersion, digestJson lock.rootNodeId,
        .array ((ofLock lock).nodes.map nodeJson)]) := rfl
  have hver :
      readNumberBelow (2 ^ 32) (.number lockSchemaVersion) = some lockSchemaVersion := by
    decide
  rw [readLockWire, hwrite, structFields_object rfl (by decide)]
  simp only [bind_eq_bind, bind_some, hver, hnodes, readDigestJson_digestJson h.rootNodeId]
  by_cases hfits : lock.UrlsFit
  · rw [if_pos hfits, if_pos hfits]
    rfl
  · rw [if_neg hfits, if_neg hfits]
    rfl

/-! ## 5. Rebuilding -/

theorem mapM_rebuilt {α β ε : Type} {wire : α → β} {rebuild : β → Except ε α}
    (h : ∀ v, rebuild (wire v) = .ok v) (values : List α) :
    (values.map wire).mapM rebuild = .ok values := by
  induction values with
  | nil => rfl
  | cons v rest ih =>
    rw [map_cons, mapM_cons, h, ih]
    rfl

theorem toComponent_ok (nodeId : PackNodeId) (comp : LockedComponent) :
    ComponentWire.toComponent nodeId ⟨comp.name, comp.path, comp.digest,
      comp.interface.asStr, comp.executionProfile⟩ = .ok comp := by
  obtain ⟨name, path, d, interface, prof⟩ := comp
  cases interface
  rfl

theorem toNode_ofNode (node : LockedPack codec) :
    toNode codec (.ofNode node.toLockedNode) = .ok node := by
  have hcomps : (ofNode node.toLockedNode).components.mapM
      (ComponentWire.toComponent node.nodeId) = .ok node.components :=
    mapM_rebuilt (toComponent_ok node.nodeId) node.components
  have hnode := LockedPack.new_self node (List.Perm.refl node.dependencies)
  have hfields : toNode codec (.ofNode node.toLockedNode) = (do
      let components ← (ofNode node.toLockedNode).components.mapM
        (ComponentWire.toComponent node.nodeId)
      let built ← LockedPack.new codec node.packageId node.source node.contentDigest
        node.dependencies components
      reject (node.nodeId ≠ built.nodeId) (.nodeIdMismatch node.nodeId built.nodeId)
      return built) := rfl
  rw [hfields, hcomps, ok_bind, hnode, ok_bind, reject, if_neg (not_not.2 rfl)]
  rfl

theorem toLock_ofLock (lock : Lock codec) : toLock codec (.ofLock lock) = .ok lock := by
  have hnodes : (ofLock lock).nodes.mapM (toNode codec) = .ok lock.nodes :=
    mapM_rebuilt toNode_ofNode lock.nodes
  rw [toLock, hnodes, ok_bind]
  exact Lock.new_self lock

/-! ## 6. The document -/

/-- The bytes of a field with a value of this size. -/
def memberSize (key : String) (size : Nat) : Nat := Json.quotedSize key.toList + 2 + size

def digestSize : Nat := 73

/-- The bytes of a source that stands at a level. -/
def sourceSize (indent : Nat) : LockedSource → Nat
  | .root => Json.blockSize indent [memberSize "kind" (Json.quotedSize "root".toList)]
  | .git source => Json.blockSize indent [memberSize "kind" (Json.quotedSize "git".toList),
      memberSize "url" (Json.quotedSize source.url),
      memberSize "commit" (Json.quotedSize source.commit),
      memberSize "subdir" (Json.quotedSize source.subdir)]
  | .localLocator locator => Json.blockSize indent
      [memberSize "kind" (Json.quotedSize "local".toList),
        memberSize "locator" (Json.quotedSize locator)]

def dependencySize (indent : Nat) (dependency : LockedDependency) : Nat :=
  Json.blockSize indent [memberSize "alias" (Json.quotedSize dependency.aliasName),
    memberSize "target_node_id" digestSize]

def componentSize (indent : Nat) (component : LockedComponent) : Nat :=
  Json.blockSize indent [memberSize "name" (Json.quotedSize component.name.val),
    memberSize "path" (Json.quotedSize component.path),
    memberSize "digest" digestSize,
    memberSize "interface" (Json.quotedSize formatComponentInterface),
    memberSize "execution_profile" digestSize]

/-- The bytes of a node that stands at a level. -/
def nodeSize (indent : Nat) (node : LockedNode) : Nat :=
  Json.blockSize indent [memberSize "node_id" digestSize,
    memberSize "package_id" (Json.quotedSize node.packageId),
    memberSize "source" (sourceSize (indent + 1) node.source),
    memberSize "content_digest" digestSize,
    memberSize "dependencies"
      (Json.blockSize (indent + 1) (node.dependencies.map (dependencySize (indent + 2)))),
    memberSize "components"
      (Json.blockSize (indent + 1) (node.components.map (componentSize (indent + 2))))]

def documentSize (lock : Lock codec) : Nat :=
  Json.blockSize 0 [memberSize "schema_version" 1, memberSize "root_node_id" digestSize,
    memberSize "nodes" (Json.blockSize 1 (lock.nodes.map fun node => nodeSize 2 node.toLockedNode))]
    + 1

theorem fieldSize_jsonField (indent : Nat) (key : String) (v : Json) :
    fieldSize indent (jsonField key v) = memberSize key (v.prettySize indent) := rfl

theorem escape_digestText (d : Digest) :
    ∀ c ∈ digestText d, escape c = [c] := by
  have hdigit : ∀ digit < 16, escape (hexDigit digit) = [hexDigit digit] := by decide
  have htag : ∀ c ∈ digestTag, escape c = [c] := by
    rw [digestTag_eq]
    simp only [forall_mem_cons]
    exact ⟨rfl, rfl, rfl, rfl, rfl, rfl, rfl, by simp⟩
  exact forall_mem_digestText htag hdigit d

theorem digestText_plain (d : Digest) :
    ∀ c ∈ digestText d, (Bytes.utf8 (escape c)).length = 1 := by
  intro c hchar
  have hsize := Tree.digestText_ascii d c hchar
  rw [escape_digestText d c hchar, Bytes.utf8_length]
  simp [hsize]

theorem prettySize_digestJson (indent : Nat) {d : Digest} (h : d.value < 16 ^ 64) :
    (digestJson d).prettySize indent = digestSize := by
  have hlen : (digestText d).length = 71 := Tree.digestText_length ⟨d, h⟩
  rw [digestJson, prettySize_string, quotedSize,
    map_congr_left (digestText_plain d), map_const', sum_replicate, hlen]
  rfl

theorem prettySize_sourceJson (indent : Nat) (source : LockedSource) :
    (sourceJson source).prettySize indent = sourceSize indent source := by
  cases source <;>
    simp only [sourceJson, sourceSize, prettySize_object, map_cons, map_nil,
      fieldSize_jsonField, prettySize_string]

theorem prettySize_dependencyJson (indent : Nat) (h : dependency.targetNodeId.value < 16 ^ 64) :
    (dependencyJson dependency).prettySize indent = dependencySize indent dependency := by
  simp only [dependencyJson, dependencySize, prettySize_object, map_cons, map_nil,
    fieldSize_jsonField, prettySize_string, prettySize_digestJson _ h]

theorem prettySize_componentJson (indent : Nat) {comp : LockedComponent}
    (hdigest : comp.digest.value < 16 ^ 64)
    (hprof : comp.executionProfile.value < 16 ^ 64) :
    (componentJson ⟨comp.name, comp.path, comp.digest, comp.interface.asStr,
      comp.executionProfile⟩).prettySize indent = componentSize indent comp := by
  have hinterface : comp.interface.asStr = formatComponentInterface := by
    cases comp.interface
    rfl
  simp only [componentJson, componentSize, prettySize_object, map_cons, map_nil,
    fieldSize_jsonField, prettySize_string, prettySize_digestJson _ hdigest,
    prettySize_digestJson _ hprof, hinterface]

theorem prettySize_nodeJson (indent : Nat) (h : node.WellTyped libraries) :
    (nodeJson (.ofNode node)).prettySize indent = nodeSize indent node := by
  have hdeps : (node.dependencies.map dependencyJson).map (prettySize (indent + 2)) =
      node.dependencies.map (dependencySize (indent + 2)) := by
    rw [List.map_map]
    exact map_congr_left fun dep hdep =>
      prettySize_dependencyJson _ (h.dependencies dep hdep).2
  have hcomps : ((ofNode node).components.map componentJson).map
      (prettySize (indent + 2)) = node.components.map (componentSize (indent + 2)) := by
    rw [NodeWire.ofNode, List.map_map, List.map_map]
    refine map_congr_left fun comp hcomp => ?_
    obtain ⟨-, hdigest, hprof⟩ := h.components comp hcomp
    exact prettySize_componentJson _ hdigest hprof
  have hwrite : nodeJson (.ofNode node) = .object [jsonField "node_id" (digestJson node.nodeId),
      jsonField "package_id" (.string node.packageId),
      jsonField "source" (sourceJson node.source),
      jsonField "content_digest" (digestJson node.contentDigest),
      jsonField "dependencies" (.array (node.dependencies.map dependencyJson)),
      jsonField "components" (.array ((ofNode node).components.map componentJson))] := rfl
  rw [hwrite, nodeSize]
  simp only [prettySize_object, prettySize_array, map_cons, map_nil,
    fieldSize_jsonField, prettySize_string, prettySize_digestJson _ h.nodeId,
    prettySize_digestJson _ h.contentDigest, prettySize_sourceJson, hdeps, hcomps]

theorem encodeLock_length {lock : Lock codec} (h : lock.WellTyped libraries) :
    (encodeLock lock).length = documentSize lock := by
  have hnodes : ((ofLock lock).nodes.map nodeJson).map (prettySize 2) =
      lock.nodes.map fun node => nodeSize 2 node.toLockedNode := by
    rw [LockWire.ofLock, List.map_map, List.map_map]
    exact map_congr_left fun node hnode => prettySize_nodeJson 2 (h.nodes node hnode)
  have hver : (number lockSchemaVersion).prettySize 1 = 1 := by decide
  have hwrite : lockJson (.ofLock lock) = .object
      [jsonField "schema_version" (.number lockSchemaVersion),
        jsonField "root_node_id" (digestJson lock.rootNodeId),
        jsonField "nodes" (.array ((ofLock lock).nodes.map nodeJson))] := rfl
  have hsize : (lockJson (.ofLock lock)).prettySize 0 + 1 = documentSize lock := by
    rw [hwrite, documentSize]
    simp only [prettySize_object, prettySize_array, map_cons, map_nil,
      fieldSize_jsonField, prettySize_digestJson _ h.rootNodeId, hnodes, hver]
  rw [← hsize, encodeLock, length_append]
  rfl

/-! ## 7. Keys -/

theorem noDuplicateKeys_struct (names : List String) (vs : List Json)
    (hlen : names.length = vs.length) (hnodup : (names.map String.toList).Nodup)
    (hvalues : ∀ v ∈ vs, v.noDuplicateKeys = true) :
    (object (zipWith jsonField names vs)).noDuplicateKeys = true := by
  rw [noDuplicateKeys_object, keys_zipWith hlen]
  refine ⟨hnodup, fun field hfield => ?_⟩
  obtain ⟨pos, hposition, rfl⟩ := mem_iff_getElem.1 hfield
  rw [getElem_zipWith]
  exact hvalues _ (getElem_mem _)

theorem noDuplicateKeys_sourceJson (src : LockedSource) :
    (sourceJson src).noDuplicateKeys = true := by
  cases src with
  | root => rfl
  | git src =>
    exact noDuplicateKeys_struct ["kind", "url", "commit", "subdir"]
      [.string "git".toList, .string src.url, .string src.commit, .string src.subdir]
      rfl (by decide) (by simp)
  | localLocator locator =>
    exact noDuplicateKeys_struct ["kind", "locator"] [.string "local".toList, .string locator]
      rfl (by decide) (by simp)

theorem noDuplicateKeys_nodeJson (node : NodeWire) : (nodeJson node).noDuplicateKeys = true := by
  have hdeps :
      (array (node.dependencies.map dependencyJson)).noDuplicateKeys = true := by
    simp only [noDuplicateKeys_array, List.forall_mem_map]
    exact fun dep _ => noDuplicateKeys_struct ["alias", "target_node_id"]
      [.string dep.aliasName, digestJson dep.targetNodeId] rfl (by decide)
      (by simp [digestJson])
  have hcomps : (array (node.components.map componentJson)).noDuplicateKeys = true := by
    simp only [noDuplicateKeys_array, List.forall_mem_map]
    exact fun comp _ => noDuplicateKeys_struct
      ["name", "path", "digest", "interface", "execution_profile"]
      [.string comp.name.val, .string comp.path, digestJson comp.digest,
        .string comp.interface, digestJson comp.executionProfile] rfl (by decide)
      (by simp [digestJson])
  exact noDuplicateKeys_struct
    ["node_id", "package_id", "source", "content_digest", "dependencies", "components"]
    [digestJson node.nodeId, .string node.packageId, sourceJson node.source,
      digestJson node.contentDigest, .array (node.dependencies.map dependencyJson),
      .array (node.components.map componentJson)] rfl (by decide)
    (by simp [digestJson, noDuplicateKeys_sourceJson, hdeps, hcomps])

theorem noDuplicateKeys_lockJson (wire : LockWire) : (lockJson wire).noDuplicateKeys = true := by
  have hnodes : (array (wire.nodes.map nodeJson)).noDuplicateKeys = true := by
    simp only [noDuplicateKeys_array, List.forall_mem_map]
    exact fun node _ => noDuplicateKeys_nodeJson node
  exact noDuplicateKeys_struct ["schema_version", "root_node_id", "nodes"]
    [.number wire.schemaVersion, digestJson wire.rootNodeId, .array (wire.nodes.map nodeJson)]
    rfl (by decide) (by simp [digestJson, hnodes])

/-! ## 8. Decoding -/

/-- The decoder on an encoded lock: the size decides first, then the URLs. -/
theorem decodeLock_encodeLock (laws : UrlLaws libraries) {lock : Lock codec}
    (htyped : lock.WellTyped libraries)
    (hjson : libraries.parseJson (encodeLock lock) = some (lockJson (.ofLock lock))) :
    decodeLock libraries codec (encodeLock lock) =
      if maxLockBytes < documentSize lock then
        .error (.tooLarge maxLockBytes (documentSize lock))
      else if lock.UrlsFit then .ok lock
      else .error .malformedJson := by
  have hprobe : versionProbe (lockJson (.ofLock lock)) = some lockSchemaVersion := rfl
  rw [decodeLock, encodeLock_length htyped]
  by_cases hsize : maxLockBytes < documentSize lock
  · rw [if_pos hsize, reject, if_pos hsize]
    rfl
  rw [if_neg hsize, reject, if_neg hsize, ok_bind, hjson, require,
    ok_bind, noDuplicateKeys_lockJson, reject, if_neg (by decide), ok_bind,
    hprobe, require, ok_bind, reject, if_neg (not_not.2 rfl), ok_bind,
    readLockWire_lockJson laws htyped]
  by_cases hfits : lock.UrlsFit
  · have hver : (ofLock lock).schemaVersion = lockSchemaVersion := rfl
    rw [if_pos hfits, if_pos hfits, require, ok_bind, reject,
      if_neg (not_not.2 hver), ok_bind, toLock_ofLock]
    rfl
  · rw [if_neg hfits, if_neg hfits, require]
    rfl

end Libraries

/-! ## 9. Locks of two nodes -/

@[irreducible] def urlBase : Text := "https://example.com/".toList

/-- The character `é` in a serialized path. -/
@[irreducible] def urlAccent : Text := "%C3%A9".toList

/-- A URL with non-ASCII characters in its path. -/
def givenUrl (count : Nat) : Text := urlBase ++ List.replicate count 'é'

def canonicalUrl (count : Nat) : Text :=
  urlBase ++ (List.replicate count urlAccent).flatten

/-- The URL that both texts stand for. -/
def sampleParsed (count : Nat) : ParsedUrl :=
  ⟨"https".toList, some "example.com".toList, [], none, none, none, canonicalUrl count⟩

/-- The URL parser, on these two texts. -/
def sampleUrl (count : Nat) (value : Text) : Option ParsedUrl :=
  if value = givenUrl count ∨ value = canonicalUrl count then some (sampleParsed count) else none

def sampleWireLibraries {codec : LockCodec} (count : Nat) (lock : Lock codec) : WireLibraries where
  parseJson bytes := if bytes = encodeLock lock then some (lockJson (.ofLock lock)) else none
  parseUrl := sampleUrl count

variable {codec : LockCodec} {count : Nat}

theorem parseJson_sample (count : Nat) (lock : Lock codec) :
    (sampleWireLibraries count lock).parseJson (encodeLock lock) =
      some (lockJson (.ofLock lock)) :=
  if_pos rfl

theorem sampleUrl_given (count : Nat) :
    sampleUrl count (givenUrl count) = some (sampleParsed count) :=
  if_pos (.inl rfl)

theorem sampleUrl_canonical (count : Nat) :
    sampleUrl count (canonicalUrl count) = some (sampleParsed count) :=
  if_pos (.inr rfl)

theorem eq_of_sampleUrl {parsed : ParsedUrl} (h : sampleUrl count v = some parsed) :
    sampleParsed count = parsed := by
  rw [sampleUrl] at h
  split at h
  · exact some.inj h
  · cases h

theorem canonicalUrl_printable (count : Nat) : ∀ c ∈ canonicalUrl count,
    0x20 < c.toNat ∧ c.toNat < 0x7f ∧ c ≠ '\x5c' := by
  have hbase : ((urlBase ++ urlAccent).all fun c =>
      0x20 < c.toNat ∧ c.toNat < 0x7f ∧ c ≠ '\x5c') = true := by
    decide +kernel
  simp only [List.all_eq_true, decide_eq_true_eq] at hbase
  intro c hchar
  simp only [canonicalUrl, mem_append, mem_flatten, mem_replicate] at hchar
  rcases hchar with hmem | ⟨_, ⟨-, rfl⟩, hmem⟩
  · exact hbase c (mem_append_left _ hmem)
  · exact hbase c (mem_append_right _ hmem)

theorem sampleUrl_laws (count : Nat) (lock : Lock codec) :
    UrlLaws (sampleWireLibraries count lock) where
  reparse _ _ h _ := by
    rw [← eq_of_sampleUrl h]
    exact sampleUrl_canonical count
  printable _ _ h _ _ _ := by
    rw [← eq_of_sampleUrl h]
    exact canonicalUrl_printable count

theorem byteLen_givenUrl (count : Nat) : (givenUrl count).byteLen = 20 + 2 * count := by
  have hbase : (urlBase.map Char.utf8Size).sum = 20 := by decide +kernel
  have haccent : ('é' : Char).utf8Size = 2 := by decide
  rw [givenUrl, Text.byteLen, map_append, sum_append, hbase, map_replicate,
    sum_replicate, haccent, smul_eq_mul, Nat.mul_comm]

theorem byteLen_canonicalUrl (count : Nat) : (canonicalUrl count).byteLen = 20 + 6 * count := by
  have hbase : (urlBase.map Char.utf8Size).sum = 20 := by decide +kernel
  have haccent : (urlAccent.map Char.utf8Size).sum = 6 := by decide +kernel
  rw [canonicalUrl, Text.byteLen, map_append, sum_append, hbase]
  induction count with
  | zero => rfl
  | succ count ih =>
    rw [replicate_succ, flatten_cons, map_append, sum_append, haccent]
    omega

theorem canonicalizeHttpsUrl_givenUrl (lock : Lock codec) (h : count ≤ 1014) :
    canonicalizeHttpsUrl (sampleWireLibraries count lock) (givenUrl count) =
      .ok (canonicalUrl count) := by
  have hbase : ((urlBase ++ ['é']).all fun c =>
      isWhitespace c = false ∧ c ≠ '\x5c' ∧ Text.isControl c = false) =
        true := by
    decide +kernel
  simp only [List.all_eq_true, decide_eq_true_eq] at hbase
  have hplain : ∀ c ∈ givenUrl count,
      isWhitespace c = false ∧ c ≠ '\x5c' ∧ Text.isControl c = false := by
    intro c hchar
    rcases mem_append.1 hchar with hmem | hmem
    · exact hbase c (mem_append_left _ hmem)
    · rw [eq_of_mem_replicate hmem]
      exact hbase 'é' (mem_append_right _ mem_cons_self)
  have hlen : ¬ maxGitUrlBytes < (givenUrl count).byteLen := by
    rw [byteLen_givenUrl, maxGitUrlBytes]
    omega
  simp only [canonicalizeHttpsUrl, bind_ok, exists_unit, reject_ok,
    require_ok, pure_ok, not_or, not_not]
  have hhost : ¬ (sampleParsed count).host = none := some_ne_none _
  refine ⟨hlen, ⟨?_, ?_⟩, fun hmem => (hplain _ hmem).2.1 rfl, ?_, sampleParsed count,
    sampleUrl_given count, rfl, hhost, ⟨rfl, rfl⟩, ⟨rfl, rfl⟩, rfl⟩
  · simp only [Option.any_eq_true, not_exists, not_and, Bool.not_eq_true]
    exact fun c hchar => (hplain c (mem_of_mem_head? hchar)).1
  · simp only [Option.any_eq_true, not_exists, not_and, Bool.not_eq_true]
    exact fun c hchar => (hplain c (mem_of_mem_getLast? hchar)).1
  · simp only [List.any_eq_true, not_exists, not_and, Bool.not_eq_true]
    exact fun c hchar => (hplain c hchar).2.2

def sampleRootId : PackNodeId :=
  ⟨0xdf7c14ebb9f0e4c3e2ccf3fb42038e1cc31fcb2a5888a99f5d83c08b7bac4df7⟩

theorem sampleRootId_lt : sampleRootId.value < 16 ^ 64 := by decide

/-- The identities of a root and of one more node. -/
def twoNodeCodec (gitId : PackNodeId) : LockCodec where
  nodeId source _ _ := if source = .root then sampleRootId else gitId
  graphDigest rootNodeId _ := rootNodeId

theorem noDependencies_bounded : ([] : List LockedDependency).length ≤ maxDirectDependencies := by
  decide

theorem noComponents_bounded : ([] : List LockedComponent).length ≤ maxComponents := by decide

theorem noAliases_sorted :
    (([] : List LockedDependency).map LockedDependency.aliasName).Pairwise (· < ·) :=
  .nil

theorem noNames_sorted :
    (([] : List LockedComponent).map LockedComponent.name).Pairwise (· < ·) :=
  .nil

theorem oneDependency_bounded (dep : LockedDependency) :
    [dep].length ≤ maxDirectDependencies := by
  simp [maxDirectDependencies]

theorem oneAlias_sorted (dep : LockedDependency) :
    ([dep].map LockedDependency.aliasName).Pairwise (· < ·) :=
  pairwise_singleton _ _

/-- A pack that a root depends on, and the root. -/
def twoNodes (count : Nat) (gitId : PackNodeId) : List (LockedPack (twoNodeCodec gitId)) :=
  [{ nodeId := gitId
     packageId := "org.example.dep".toList
     source := .git ⟨canonicalUrl count,
       "sha1-0123456789012345678901234567890123456789".toList, ['.']⟩
     contentDigest := ⟨2⟩
     dependencies := []
     components := []
     nodeId_eq := rfl
     dependencies_bounded := noDependencies_bounded
     components_bounded := noComponents_bounded
     aliases_sorted := noAliases_sorted
     names_sorted := noNames_sorted },
   { nodeId := sampleRootId
     packageId := "org.example.root".toList
     source := .root
     contentDigest := ⟨1⟩
     dependencies := [⟨"dep".toList, gitId⟩]
     components := []
     nodeId_eq := rfl
     dependencies_bounded := oneDependency_bounded _
     components_bounded := noComponents_bounded
     aliases_sorted := oneAlias_sorted _
     names_sorted := noNames_sorted }]

def shortUrlId : PackNodeId :=
  ⟨0x4df8a25756a5f7659f85acf89e12a1eb506d97481146ae47d3c8f9ccd3c900d2⟩

def longUrlId : PackNodeId :=
  ⟨0x8dbc6d1f9cc9d5f7d6a5b1eee34b8f5ec7495769d88e1ae9dadf2088e5cdbee6⟩

/-- A lock whose URL keeps within the limit. -/
def shortUrlLock : Lock (twoNodeCodec shortUrlId) where
  rootNodeId := sampleRootId
  nodes := twoNodes 1 shortUrlId
  sorted := by decide +kernel
  valid := by decide +kernel

/-- A lock whose URL was given in 700 bytes and is serialized in 2060. -/
def longUrlLock : Lock (twoNodeCodec longUrlId) where
  rootNodeId := sampleRootId
  nodes := twoNodes 340 longUrlId
  sorted := by decide +kernel
  valid := by decide +kernel

theorem twoNodes_wellTyped {libraries : WireLibraries} {gitId : PackNodeId}
    (hurl : canonicalizeHttpsUrl libraries v = .ok (canonicalUrl count))
    (hid : gitId.value < 16 ^ 64) :
    ∀ node ∈ twoNodes count gitId, node.toLockedNode.WellTyped libraries := by
  have hdep : validateAlias "dep".toList = .ok () ∧ gitId.value < 16 ^ 64 := ⟨rfl, hid⟩
  have hone : 1 < 16 ^ 64 := by decide
  have htwo : 2 < 16 ^ 64 := by decide
  simp only [twoNodes, forall_mem_cons]
  exact ⟨⟨hid, rfl, ⟨⟨v, hurl⟩, rfl, rfl⟩, htwo, by simp, by simp⟩,
    ⟨sampleRootId_lt, rfl, trivial, hone, by simpa using hdep, by simp⟩, by simp⟩

theorem shortUrlLock_wellTyped :
    shortUrlLock.WellTyped (sampleWireLibraries 1 shortUrlLock) where
  rootNodeId := sampleRootId_lt
  nodes := twoNodes_wellTyped (canonicalizeHttpsUrl_givenUrl shortUrlLock (by decide)) (by decide)

theorem longUrlLock_wellTyped :
    longUrlLock.WellTyped (sampleWireLibraries 340 longUrlLock) where
  rootNodeId := sampleRootId_lt
  nodes := twoNodes_wellTyped (canonicalizeHttpsUrl_givenUrl longUrlLock (by decide)) (by decide)

/-! ## 10. The round trip -/

/-- An encoded lock is read back exactly within the limits of the decoder. -/
theorem decodeLock_encodeLock_iff {libraries : WireLibraries} {codec : LockCodec}
    (laws : UrlLaws libraries) {lock : Lock codec} (htyped : lock.WellTyped libraries)
    (hjson : libraries.parseJson (encodeLock lock) = some (lockJson (.ofLock lock))) :
    decodeLock libraries codec (encodeLock lock) = .ok lock ↔
      documentSize lock ≤ maxLockBytes ∧
        ∀ node ∈ lock.nodes, ∀ source, node.source = .git source →
          source.url.byteLen ≤ maxGitUrlBytes := by
  have hurls : lock.UrlsFit ↔ ∀ node ∈ lock.nodes, ∀ source, node.source = .git source →
      source.url.byteLen ≤ maxGitUrlBytes := by
    refine forall₂_congr fun node _ => ?_
    cases hsource : node.source <;> simp [LockedSource.UrlFits]
  rw [decodeLock_encodeLock laws htyped hjson, ← hurls]
  by_cases hsize : maxLockBytes < documentSize lock
  · simp [hsize]
  · by_cases hfits : lock.UrlsFit
    · simp [hsize, hfits, not_lt.1 hsize]
    · simp [hsize, hfits]

theorem decodeLock_encodeLock_short :
    decodeLock (sampleWireLibraries 1 shortUrlLock) (twoNodeCodec shortUrlId)
      (encodeLock shortUrlLock) = .ok shortUrlLock := by
  have hsize : documentSize shortUrlLock ≤ maxLockBytes := by decide +kernel
  have hurls : ∀ node ∈ shortUrlLock.nodes, ∀ source, node.source = .git source →
      source.url.byteLen ≤ maxGitUrlBytes := by
    have hfirst : (canonicalUrl 1).byteLen ≤ maxGitUrlBytes := by
      rw [byteLen_canonicalUrl]
      decide
    simp only [shortUrlLock, twoNodes, forall_mem_cons]
    refine ⟨fun source h => LockedSource.git.inj h ▸ hfirst, fun source h => ?_, by simp⟩
    cases h
  exact (decodeLock_encodeLock_iff (sampleUrl_laws 1 shortUrlLock) shortUrlLock_wellTyped
    (parseJson_sample 1 shortUrlLock)).2 ⟨hsize, hurls⟩

/-- A lock with a URL longer than its text is not read back. -/
theorem decodeLock_encodeLock_long :
    UrlLaws (sampleWireLibraries 340 longUrlLock) ∧
      longUrlLock.WellTyped (sampleWireLibraries 340 longUrlLock) ∧
      (sampleWireLibraries 340 longUrlLock).parseJson (encodeLock longUrlLock) =
        some (lockJson (.ofLock longUrlLock)) ∧
      decodeLock (sampleWireLibraries 340 longUrlLock) (twoNodeCodec longUrlId)
        (encodeLock longUrlLock) = .error .malformedJson := by
  have hlaws := sampleUrl_laws 340 longUrlLock
  have hjson := parseJson_sample 340 longUrlLock
  have hsize : ¬ maxLockBytes < documentSize longUrlLock := by decide +kernel
  have hurl : ¬ longUrlLock.UrlsFit := by
    intro hfits
    have hfirst : (canonicalUrl 340).byteLen ≤ maxGitUrlBytes := hfits _ mem_cons_self
    rw [byteLen_canonicalUrl] at hfirst
    exact absurd hfirst (by decide)
  refine ⟨hlaws, longUrlLock_wellTyped, hjson, ?_⟩
  rw [decodeLock_encodeLock hlaws longUrlLock_wellTyped hjson, if_neg hsize, if_neg hurl]

/-- An accepted URL is stable exactly when its serialization is within the limit of the text. -/
theorem canonicalizeHttpsUrl_stable_iff {libraries : WireLibraries} (laws : UrlLaws libraries)
    {value url : Text} (h : canonicalizeHttpsUrl libraries value = .ok url) :
    (canonicalizeHttpsUrl libraries url = .ok url ∧ url.byteLen ≤ maxGitUrlBytes ∧
      ∀ commit subdir, validateGitObjectId commit = .ok () → validatePackSubdir subdir = .ok () →
        readSource libraries (sourceJson (.git ⟨url, commit, subdir⟩)) =
          some (.git ⟨url, commit, subdir⟩)) ↔
      ∀ parsed, libraries.parseUrl value = some parsed → parsed.text.byteLen ≤ maxGitUrlBytes := by
  have hserialized : ∃ parsed, libraries.parseUrl value = some parsed ∧ parsed.text = url := by
    simp only [canonicalizeHttpsUrl, bind_ok, exists_unit, reject_ok, require_ok, pure_ok] at h
    obtain ⟨-, -, -, -, parsed, hparsed, -, -, -, -, rfl⟩ := h
    exact ⟨parsed, hparsed, rfl⟩
  obtain ⟨parsed, hparsed, rfl⟩ := hserialized
  constructor
  · rintro ⟨-, hfits, -⟩ again hagain
    obtain rfl := some.inj (hparsed.symm.trans hagain)
    exact hfits
  · intro hall
    have hfits := hall parsed hparsed
    refine ⟨(canonicalizeHttpsUrl_canonical laws h).2 ⟨hfits, rfl⟩, hfits,
      fun commit subdir hcommit hsubdir => ?_⟩
    have htyped : (LockedSource.git ⟨parsed.text, commit, subdir⟩).WellTyped libraries :=
      ⟨⟨value, h⟩, hcommit, hsubdir⟩
    rw [readSource_sourceJson laws htyped]
    exact if_pos hfits

theorem canonicalizeHttpsUrl_stable_short :
    canonicalizeHttpsUrl (sampleWireLibraries 1 shortUrlLock) (canonicalUrl 1) =
      .ok (canonicalUrl 1) := by
  refine ((canonicalizeHttpsUrl_stable_iff (sampleUrl_laws 1 shortUrlLock)
    (canonicalizeHttpsUrl_givenUrl shortUrlLock (by decide))).2 fun parsed hparsed => ?_).1
  rw [← eq_of_sampleUrl hparsed]
  decide +kernel

/-- The serialization of an accepted text of 700 bytes is refused. -/
theorem canonicalizeHttpsUrl_unstable :
    UrlLaws (sampleWireLibraries 340 longUrlLock) ∧
      canonicalizeHttpsUrl (sampleWireLibraries 340 longUrlLock) (givenUrl 340) =
        .ok (canonicalUrl 340) ∧
      canonicalizeHttpsUrl (sampleWireLibraries 340 longUrlLock) (canonicalUrl 340) =
        .error "must be at most 2048 bytes" := by
  refine ⟨sampleUrl_laws 340 longUrlLock, canonicalizeHttpsUrl_givenUrl longUrlLock (by decide), ?_⟩
  have hlong : maxGitUrlBytes < (canonicalUrl 340).byteLen := by
    rw [byteLen_canonicalUrl]
    decide
  rw [canonicalizeHttpsUrl, reject, if_pos hlong]
  rfl

end Malm.Pack
