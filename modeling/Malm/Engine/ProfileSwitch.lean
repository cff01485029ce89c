/-
Malm.Engine.ProfileSwitch — the pack graph of a retained plan
(`profile_switch.rs`).

The lock is rebuilt from the pack inputs of the retained plan, each of which names a
node and the digest of its pack. The walk visits every pack at most once, so its fuel
is their number.
-/
import Malm.Engine.Inputs

namespace Malm.Engine

open Store Pack Checks

/-- `ProfileSwitchError`, as far as the reconstruction raises it. -/
inductive ProfileSwitchError (ε : Type) where
  | invalidRetainedGraph (detail : String)
  | packObject (nodeId : PackNodeId) (digest : Digest) (error : ε)
  | packVerification (nodeId : PackNodeId) (digest : Digest) (error : PackVerificationError)
  | lockValidation (error : LockValidationError)
  | graphAssembly (error : GraphAssemblyError ε)
deriving DecidableEq, Repr

/-! ## 1. Component profiles -/

abbrev ComponentProfiles := SortedMap (PackNodeId ×ₗ ContributionName) Digest

section Profiles

variable {ε : Type}

/-- The node and component that an input name encodes. -/
def parseComponentProfile (rest : Text) :
    Except (ProfileSwitchError ε) (PackNodeId × ContributionName) := do
  let (nodeText, nameText) ← require (splitOnce ':' rest)
    (.invalidRetainedGraph "a locked component profile input name is malformed")
  let nodeId ← require (parseDigest nodeText)
    (.invalidRetainedGraph "invalid component pack node ID")
  let name ← require (contributionName nameText)
    (.invalidRetainedGraph "invalid locked component name")
  return (nodeId, name)

def collectProfile (collected : SortedMap Text Digest × ComponentProfiles)
    (input : PreparedInput) :
    Except (ProfileSwitchError ε) (SortedMap Text Digest × ComponentProfiles) :=
  match stripName lockedComponentProfileName input.name with
  | none => .ok collected
  | some rest => do
    reject (input.kind ≠ .other)
      (.invalidRetainedGraph "a locked component profile input has the wrong kind")
    let (nodeId, name) ← parseComponentProfile rest
    reject (input.name ≠ componentProfileName nodeId name)
      (.invalidRetainedGraph "a locked component profile input name is not canonical")
    reject
      (collected.1.contains (componentProfileName nodeId name) = true ∨
        collected.2.contains (toLex (nodeId, name)) = true)
      (.invalidRetainedGraph "one locked component profile is retained more than once")
    return (collected.1.insert (componentProfileName nodeId name) input.digest,
      collected.2.insert (toLex (nodeId, name)) input.digest)

def retainedComponentProfiles (inputCodec : InputCodec) (inputs : List PreparedInput) :
    Except (ProfileSwitchError ε) ComponentProfiles :=
  match inputs.filter fun input => input.name = lockedComponentProfilesInput with
  | [summary] => do
    reject (summary.kind ≠ .other)
      (.invalidRetainedGraph "the locked-component-profiles input has the wrong kind")
    let (encoded, profiles) ← inputs.foldlM collectProfile (.empty, .empty)
    reject (summary.digest ≠ inputCodec.profilesDigest encoded.entries)
      (.invalidRetainedGraph "the locked-component-profiles input does not match its entries")
    return profiles
  | _ => .error (.invalidRetainedGraph
      "the active prepared plan must contain exactly one locked-component-profiles input")

end Profiles

/-! ## 2. The retained packs -/

structure RetainedPack where
  digest : Digest
  manifest : PackManifest
  verified : VerifiedPack
deriving DecidableEq

abbrev RetainedPacks := SortedMap PackNodeId RetainedPack

section Reconstruction

variable {ε : Type} (packCodec : PackCodec) (codec : LockCodec)
  (objects : Digest → Except ε (List PackFile))

def retainPack (packs : RetainedPacks) (input : PreparedInput) :
    Except (ProfileSwitchError ε) RetainedPacks := do
  let nodeText ← require (stripName packInputName input.name)
    (.invalidRetainedGraph "a source input is not named pack:NODE_ID")
  let nodeId ← require (parseDigest nodeText)
    (.invalidRetainedGraph "invalid pack input node ID")
  reject (input.name ≠ packInputName ++ digestText nodeId)
    (.invalidRetainedGraph "pack input name is not canonical")
  let files ← (objects input.digest).mapError (.packObject nodeId input.digest)
  let verified ← (VerifiedPack.fromFiles packCodec input.digest files).mapError
    (.packVerification nodeId input.digest)
  reject (packs.contains nodeId = true)
    (.invalidRetainedGraph "one pack node ID is retained more than once")
  return packs.insert nodeId ⟨input.digest, verified.manifest, verified⟩

def rootCandidates (packs : RetainedPacks) : List PackNodeId :=
  (packs.entries.filter fun entry =>
    codec.nodeId .root entry.2.manifest.packageId entry.2.digest = entry.1).map Prod.fst

def dependencyCandidates (packs : RetainedPacks) (dependency : PackDependency)
    (source : LockedSource) : List PackNodeId :=
  (packs.entries.filter fun entry =>
    entry.2.manifest.packageId = dependency.packageId &&
      codec.nodeId source dependency.packageId entry.2.digest = entry.1).map Prod.fst

/-! ## 3. The walk from the root -/

/-- The source of every reached node, the edges of every expanded one, and what is pending. -/
structure Walk where
  sources : SortedMap PackNodeId LockedSource
  edges : SortedMap PackNodeId (List LockedDependency)
  pending : List PackNodeId

def pushEdge (edges : SortedMap PackNodeId (List LockedDependency)) (importer : PackNodeId)
    (edge : LockedDependency) : SortedMap PackNodeId (List LockedDependency) :=
  edges.insert importer ((edges.get? importer).getD [] ++ [edge])

def followDependency (packs : RetainedPacks) (importer : PackNodeId) (walk : Walk)
    (dependency : PackDependency) : Except (ProfileSwitchError ε) Walk :=
  let source := LockedSource.fromDependency dependency.source
  match dependencyCandidates codec packs dependency source with
  | [target] =>
    let edges := pushEdge walk.edges importer ⟨dependency.aliasName, target⟩
    match walk.sources.get? target with
    | some previous =>
      if previous ≠ source then
        .error (.invalidRetainedGraph "a retained node is selected through conflicting sources")
      else
        .ok { walk with edges := edges }
    | none =>
      .ok ⟨walk.sources.insert target source, edges, walk.pending ++ [target]⟩
  | _ => .error (.invalidRetainedGraph
      "a dependency does not identify exactly one retained node")

def declaredDependencies (packs : RetainedPacks) (nodeId : PackNodeId) : List PackDependency :=
  match packs.get? nodeId with
  | some pack => pack.manifest.dependencies
  | none => []

/-- The loop over the pending nodes, first in first out. -/
def walkGraph (packs : RetainedPacks) : Nat → Walk → Except (ProfileSwitchError ε) Walk
  | 0, walk =>
    if walk.pending.isEmpty then .ok walk
    else .error (.invalidRetainedGraph "the walk did not end")
  | fuel + 1, walk =>
    match walk.pending with
    | [] => .ok walk
    | importer :: pending => do
      let walk ← (declaredDependencies packs importer).foldlM
        (followDependency codec packs importer) { walk with pending := pending }
      walkGraph packs fuel walk

/-! ## 4. The rebuilt lock -/

/-- The locked components of one pack. Every profile is used once. -/
def takeProfiles (nodeId : PackNodeId) : List BundledComponent → ComponentProfiles →
    Except (ProfileSwitchError ε) (List LockedComponent × ComponentProfiles)
  | [], profiles => .ok ([], profiles)
  | declaration :: rest, profiles => do
    let profile ← require (profiles.get? (toLex (nodeId, declaration.name)))
      (.invalidRetainedGraph "a retained component has no locked execution profile")
    let (components, profiles) ← takeProfiles nodeId rest
      (profiles.erase (toLex (nodeId, declaration.name)))
    return (.fromDeclaration declaration profile :: components, profiles)

def rebuildNode (walk : Walk) (state : List (LockedPack codec) × ComponentProfiles)
    (entry : PackNodeId × RetainedPack) :
    Except (ProfileSwitchError ε) (List (LockedPack codec) × ComponentProfiles) := do
  let (nodeId, pack) := entry
  let (components, profiles) ← takeProfiles nodeId pack.manifest.components state.2
  let source ← require (walk.sources.get? nodeId)
    (.invalidRetainedGraph "the active prepared plan contains an unreachable pack input")
  let node ← (LockedPack.new codec pack.manifest.packageId source pack.digest
    ((walk.edges.get? nodeId).getD []) components).mapError .lockValidation
  reject (node.nodeId ≠ nodeId) (.lockValidation (.nodeIdMismatch nodeId node.nodeId))
  return (state.1 ++ [node], profiles)

def verifiedByDigest (packs : RetainedPacks) : SortedMap Digest VerifiedPack :=
  packs.entries.foldl (fun map entry => map.insert entry.2.digest entry.2.verified) .empty

def reconstructGraph (inputs : List PreparedInput) (componentProfiles : ComponentProfiles) :
    Except (ProfileSwitchError ε) (AssembledLockedGraph codec) := do
  let packs ← (inputs.filter fun input => input.kind = .source).foldlM
    (retainPack packCodec objects) .empty
  reject (packs.entries.isEmpty = true)
    (.invalidRetainedGraph "the active prepared plan has no pack inputs")
  match rootCandidates codec packs with
  | [rootNodeId] => do
    let walk ← walkGraph codec packs packs.entries.length
      ⟨SortedMap.empty.insert rootNodeId .root, .empty, [rootNodeId]⟩
    reject (walk.sources.entries.length ≠ packs.entries.length)
      (.invalidRetainedGraph "the active prepared plan contains an unreachable pack input")
    let (nodes, profiles) ← packs.entries.foldlM (rebuildNode codec walk) ([], componentProfiles)
    reject (profiles.entries.isEmpty = false)
      (.invalidRetainedGraph
        "the active prepared plan retains profiles for unknown locked components")
    let lock ← (Lock.new rootNodeId nodes).mapError .lockValidation
    (assembleLockedGraphWithVerified packCodec lock objects (verifiedByDigest packs)).mapError
      .graphAssembly
  | _ => .error (.invalidRetainedGraph
      "retained pack inputs do not identify exactly one root node")

end Reconstruction

end Malm.Engine
