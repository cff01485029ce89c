/-
Malm.Pack.Graph — offline assembly of a lock (`malm-module-graph`).

Assembly loads and verifies every distinct pack of a lock and requires its
manifest to agree with the lock. The private module scopes of the graph are
left out: they are read off the lock and the manifests, and no function
modelled here looks a module up.
-/
import Malm.Lib.ReadyOrder
import Malm.Pack.Lock

namespace Malm.Pack

open Commit Checks

def maxGraphModules : Nat := 65536
def maxGraphObjectBytes : Nat := 1024 * 1024 * 1024

/-! ## 1. Verified packs -/

inductive PackVerificationError where
  | invalidTree (error : PackTreeError)
  | digestMismatch (expected actual : Digest)
  | missingManifest
  | invalidManifest
  | missingDeclaredPath (kind : String) (path : PackPath)
  | componentDigestMismatch (path : PackPath) (expected actual : Digest)
deriving DecidableEq, Repr

structure VerifiedPack where
  contentDigest : Digest
  manifest : PackManifest
  files : SortedMap PackPath Contents
  totalBytes : Nat
deriving DecidableEq

def filesByPath (files : List PackFile) : SortedMap PackPath Contents :=
  files.foldl (fun map file => map.insert file.path file.bytes) .empty

def requirePath (files : SortedMap PackPath Contents) (kind : String) (path : PackPath) :
    Except PackVerificationError Contents :=
  require (files.get? path) (.missingDeclaredPath kind path)

def requireSection (files : SortedMap PackPath Contents) (kind : String) (paths : List PackPath) :
    Except PackVerificationError Unit :=
  paths.forM fun path => do
    let _ ← requirePath files kind path

def checkManifestReferences (codec : PackCodec) (files : List PackFile) :
    Except PackVerificationError PackManifest := do
  let byPath := filesByPath files
  let manifestBytes ← require (byPath.get? packManifestFile) .missingManifest
  let manifest ← require (codec.decodePack manifestBytes) .invalidManifest
  requireSection byPath "module" (manifest.modules.map PackModule.path)
  requireSection byPath "config document" manifest.configDocuments
  requireSection byPath "template" manifest.templates
  requireSection byPath "schema" manifest.schemas
  requireSection byPath "asset" manifest.assets
  manifest.components.forM fun component => do
    let bytes ← requirePath byPath "component" component.path
    reject (bytes.hash ≠ component.digest)
      (.componentDigestMismatch component.path component.digest bytes.hash)
  return manifest

def VerifiedPack.fromFiles (codec : PackCodec) (expectedDigest : Digest) (files : List PackFile) :
    Except PackVerificationError VerifiedPack := do
  let contentDigest ← (packContentDigest codec files).mapError .invalidTree
  let manifest ← checkManifestReferences codec files
  reject (contentDigest ≠ expectedDigest) (.digestMismatch expectedDigest contentDigest)
  return ⟨contentDigest, manifest, filesByPath files, (files.map fun file => file.bytes.byteLen).sum⟩

/-! ## 2. Assembly -/

inductive GraphAssemblyError (ε : Type) where
  | objectLoad (digest : Digest) (error : ε)
  | objectVerification (digest : Digest) (error : PackVerificationError)
  | manifestAgreement (error : LockValidationError)
  | limitExceeded (resource : String) (limit actual : Nat)
deriving DecidableEq, Repr

structure AssembledLockedGraph (codec : LockCodec) where
  graphDigest : Digest
  rootNodeId : PackNodeId
  lock : Lock codec
  packs : SortedMap PackNodeId VerifiedPack
  dependencyOrder : List PackNodeId
deriving DecidableEq

def Lock.dependencyOrder {codec : LockCodec} (lock : Lock codec) : List PackNodeId :=
  Digraph.dependencyOrder (lock.nodes.map fun node => node.nodeId) (edgeTargets lock.nodes)

def Lock.targetLists {codec : LockCodec} (lock : Lock codec) : List (PackNodeId × List PackNodeId) :=
  lock.nodes.map fun node => (node.nodeId, node.dependencies.map LockedDependency.targetNodeId)

/-- `dependency_order` with its maps: no answer where an expected lookup fails. -/
def Lock.countedOrder {codec : LockCodec} (lock : Lock codec) : Option (List PackNodeId) :=
  Digraph.countedOrder lock.targetLists

section Assembly

variable {ε : Type} (packCodec : PackCodec) {codec : LockCodec} (lock : Lock codec)
  (objects : Digest → Except ε (List PackFile)) (verified : SortedMap Digest VerifiedPack)

/-- The pack of a digest met first: a verified one, or a cached object. -/
def resolvePack (digest : Digest) : Except (GraphAssemblyError ε) VerifiedPack :=
  match verified.get? digest with
  | some pack => .ok pack
  | none => do
    let files ← (objects digest).mapError (.objectLoad digest)
    (VerifiedPack.fromFiles packCodec digest files).mapError (.objectVerification digest)

def chargeObjectBytes (total additional : Nat) : Except (GraphAssemblyError ε) Nat := do
  reject (maxGraphObjectBytes < total + additional)
    (.limitExceeded "unique object bytes" maxGraphObjectBytes (total + additional))
  return total + additional

/-- What the loop over the nodes has loaded. -/
structure Assembly where
  byDigest : SortedMap Digest VerifiedPack
  packs : SortedMap PackNodeId VerifiedPack
  totalObjectBytes : Nat

def assemblePack (digest : Digest) (assembly : Assembly) :
    Except (GraphAssemblyError ε) (VerifiedPack × Assembly) :=
  match assembly.byDigest.get? digest with
  | some pack => .ok (pack, assembly)
  | none => do
    let pack ← resolvePack packCodec objects verified digest
    let total ← chargeObjectBytes assembly.totalObjectBytes pack.totalBytes
    return (pack, { assembly with
      byDigest := assembly.byDigest.insert digest pack, totalObjectBytes := total })

def assembleNode (assembly : Assembly) (node : LockedPack codec) :
    Except (GraphAssemblyError ε) Assembly := do
  let (pack, assembly) ← assemblePack packCodec objects verified node.contentDigest assembly
  (lock.validateManifest node.nodeId pack.manifest).mapError .manifestAgreement
  return { assembly with packs := assembly.packs.insert node.nodeId pack }

def moduleCount (packs : SortedMap PackNodeId VerifiedPack) : Nat :=
  (lock.nodes.map fun node =>
    match packs.get? node.nodeId with
    | some pack => pack.manifest.modules.length
    | none => 0).sum

def assembleLockedGraphWithVerified : Except (GraphAssemblyError ε) (AssembledLockedGraph codec) := do
  let assembly ← lock.nodes.foldlM (assembleNode packCodec lock objects verified)
    ⟨.empty, .empty, 0⟩
  reject (maxGraphModules < moduleCount lock assembly.packs)
    (.limitExceeded "module entries" maxGraphModules (moduleCount lock assembly.packs))
  return ⟨lockGraphDigest lock, lock.rootNodeId, lock, assembly.packs, lock.dependencyOrder⟩

def assembleLockedGraph : Except (GraphAssemblyError ε) (AssembledLockedGraph codec) :=
  assembleLockedGraphWithVerified packCodec lock objects .empty

end Assembly

end Malm.Pack
