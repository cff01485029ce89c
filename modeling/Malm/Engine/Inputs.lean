/-
Malm.Engine.Inputs — the inputs a static preparation records
(`config_prepare.rs`).

A plan names everything its evaluation read: the lock, the packs, the execution profiles of
the locked components, and the selections made for it. Later transitions find these again.
-/
import Malm.Pack.Graph
import Malm.Store.Prepared

namespace Malm.Engine

open Store Pack

def packInputName : Text := "pack:".toList
def lockInputName : Text := "locked-graph".toList
def lockedComponentProfileName : Text := "locked-component-profile:".toList
def lockedComponentProfilesInput : Text := "locked-component-profiles".toList
def staticConfigEntryName : Text := "static-config-entry:".toList
def staticTargetAuthorityName : Text := "static-target-authority:".toList
def staticProfileName : Text := "static-profile:".toList

/-- The identities of recorded selections. -/
structure InputCodec where
  /-- `locked_component_profiles_digest`, of the entries in name order. -/
  profilesDigest : List (Text × Digest) → Digest

/-! ## 1. Names -/

def splitOnce (separator : Char) : Text → Option (Text × Text)
  | [] => none
  | character :: rest =>
    if character = separator then
      some ([], rest)
    else
      (splitOnce separator rest).map fun pair => (character :: pair.1, pair.2)

theorem splitOnce_append {sep : Char} {after : Text} :
    ∀ {before : Text}, sep ∉ before →
      splitOnce sep (before ++ sep :: after) = some (before, after)
  | [], _ => by simp [splitOnce]
  | character :: before, h => by
    obtain ⟨hne, hnot⟩ := not_or.1 (List.mem_cons.not.1 h)
    rw [List.cons_append, splitOnce, if_neg (Ne.symm hne), splitOnce_append hnot]
    rfl

/-! ## 2. The inputs of a graph -/

section Graphs

variable (inputCodec : InputCodec) {codec : LockCodec} (graph : AssembledLockedGraph codec)

def packInput (node : LockedPack codec) : PreparedInput :=
  ⟨.source, packInputName ++ digestText node.nodeId, node.contentDigest⟩

def packInputs : List PreparedInput :=
  graph.dependencyOrder.filterMap fun nodeId =>
    (findNode graph.lock.nodes nodeId).map packInput

def componentProfileName (nodeId : PackNodeId) (name : ContributionName) : Text :=
  lockedComponentProfileName ++ (digestText nodeId ++ ':' :: name.val)

def lockedComponents : List (PackNodeId × LockedComponent) :=
  graph.lock.nodes.flatMap fun node => node.components.map fun component => (node.nodeId, component)

def lockedComponentProfileInputs : List PreparedInput :=
  let entries := (lockedComponents graph).map fun (nodeId, component) =>
    (componentProfileName nodeId component.name, component.executionProfile)
  let profiles : SortedMap Text Digest :=
    entries.foldl (fun map entry => map.insert entry.1 entry.2) .empty
  entries.map (fun entry => ⟨.other, entry.1, entry.2⟩) ++
    [⟨.other, lockedComponentProfilesInput, inputCodec.profilesDigest profiles.entries⟩]

def graphInputs : List PreparedInput :=
  ⟨.lock, lockInputName, graph.graphDigest⟩ :: packInputs graph ++
    lockedComponentProfileInputs inputCodec graph

/-- Of the packs only the root is an input of the authoring dialect. -/
def authoringGraphInputs : List PreparedInput :=
  ⟨.lock, lockInputName, graph.graphDigest⟩ ::
    ((findNode graph.lock.nodes graph.rootNodeId).map packInput).toList ++
    lockedComponentProfileInputs inputCodec graph

end Graphs

/-! ## 3. The inputs of a static preparation -/

structure StaticCodec extends InputCodec where
  /-- `static_selection_digest`, of a domain and the selected text. -/
  selectionDigest : Text → Text → Digest

/-- The inputs of evaluation and its outputs, by the fixed part of their names. -/
inductive InputFamily where
  | configDocument
  | richConfigIr
  | formatComponent
  | archive
  | packFileRaw
  | packFileObject
  | authoringEvaluator
  | overlayDeclaration
  | overlay
  | asset
deriving DecidableEq, Repr

def InputFamily.name : InputFamily → Text
  | configDocument => "config-document:".toList
  | richConfigIr => "rich-config-ir".toList
  | formatComponent => "format-component:".toList
  | archive => "archive:".toList
  | packFileRaw => "pack-file:".toList
  | packFileObject => "pack-file:".toList
  | authoringEvaluator => "authoring-evaluator".toList
  | overlayDeclaration => "overlay-declaration:".toList
  | overlay => "overlay:".toList
  | asset => "asset:".toList

def InputFamily.kind : InputFamily → PreparedInputKind
  | configDocument => .config
  | richConfigIr => .config
  | formatComponent => .component
  | archive => .other
  | packFileRaw => .asset
  | packFileObject => .other
  | authoringEvaluator => .other
  | overlayDeclaration => .config
  | overlay => .config
  | asset => .other

/-- One input of a family: what follows the fixed part, and its digest. -/
structure FamilyInput where
  family : InputFamily
  rest : Text
  digest : Digest
deriving DecidableEq, Repr

def FamilyInput.input (input : FamilyInput) : PreparedInput :=
  ⟨input.family.kind, input.family.name ++ input.rest, input.digest⟩

inductive StaticDialect where
  | rich
  | authoring
deriving DecidableEq, Repr

/-- What a static preparation was asked for and has captured. -/
structure StaticCapture (codec : LockCodec) where
  dialect : StaticDialect
  graph : AssembledLockedGraph codec
  configEntry : Text
  targetAuthority : DeploymentName
  profile : Text
  evaluated : List FamilyInput

section Static

variable (staticCodec : StaticCodec) {codec : LockCodec} (capture : StaticCapture codec)

def selectionInput (domain name value : Text) : PreparedInput :=
  ⟨.other, name ++ value, staticCodec.selectionDigest domain value⟩

def staticProfileInput (profile : Text) : PreparedInput :=
  selectionInput staticCodec "malm-static-profile-v1".toList staticProfileName profile

/-- The inputs of a static preparation; a record keeps them sorted. -/
def staticInputs : List PreparedInput :=
  staticProfileInput staticCodec capture.profile ::
    selectionInput staticCodec "malm-static-config-entry-v1".toList staticConfigEntryName
      capture.configEntry ::
    selectionInput staticCodec "malm-static-target-authority-v1".toList staticTargetAuthorityName
      capture.targetAuthority ::
    ((match capture.dialect with
      | .rich => graphInputs staticCodec.toInputCodec capture.graph
      | .authoring => authoringGraphInputs staticCodec.toInputCodec capture.graph) ++
    capture.evaluated.map FamilyInput.input)

end Static

end Malm.Engine
