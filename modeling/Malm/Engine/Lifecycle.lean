/-
Malm.Engine.Lifecycle — what a lifecycle transition takes over from the
plan it restores (`load_retained_graph_record`, and the inputs of
`prepare_selected_state`).

A lifecycle plan copies a part of the inputs of the plan that captured the pack graph, so
that a later profile switch finds the graph again.
-/
import Malm.Commit.Inspection
import Malm.Engine.Error
import Malm.Engine.Inputs

namespace Malm.Engine

open Store Commit Pack Checks

/-! ## 1. The retained graph -/

def startsWith (name text : Text) : Bool := (stripName name text).isSome

/-- Whether a record holds graph authority, and that it holds it in the right
shape. -/
def holdsGraph (record : PreparedRecord) : Except EngineError Bool :=
  let locks := record.inputs.filter fun input => input.kind = .lock
  let sources := record.inputs.filter fun input => input.kind = .source
  if locks.isEmpty && !sources.any fun input => startsWith packInputName input.name then
    .ok false
  else
    match locks with
    | [lock] => do
      reject (lock.name ≠ lockInputName ∨ lock.digest ≠ record.graphDigest)
        (.invalidRecord "retained graph lock input differs from the prepared graph identity")
      reject
        (sources.isEmpty ∨ ∃ input ∈ sources, startsWith packInputName input.name = false)
        (.invalidRecord "retained graph authority must contain only named pack source inputs")
      return true
    | _ =>
      .error (.invalidRecord "retained graph authority must contain exactly one lock input")

/-- A graph comes from nowhere, or from another generation, which must be named. -/
def graphSource (generation : StateGeneration) : Option (Option Digest) :=
  match generation.transition with
  | .reconcile => none
  | .namespaceRemoval => none
  | .disable => some (generation.restorePoint.map RestorePoint.generation)
  | .enable restorePoint => some (some restorePoint.generation)
  | .checkout sourceGeneration => some (some sourceGeneration)
  | .retentionAuthority => some generation.previousGeneration

section Graph

variable (codec : ObjectCodec) (store : ObjectStore)

/-- The loop of `load_retained_graph_record`; a missing source ends it without a graph. -/
def searchGraphRecord (namespaceName : NamespaceName) : Nat → List PreparedId → StateGeneration →
    Except EngineError (Option PreparedRecord)
  | 0, _, _ => .error (.invalidRecord "retained graph lineage exceeds the validation limit")
  | turns + 1, visited, generation => do
    reject (generation.planId ∈ visited)
      (.invalidRecord "retained graph lineage contains a cycle")
    let record ← asCommitError (loadPrepared codec store generation.planId)
    let found ← holdsGraph record
    if found then
      return some record
    else
      match graphSource generation with
      | none => return none
      | some none =>
        .error (.invalidRecord "lifecycle generation does not retain a graph-authority source")
      | some (some source) =>
        match inspectGeneration codec store source with
        | .error _ => return none
        | .ok generation' => do
          reject (generation'.namespaceName ≠ namespaceName)
            (.invalidRecord "retained graph lineage crosses namespace authority")
          searchGraphRecord namespaceName turns (generation.planId :: visited) generation'

def loadRetainedGraphRecord (initial : StateGeneration) :
    Except EngineError (Option PreparedRecord) :=
  searchGraphRecord codec store initial.namespaceName 65536 [] initial

end Graph

/-! ## 2. The inputs of a lifecycle plan -/

inductive TransitionDescription where
  | disable
  | enable
  | checkout (target : Digest)
  | namespaceRemoval
  | retentionAuthority (operation : Text)
deriving DecidableEq, Repr

def TransitionDescription.inputName : TransitionDescription → Text
  | disable => "lifecycle-disable-head".toList
  | enable => "lifecycle-enable-head".toList
  | checkout _ => "checkout-generation".toList
  | namespaceRemoval => "namespace-removal-head".toList
  | retentionAuthority _ => "retention-authority-head".toList

def TransitionDescription.inputDigest (currentHead : Digest) : TransitionDescription → Digest
  | checkout target => target
  | disable => currentHead
  | enable => currentHead
  | namespaceRemoval => currentHead
  | retentionAuthority _ => currentHead

/-- The inputs of the retained plan that a lifecycle plan copies. -/
def carriesInput (input : PreparedInput) : Bool :=
  match input.kind with
  | .source => true
  | .lock => true
  | .component => true
  | .other =>
    startsWith staticConfigEntryName input.name ||
      startsWith staticTargetAuthorityName input.name ||
      input.name = lockedComponentProfilesInput ||
      startsWith lockedComponentProfileName input.name
  | .config => false
  | .asset => false

def lifecycleInputs (description : TransitionDescription) (currentHead : Digest)
    (retained : Option PreparedRecord) : List PreparedInput :=
  ⟨.other, description.inputName, description.inputDigest currentHead⟩ ::
    (retained.map fun record => record.inputs.filter carriesInput).getD []

end Malm.Engine
