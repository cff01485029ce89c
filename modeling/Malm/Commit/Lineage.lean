/-
Malm.Commit.Lineage — validation of the selected generations and their
predecessor chains (`validate_catalog_lineages` and what it calls).

The walk of one head visits at most as many records as the lineage limit
leaves, so its recursion is on that number.
-/
import Malm.Commit.Objects

namespace Malm.Commit

open Store Checks

def maxSelectedGenerationLineage : Nat := 65536
def maxSelectedGenerationBytes : Nat := 64 * 1024 * 1024
def maxLineageValidationBytes : Nat := 512 * 1024 * 1024

/-! ## 1. Budgets -/

def chargeLineageValidationBytes (total bytes : Nat) : Except CommitError Nat :=
  if maxLineageValidationBytes < total + bytes then
    .error (.invalidStore "selected lineage validation exceeds its decoded bytes")
  else
    .ok (total + bytes)

def chargeSelectedGenerationBytes (total bytes : Nat) : Except CommitError Nat :=
  if maxSelectedGenerationBytes < total + bytes then
    .error (.invalidStore "selected generation records exceed their bytes")
  else
    .ok (total + bytes)

/-- The charge for a visited record: of a chain only the head is counted. -/
def chargeSelectedHead (selectedHead : Bool) (total bytes : Nat) : Except CommitError Nat :=
  if selectedHead then chargeSelectedGenerationBytes total bytes else .ok total

/-! ## 2. One generation against its plan -/

section Lineage

variable (codec : ObjectCodec) (store : ObjectStore)

def stateGenerationValidationError : CommitError → CommitError
  | .missingPlan _ => .invalidStore "state generation references missing prepared plan"
  | .invalidPlan _ => .invalidStore "state generation references an invalid prepared plan"
  | error => error

def asGenerationValidation {α : Type} (result : Except CommitError α) : Except CommitError α :=
  result.mapError stateGenerationValidationError

def loadPredecessor (previousGeneration : Option Digest) (decodedBytes : Nat) :
    Except CommitError (Option StateGeneration × Nat) :=
  match previousGeneration with
  | none => .ok (none, decodedBytes)
  | some digest => do
    let (previous, bytes) ← loadGenerationWithEncodedLen codec store digest
    let decodedBytes ← chargeLineageValidationBytes decodedBytes bytes
    return (some previous, decodedBytes)

def validateGenerationTransitionWithBudget (generation : StateGeneration) (decodedBytes : Nat) :
    Except CommitError Nat := do
  let (prepared, preparedBytes) ← loadPreparedWithEncodedLen codec store generation.planId
  let decodedBytes ← chargeLineageValidationBytes decodedBytes preparedBytes
  let (previous, decodedBytes) ← loadPredecessor codec store generation.previousGeneration
    decodedBytes
  let rebuilt ← asInvalidStore (fromPrepared codec.toCodec generation.planId
    generation.previousGeneration previous prepared)
  reject (rebuilt ≠ generation)
    (.invalidStore "state generation does not match its prepared transition")
  return decodedBytes

def validateRetainedGenerationTransitionWithBudget (generation : StateGeneration)
    (decodedBytes : Nat) : Except CommitError Nat := do
  let (prepared, preparedBytes) ← loadPreparedWithEncodedLen codec store generation.planId
  let decodedBytes ← chargeLineageValidationBytes decodedBytes preparedBytes
  let rebuilt ← asInvalidStore (fromRetainedPrepared codec.toCodec generation.planId
    generation.previousGeneration prepared)
  reject (rebuilt ≠ generation)
    (.invalidStore "retained state generation does not match its prepared authority")
  return decodedBytes

/-- A predecessor that is no longer stored makes the generation a retained boundary. -/
def validateGenerationTransition (generation : StateGeneration) : Except CommitError Unit := do
  let _ ← asGenerationValidation
    (match validateGenerationTransitionWithBudget codec store generation 0 with
    | .error (.invalidStore reason) =>
      if generation.previousGeneration.isSome ∧ reason = "state generation object is missing" then
        -- The retry goes on charging the same counter: the plan's bytes twice.
        do
          let (_, preparedBytes) ← loadPreparedWithEncodedLen codec store generation.planId
          validateRetainedGenerationTransitionWithBudget codec store generation preparedBytes
      else
        .error (.invalidStore reason)
    | result => result)
  return ()

/-- `CandidateGeneration`: the generation a commit is about to publish. -/
structure CandidateGeneration where
  digest : Digest
  generation : StateGeneration
  prepared : PreparedRecord
  encodedBytes : Nat

def validateCandidateGenerationTransitionWithBudget (candidate : CandidateGeneration)
    (retainedFloor : Bool) (decodedBytes : Nat) : Except CommitError Nat := do
  let decodedBytes ← chargeLineageValidationBytes decodedBytes
    (codec.preparedBytes candidate.prepared)
  let (rebuilt, decodedBytes) ←
    if retainedFloor then do
      let rebuilt ← asInvalidStore (fromRetainedPrepared codec.toCodec candidate.generation.planId
        candidate.generation.previousGeneration candidate.prepared)
      pure (rebuilt, decodedBytes)
    else do
      let (previous, decodedBytes) ← loadPredecessor codec store
        candidate.generation.previousGeneration decodedBytes
      let rebuilt ← asInvalidStore (fromPrepared codec.toCodec candidate.generation.planId
        candidate.generation.previousGeneration previous candidate.prepared)
      pure (rebuilt, decodedBytes)
  reject (rebuilt ≠ candidate.generation)
    (.invalidStore "candidate state generation does not match its prepared transition")
  return decodedBytes

/-! ## 3. Chains -/

inductive LineageDepth where
  | routine
  | full
deriving DecidableEq, Repr

/-- The variables of `validate_catalog_lineages` across heads. -/
structure LineageState where
  validated : SortedMap Digest NamespaceName
  traversed : Nat
  decodedBytes : Nat
  selectedBytes : Nat

structure LineageWalk where
  lineage : List Digest
  selectedHead : Bool
  retainedLimit : Option Nat
  retainedCount : Nat

variable (candidate : Option CandidateGeneration) (depth : LineageDepth)

def selectedCandidate (digest : Digest) : Option CandidateGeneration :=
  candidate.filter (·.digest = digest)

/-- The record of a digest: the candidate's, else the stored one. -/
def lineageRecord (digest : Digest) : Except CommitError (StateGeneration × Nat) :=
  match selectedCandidate candidate digest with
  | some candidate => .ok (candidate.generation, candidate.encodedBytes)
  | none => loadGenerationWithEncodedLen codec store digest

def validateVisited (digest : Digest) (generation : StateGeneration) (retainedFloor : Bool)
    (decodedBytes : Nat) : Except CommitError Nat :=
  asGenerationValidation
    (match selectedCandidate candidate digest with
    | some candidate =>
      validateCandidateGenerationTransitionWithBudget codec store candidate retainedFloor
        decodedBytes
    | none =>
      if retainedFloor then
        validateRetainedGenerationTransitionWithBudget codec store generation decodedBytes
      else
        validateGenerationTransitionWithBudget codec store generation decodedBytes)

/-- Where routine validation stops, only a candidate is checked. -/
def validateRoutineStop (digest : Digest) (decodedBytes : Nat) : Except CommitError Nat :=
  asGenerationValidation
    (match selectedCandidate candidate digest with
    | some candidate =>
      validateCandidateGenerationTransitionWithBudget codec store candidate false decodedBytes
    | none => .ok decodedBytes)

/-- One iteration on a record that was not validated before. -/
def visitGeneration (namespaceName : NamespaceName) (state : LineageState) (walk : LineageWalk)
    (digest : Digest) : Except CommitError (LineageState × LineageWalk × Option Digest) := do
  reject (state.traversed = maxSelectedGenerationLineage)
    (.invalidStore "selected generation history exceeds its entries")
  let (generation, encodedBytes) ← lineageRecord codec store candidate digest
  let decodedBytes ← chargeLineageValidationBytes state.decodedBytes encodedBytes
  let selectedBytes ← chargeSelectedHead walk.selectedHead state.selectedBytes encodedBytes
  reject (generation.namespaceName ≠ namespaceName)
    (.invalidStore "namespace history enters a generation for another namespace")
  let limit := walk.retainedLimit.getD generation.retention.history
  let retainedCount := walk.retainedCount + 1
  let walk : LineageWalk := ⟨digest :: walk.lineage, false, some limit, retainedCount⟩
  if depth = .routine ∧ retainedCount = 2 ∧ generation.retention.history = limit then do
    let decodedBytes ← validateRoutineStop codec store candidate digest decodedBytes
    return (⟨state.validated, state.traversed, decodedBytes, selectedBytes⟩, walk, none)
  else do
    let decodedBytes ← validateVisited codec store candidate digest generation
      (retainedCount = limit) decodedBytes
    return (⟨state.validated.insert digest namespaceName, state.traversed + 1, decodedBytes,
        selectedBytes⟩, walk,
      if retainedCount = limit then none else generation.previousGeneration)

/-- The loop of one head, with the records that the lineage limit leaves. -/
def walkLineage (namespaceName : NamespaceName) :
    Nat → LineageState → LineageWalk → Option Digest → Except CommitError LineageState
  | _, state, _, none => .ok state
  | 0, _, _, some _ => .error (.invalidStore "selected generation history exceeds its entries")
  | left + 1, state, walk, some digest =>
    if digest ∈ walk.lineage then
      .error (.invalidStore "namespace generation history contains a cycle")
    else
      match state.validated.get? digest with
      | some owner =>
        if owner ≠ namespaceName then
          .error (.invalidStore "generation is shared by two namespaces")
        else
          .ok state
      | none => do
        let (state, walk, next) ←
          visitGeneration codec store candidate depth namespaceName state walk digest
        walkLineage namespaceName left state walk next

def walkHead (state : LineageState) (head : NamespaceHead) : Except CommitError LineageState :=
  walkLineage codec store candidate depth head.namespaceName
    (maxSelectedGenerationLineage - state.traversed + 1) state ⟨[], true, none, 0⟩
    (some head.generation)

def validateCatalogLineages (catalog : StateCatalog) : Except CommitError Unit := do
  let _ ← catalog.heads.foldlM (walkHead codec store candidate depth) ⟨.empty, 0, 0, 0⟩
  return ()

end Lineage

end Malm.Commit
