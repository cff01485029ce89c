/-
Malm.Config.Includes — include resolution (`malm-config/src/rich_eval.rs`).

Resolution visits the captured documents from the entry, depth first and each
one once. A document is entered by its preflight; every edge is recorded with the
digest of its target. The order has every document after those it includes.
-/
import Malm.Lib.DepthSearch
import Malm.Config.Documents

namespace Malm.Config

open Pack Malm.Tree Checks

abbrev DocumentAuthority := ContributionName × ObjectDigest

def CapturedDocumentId.authority (id : CapturedDocumentId) : DocumentAuthority :=
  (id.label, id.identity)

/-- `CapturedDocumentSetV1`, with the root of its authority graph. -/
structure CapturedDocumentSet where
  rootAuthority : DocumentAuthority
  documents : SortedMap CapturedDocumentId CapturedConfigDocument
  ids : ∀ entry ∈ documents.entries, entry.2.id = entry.1

/-- The diagnostics of resolution, with what they name. -/
inductive IncludeError where
  | forgedEntryAuthority (entry : CapturedDocumentId)
  | missingEntryDocument (entry : CapturedDocumentId)
  | unreachableCapturedDocument (found : Option CapturedDocumentId) (entry : CapturedDocumentId)
  | includeCycle (id : CapturedDocumentId) (cycle : List CapturedDocumentId)
  | includeDepthLimit
  | missingInclude (target : CapturedDocumentId) (location : SourceLocation)
  | preflight (error : PreflightError)
  /-- A document that is expected to be captured; `visit_document` does not answer. -/
  | uncaptured (id : CapturedDocumentId)
deriving DecidableEq

abbrev ResolutionState := List IncludeProvenance × PreflightBudget

section Resolution

variable (captured : CapturedDocumentSet)

/-- The composition edges of a document, in their written order. -/
def includesOf (id : CapturedDocumentId) : List CapturedInclude :=
  match captured.documents.get? id with
  | some document => document.includes
  | none => []

def enterDocument (id : CapturedDocumentId) (state : ResolutionState) :
    Except IncludeError ResolutionState := do
  let document ← require (captured.documents.get? id) (.uncaptured id)
  let budget ← (validateDocumentRanges document state.2).mapError .preflight
  return (state.1, budget)

def followInclude (id : CapturedDocumentId) (edge : CapturedInclude) (state : ResolutionState) :
    Except IncludeError ResolutionState := do
  let location : SourceLocation := ⟨id, edge.range⟩
  let target ← require (captured.documents.get? edge.target)
    (.missingInclude edge.target location)
  let record := ⟨location, edge.target, target.digest, edge.dependency, edge.kind⟩
  return (state.1 ++ [record], state.2)

/-- The search over the edges. The state of a document is checked before the
depth. -/
def includeSearch :
    DepthSearch.Search CapturedDocumentId CapturedInclude ResolutionState IncludeError where
  edges := includesOf captured
  target := CapturedInclude.target
  enter := enterDocument captured
  follow := followInclude captured
  depthFirst := false
  tooDeep := fun _ => .includeDepthLimit
  cycle := fun id stack => .includeCycle id (stack.dropWhile (· ≠ id) ++ [id])

/-- `visit_document`, with the documents that the stack can still take. -/
def visitDocument (remaining : Nat) (id : CapturedDocumentId)
    (state : DepthSearch.State CapturedDocumentId ResolutionState) :
    Except IncludeError (DepthSearch.State CapturedDocumentId ResolutionState) :=
  DepthSearch.visit (includeSearch captured) remaining id state

structure ResolvedGraph where
  order : List CapturedDocumentId
  includes : List IncludeProvenance
  preflight : PreflightBudget

def resolveIncludeGraph (entry : CapturedDocumentId) : Except IncludeError ResolvedGraph := do
  reject (entry.authority ≠ captured.rootAuthority) (.forgedEntryAuthority entry)
  reject (captured.documents.contains entry = false) (.missingEntryDocument entry)
  let state ← visitDocument captured maxRichIncludeDepth entry ⟨[], [], ([], (0, 0))⟩
  reject (state.complete.length ≠ captured.documents.entries.length)
    (.unreachableCapturedDocument (captured.documents.keys.find? (· ∉ state.complete)) entry)
  return ⟨state.complete, state.data.1, state.data.2⟩

end Resolution

end Malm.Config
