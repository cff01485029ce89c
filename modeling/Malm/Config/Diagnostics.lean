/-
Malm.Config.Diagnostics — the failures of evaluation and how they are reported
(`malm-config/src/rich_eval.rs`).

A failure is one diagnostic, with a fixed code and texts cut to the limits. The texts are
whatever a formatting returns, and a report that the code expects to succeed is an option.
-/
import Malm.Config.Includes
import Malm.Config.Transform
import Malm.Config.ValuePaths

namespace Malm.Config

open Pack Pack.Object

def maxRichVariables : Nat := 4096
def maxRichFragments : Nat := 4096
def maxRichLoopIterations : Nat := 4096
def maxRichTotalLoopIterations : Nat := 65536

/-! ## 1. Failures -/

inductive EvaluationLimit where
  | listExpression
  | mapExpression
  | conditionTerms
  | patched (resource : String)
  | evaluationSteps
  | loopIterations
  | totalLoopIterations
  | provenanceRecords
deriving DecidableEq

inductive EvaluationError where
  | resolution (error : IncludeError)
  | unknownStatementDocument (document : CapturedDocumentId)
  | duplicateVariable (name : RichName) (location : SourceLocation) (first : CapturedDocumentId)
  | variableLimit (location : Option SourceLocation)
  | duplicateFragment (name : RichName) (location : SourceLocation) (first : CapturedDocumentId)
  | fragmentLimit (location : Option SourceLocation)
  | unknownSuppliedVariable (name : RichName)
  | computedVariableSupplied (name : RichName) (location : SourceLocation)
  | invalidSuppliedValue (name : RichName) (error : RichConfigError)
  | variableCycle (name : RichName) (cycle : List RichName)
  | unknownVariable (name : RichName)
  | missingRequiredVariable (name : RichName) (location : SourceLocation)
  | variableTypeMismatch (name : RichName) (error : RichTypeError) (location : SourceLocation)
  | limitExceeded (limit : EvaluationLimit) (location : SourceLocation)
  | invalidEvaluatedValue (error : RichConfigError) (location : SourceLocation)
  | invalidEvaluatedKey (reason : String) (location : SourceLocation)
  | missingSelectedKey (key : RichKey) (location : SourceLocation)
  | invalidSelection (kind : String) (location : SourceLocation)
  | conditionTypeMismatch (kind : String) (location : SourceLocation)
  | duplicateDocumentKey (key : RichKey) (location : SourceLocation)
  | duplicateLoopBinding (binding : RichName) (location : SourceLocation)
  | shadowedLoopBinding (location : SourceLocation)
  | invalidRangeLoop (start through : Int64) (location : SourceLocation)
  | fragmentCycle (name : RichName) (cycle : List RichName) (location : SourceLocation)
  | fragmentDepthLimit (location : SourceLocation)
  | unknownFragment (name : RichName) (location : SourceLocation)
  | collectionKeyKind (kind : String) (location : SourceLocation)
  | invalidPatch (error : PatchError) (location : SourceLocation)
  | invalidLoopKey (error : RichConfigError) (location : SourceLocation)
  | loopTypeMismatch (kind : String) (location : SourceLocation)
  | invalidResult (error : RichConfigError)
deriving DecidableEq

def PreflightError.code : PreflightError → String
  | statementDepthLimit => "statement-depth-limit"
  | statementLimit _ => "statement-limit"
  | expressionDepthLimit _ _ => "expression-depth-limit"
  | expressionNodeLimit _ => "expression-node-limit"
  | expressionCollectionLimit _ _ => "expression-collection-limit"
  | conditionTermLimit _ => "condition-term-limit"
  | invalidLiteralValue _ _ => "invalid-literal-value"
  | invalidSourceRange _ _ => "invalid-source-range"

def PreflightError.primary : PreflightError → Option SourceLocation
  | statementDepthLimit => none
  | statementLimit _ => none
  | expressionDepthLimit _ location => some location
  | expressionNodeLimit location => some location
  | expressionCollectionLimit _ location => some location
  | conditionTermLimit location => some location
  | invalidLiteralValue _ location => some location
  | invalidSourceRange location _ => some location

/-- The code of a diagnostic; a document that is not captured has none. -/
def IncludeError.code : IncludeError → String
  | forgedEntryAuthority _ => "forged-entry-authority"
  | missingEntryDocument _ => "missing-entry-document"
  | unreachableCapturedDocument _ _ => "unreachable-captured-document"
  | includeCycle _ _ => "include-cycle"
  | includeDepthLimit => "include-depth-limit"
  | missingInclude _ _ => "missing-include"
  | preflight error => error.code
  | uncaptured _ => ""

def IncludeError.primary : IncludeError → Option SourceLocation
  | missingInclude _ location => some location
  | preflight error => error.primary
  | _ => none

def EvaluationLimit.code : EvaluationLimit → String
  | listExpression => "expression-collection-limit"
  | mapExpression => "expression-collection-limit"
  | conditionTerms => "condition-term-limit"
  | patched _ => "patch-collection-limit"
  | evaluationSteps => "evaluation-step-limit"
  | loopIterations => "loop-iteration-limit"
  | totalLoopIterations => "total-loop-iteration-limit"
  | provenanceRecords => "provenance-limit"

def PatchError.code : PatchError → String
  | limit _ => "patch-collection-limit"
  | value _ => "invalid-evaluated-value"
  | _ => "invalid-patch"

namespace EvaluationError

def code : EvaluationError → String
  | resolution error => error.code
  | unknownStatementDocument _ => "unknown-statement-document"
  | duplicateVariable _ _ _ => "duplicate-variable"
  | variableLimit _ => "variable-limit"
  | duplicateFragment _ _ _ => "duplicate-fragment"
  | fragmentLimit _ => "fragment-limit"
  | unknownSuppliedVariable _ => "unknown-supplied-variable"
  | computedVariableSupplied _ _ => "computed-variable-supplied"
  | invalidSuppliedValue _ _ => "invalid-supplied-value"
  | variableCycle _ _ => "variable-cycle"
  | unknownVariable _ => "unknown-variable"
  | missingRequiredVariable _ _ => "missing-required-variable"
  | variableTypeMismatch _ _ _ => "variable-type-mismatch"
  | limitExceeded limit _ => limit.code
  | invalidEvaluatedValue _ _ => "invalid-evaluated-value"
  | invalidEvaluatedKey _ _ => "invalid-evaluated-value"
  | missingSelectedKey _ _ => "missing-selected-key"
  | invalidSelection _ _ => "invalid-selection"
  | conditionTypeMismatch _ _ => "condition-type-mismatch"
  | duplicateDocumentKey _ _ => "duplicate-document-key"
  | duplicateLoopBinding _ _ => "duplicate-loop-binding"
  | shadowedLoopBinding _ => "shadowed-loop-binding"
  | invalidRangeLoop _ _ _ => "invalid-range-loop"
  | fragmentCycle _ _ _ => "fragment-cycle"
  | fragmentDepthLimit _ => "fragment-depth-limit"
  | unknownFragment _ _ => "unknown-fragment"
  | collectionKeyKind _ _ => "invalid-patch"
  | invalidPatch error _ => error.code
  | invalidLoopKey _ _ => "invalid-loop-key"
  | loopTypeMismatch _ _ => "loop-type-mismatch"
  | invalidResult _ => "invalid-result"

def primary : EvaluationError → Option SourceLocation
  | resolution error => error.primary
  | unknownStatementDocument _ => none
  | duplicateVariable _ location _ => some location
  | variableLimit location => location
  | duplicateFragment _ location _ => some location
  | fragmentLimit location => location
  | unknownSuppliedVariable _ => none
  | computedVariableSupplied _ location => some location
  | invalidSuppliedValue _ _ => none
  | variableCycle _ _ => none
  | unknownVariable _ => none
  | missingRequiredVariable _ location => some location
  | variableTypeMismatch _ _ location => some location
  | limitExceeded _ location => some location
  | invalidEvaluatedValue _ location => some location
  | invalidEvaluatedKey _ location => some location
  | missingSelectedKey _ location => some location
  | invalidSelection _ location => some location
  | conditionTypeMismatch _ location => some location
  | duplicateDocumentKey _ location => some location
  | duplicateLoopBinding _ location => some location
  | shadowedLoopBinding location => some location
  | invalidRangeLoop _ _ location => some location
  | fragmentCycle _ _ location => some location
  | fragmentDepthLimit location => some location
  | unknownFragment _ location => some location
  | collectionKeyKind _ location => some location
  | invalidPatch _ location => some location
  | invalidLoopKey _ location => some location
  | loopTypeMismatch _ location => some location
  | invalidResult _ => none

/-- Not an expectation of the code in the place of a diagnostic. -/
def Reported : EvaluationError → Prop
  | resolution (.uncaptured _) => False
  | resolution (.unreachableCapturedDocument none _) => False
  | invalidPatch (.unexpected _) _ => False
  | _ => True

end EvaluationError

/-! ## 2. Reports -/

/-- The longest start of a text within a number of bytes. -/
def keepBytes : Nat → Text → Text
  | _, [] => []
  | limit, character :: rest =>
    if character.utf8Size ≤ limit then
      character :: keepBytes (limit - character.utf8Size) rest
    else
      []

def truncatedSuffix : Text := "...[truncated]".toList

def boundedDiagnosticText (value : Text) (limit : Nat) : Text :=
  if value.byteLen ≤ limit then
    value
  else
    let suffix := if truncatedSuffix.byteLen < limit then truncatedSuffix else []
    keepBytes (limit - suffix.byteLen) value ++ suffix

def boundNotes : Nat → List Text → List Text
  | _, [] => []
  | remaining, note :: rest =>
    if remaining = 0 then
      []
    else
      let bounded := boundedDiagnosticText note (min maxRichDiagnosticBytes remaining)
      bounded :: boundNotes (remaining - bounded.byteLen) rest

def newRichName (value : Text) : Option RichName :=
  if h : validateRichName value = .ok () then some ⟨value, h⟩ else none

def newRichDiagnostic (severity : RichDiagnosticSeverity) (code : RichName) (message : Text)
    (primary : Option RichDiagnosticLocation) (notes : List Text) : Option RichDiagnostic :=
  if h : checkDiagnostic message notes = .ok () then
    some ⟨severity, code, message, primary, notes, h⟩
  else
    none

def diagnostic (code : String) (message : Text) (primary : Option RichDiagnosticLocation)
    (notes : List Text) : Option RichDiagnostic := do
  let message := boundedDiagnosticText message maxRichDiagnosticBytes
  let remaining := maxRichTotalDiagnosticBytes - message.byteLen
  let notes := boundNotes remaining (notes.take maxRichDiagnosticNotes)
  let code ← newRichName code.toList
  newRichDiagnostic .error code message primary notes

/-- How the message and the notes of a failure are formatted. -/
structure DiagnosticTexts where
  message : EvaluationError → Text
  notes : EvaluationError → List Text

/-- `RichEvaluationErrorV1::one`; no result is a failed expectation. -/
def reportOne (texts : DiagnosticTexts) (error : EvaluationError) :
    Option (List RichDiagnostic) := do
  let reported ← diagnostic error.code (texts.message error)
    (error.primary.map .source) (texts.notes error)
  (canonicalDiagnostics [reported]).toOption

end Malm.Config
