/-
Malm.Config.Documents — captured documents and their preflight
(`malm-config/src/rich.rs`, `rich_eval.rs`).

Before a body is evaluated, its source ranges are compared with the bytes and its
shape is bounded; the budget for statements and expression nodes is shared by all
documents. What only evaluation reads is left out of the body.
-/
import Malm.Config.Rich

namespace Malm.Config

open Pack Pack.Object Malm.Tree Checks

def maxRichIncludeDepth : Nat := 64
def maxRichStatements : Nat := 262144
def maxRichEvaluationSteps : Nat := 1048576

/-! ## 1. Bodies -/

mutual

inductive RichExpression where
  | literal (value : TypedValue)
  | variable (name : RichName)
  | list (values : List RichExpression)
  | record (values : List (RichKey × RichExpression))
  | collection (values : List (RichKey × RichExpression))
  | select (value : RichExpression) (key : RichKey)
  | conditional (condition : RichCondition) (thenValue elseValue : RichExpression)

inductive RichCondition where
  | boolean (value : RichExpression)
  | isSet (value : RichExpression)
  | equal (left right : RichExpression) (negated : Bool)
  | not (condition : RichCondition)
  | all (conditions : List RichCondition)
  | any (conditions : List RichCondition)

end

inductive VariableSource where
  | input (isOptional : Bool) (default : Option RichExpression)
  | computed (value : RichExpression)

structure VariableDeclaration where
  source : VariableSource
  range : SourceRange

inductive PatchOperation where
  | set (path : RichValuePath) (value : RichExpression)
  | unset (path : RichValuePath) (isOptional : Bool)
  | listAppend (path : RichValuePath) (value : RichExpression)
  | collectionInsert (path : RichValuePath) (key value : RichExpression)
  | collectionReplace (path : RichValuePath) (key value : RichExpression)
  | collectionRemove (path : RichValuePath) (key : RichExpression) (isOptional : Bool)
  | collectionReplaceAll (path : RichValuePath) (values : List (RichKey × RichExpression))

structure PatchStep where
  operation : PatchOperation
  range : SourceRange

inductive RichStatement where
  | emit (key : RichKey) (value : RichExpression) (range : SourceRange)
  | patch (steps : List PatchStep)
  | compose (fragment : RichName) (range : SourceRange)
  | conditional (condition : RichCondition) (thenStatements elseStatements : List RichStatement)
    (range : SourceRange)
  | forEach (valueBinding : RichName) (keyBinding : Option RichName) (iterable : RichExpression)
    (statements : List RichStatement) (range : SourceRange)
  | range (binding : RichName) (start through : Int64) (statements : List RichStatement)
    (range : SourceRange)

structure FragmentDeclaration where
  statements : List RichStatement
  range : SourceRange

structure RichDocumentBody where
  variablesByName : SortedMap RichName VariableDeclaration
  fragmentsByName : SortedMap RichName FragmentDeclaration
  statements : List RichStatement

structure CapturedInclude where
  target : CapturedDocumentId
  dependency : Option Alias
  kind : CapturedDocumentEdgeKind
  range : SourceRange
deriving DecidableEq

structure CapturedBytes where
  id : CapturedDocumentId
  bytes : List UInt8
  digest : ObjectDigest

structure CapturedConfigDocument extends CapturedBytes where
  includes : List CapturedInclude
  body : RichDocumentBody

/-! ## 2. Preflight -/

inductive PreflightError where
  | statementDepthLimit
  | statementLimit (noun : String)
  | expressionDepthLimit (noun : String) (location : SourceLocation)
  | expressionNodeLimit (location : SourceLocation)
  | expressionCollectionLimit (noun : String) (location : SourceLocation)
  | conditionTermLimit (location : SourceLocation)
  | invalidLiteralValue (error : RichConfigError) (location : SourceLocation)
  | invalidSourceRange (location : SourceLocation) (captured : Nat)
deriving DecidableEq

/-- The statements and nodes so far; the counters saturate far above their limits. -/
abbrev PreflightBudget := Nat × Nat

section Preflight

variable (document : CapturedBytes)

def locate (range : SourceRange) : SourceLocation := ⟨document.id, range⟩

def validateRange (range : SourceRange) : Except PreflightError Unit :=
  reject (document.bytes.length < range.stop.toNat)
    (.invalidSourceRange (locate document range) document.bytes.length)

/-- The first checks of an expression or a condition: its depth, and one node. -/
def enterExpression (range : SourceRange) (noun : String) (depth : Nat) (budget : PreflightBudget) :
    Except PreflightError PreflightBudget := do
  reject (maxRichValueDepth < depth) (.expressionDepthLimit noun (locate document range))
  reject (maxRichEvaluationSteps < budget.2 + 1)
    (.expressionNodeLimit (locate document range))
  return (budget.1, budget.2 + 1)

def checkItems (range : SourceRange) (noun : String) (count : Nat) : Except PreflightError Unit :=
  reject (maxRichCollectionItems < count)
    (.expressionCollectionLimit noun (locate document range))

def checkTerms (range : SourceRange) (count : Nat) : Except PreflightError Unit :=
  reject (maxRichCollectionItems < count) (.conditionTermLimit (locate document range))

mutual

def validateExpressionShape (range : SourceRange) (depth : Nat) (budget : PreflightBudget) :
    RichExpression → Except PreflightError PreflightBudget
  | .literal value => do
    let budget ← enterExpression document range "expression" depth budget
    value.validate.mapError (.invalidLiteralValue · (locate document range))
    return budget
  | .variable _ => enterExpression document range "expression" depth budget
  | .list values => do
    let budget ← enterExpression document range "expression" depth budget
    checkItems document range "list expression" values.length
    validateExpressions range (depth + 1) budget values
  | .record values => do
    let budget ← enterExpression document range "expression" depth budget
    checkItems document range "map expression" values.length
    validateEntries range (depth + 1) budget values
  | .collection values => do
    let budget ← enterExpression document range "expression" depth budget
    checkItems document range "map expression" values.length
    validateEntries range (depth + 1) budget values
  | .select value _ => do
    let budget ← enterExpression document range "expression" depth budget
    validateExpressionShape range (depth + 1) budget value
  | .conditional condition thenValue elseValue => do
    let budget ← enterExpression document range "expression" depth budget
    let budget ← validateConditionShape range (depth + 1) budget condition
    let budget ← validateExpressionShape range (depth + 1) budget thenValue
    validateExpressionShape range (depth + 1) budget elseValue

def validateExpressions (range : SourceRange) (depth : Nat) (budget : PreflightBudget) :
    List RichExpression → Except PreflightError PreflightBudget
  | [] => .ok budget
  | first :: rest => do
    let budget ← validateExpressionShape range depth budget first
    validateExpressions range depth budget rest

def validateEntries (range : SourceRange) (depth : Nat) (budget : PreflightBudget) :
    List (RichKey × RichExpression) → Except PreflightError PreflightBudget
  | [] => .ok budget
  | (_, first) :: rest => do
    let budget ← validateExpressionShape range depth budget first
    validateEntries range depth budget rest

def validateConditionShape (range : SourceRange) (depth : Nat) (budget : PreflightBudget) :
    RichCondition → Except PreflightError PreflightBudget
  | .boolean value => do
    let budget ← enterExpression document range "condition" depth budget
    validateExpressionShape range (depth + 1) budget value
  | .isSet value => do
    let budget ← enterExpression document range "condition" depth budget
    validateExpressionShape range (depth + 1) budget value
  | .equal left right _ => do
    let budget ← enterExpression document range "condition" depth budget
    let budget ← validateExpressionShape range (depth + 1) budget left
    validateExpressionShape range (depth + 1) budget right
  | .not condition => do
    let budget ← enterExpression document range "condition" depth budget
    validateConditionShape range (depth + 1) budget condition
  | .all conditions => do
    let budget ← enterExpression document range "condition" depth budget
    checkTerms document range conditions.length
    validateConditions range (depth + 1) budget conditions
  | .any conditions => do
    let budget ← enterExpression document range "condition" depth budget
    checkTerms document range conditions.length
    validateConditions range (depth + 1) budget conditions

def validateConditions (range : SourceRange) (depth : Nat) (budget : PreflightBudget) :
    List RichCondition → Except PreflightError PreflightBudget
  | [] => .ok budget
  | first :: rest => do
    let budget ← validateConditionShape range depth budget first
    validateConditions range depth budget rest

end

def validatePatchShape (operation : PatchOperation) (range : SourceRange)
    (budget : PreflightBudget) : Except PreflightError PreflightBudget :=
  match operation with
  | .set _ value | .listAppend _ value => validateExpressionShape document range 1 budget value
  | .collectionInsert _ key value | .collectionReplace _ key value => do
    let budget ← validateExpressionShape document range 1 budget key
    validateExpressionShape document range 1 budget value
  | .collectionRemove _ key _ => validateExpressionShape document range 1 budget key
  | .collectionReplaceAll _ values => do
    checkItems document range "collection replacement" values.length
    validateEntries document range 1 budget values
  | .unset _ _ => .ok budget

def validatePatchStep (budget : PreflightBudget) (step : PatchStep) :
    Except PreflightError PreflightBudget := do
  validateRange document step.range
  validatePatchShape document step.operation step.range budget

def countStatements (noun : String) (count : Nat) (budget : PreflightBudget) :
    Except PreflightError PreflightBudget := do
  reject (maxRichStatements < budget.1 + count) (.statementLimit noun)
  return (budget.1 + count, budget.2)

/-- The first checks of `validate_statement_ranges`. -/
def enterStatements (depth count : Nat) (budget : PreflightBudget) :
    Except PreflightError PreflightBudget := do
  reject (maxRichValueDepth < depth) .statementDepthLimit
  countStatements "statement" count budget

mutual

def validateStatement (depth : Nat) (budget : PreflightBudget) :
    RichStatement → Except PreflightError PreflightBudget
  | .emit _ value range => do
    validateRange document range
    validateExpressionShape document range 1 budget value
  | .patch steps => do
    let budget ← countStatements "statement and patch" steps.length budget
    steps.foldlM (validatePatchStep document) budget
  | .compose _ range => do
    validateRange document range
    return budget
  | .conditional condition thenStatements elseStatements range => do
    validateRange document range
    let budget ← validateConditionShape document range 1 budget condition
    let budget ← enterStatements (depth + 1) thenStatements.length budget
    let budget ← validateStatements (depth + 1) budget thenStatements
    let budget ← enterStatements (depth + 1) elseStatements.length budget
    validateStatements (depth + 1) budget elseStatements
  | .forEach _ _ iterable statements range => do
    validateRange document range
    let budget ← validateExpressionShape document range 1 budget iterable
    let budget ← enterStatements (depth + 1) statements.length budget
    validateStatements (depth + 1) budget statements
  | .range _ _ _ statements range => do
    validateRange document range
    let budget ← enterStatements (depth + 1) statements.length budget
    validateStatements (depth + 1) budget statements

def validateStatements (depth : Nat) (budget : PreflightBudget) :
    List RichStatement → Except PreflightError PreflightBudget
  | [] => .ok budget
  | first :: rest => do
    let budget ← validateStatement depth budget first
    validateStatements depth budget rest

end

def validateStatementRanges (statements : List RichStatement) (depth : Nat)
    (budget : PreflightBudget) : Except PreflightError PreflightBudget := do
  let budget ← enterStatements depth statements.length budget
  validateStatements document depth budget statements

def validateVariable (budget : PreflightBudget) (declaration : VariableDeclaration) :
    Except PreflightError PreflightBudget := do
  validateRange document declaration.range
  match declaration.source with
  | .input _ (some default) => validateExpressionShape document declaration.range 1 budget default
  | .computed value => validateExpressionShape document declaration.range 1 budget value
  | .input _ none => return budget

def validateFragment (budget : PreflightBudget) (declaration : FragmentDeclaration) :
    Except PreflightError PreflightBudget := do
  validateRange document declaration.range
  validateStatementRanges document declaration.statements 1 budget

end Preflight

def validateDocumentRanges (document : CapturedConfigDocument) (budget : PreflightBudget) :
    Except PreflightError PreflightBudget := do
  let captured := document.toCapturedBytes
  document.includes.forM fun edge => validateRange captured edge.range
  let variablesInOrder := document.body.variablesByName.entries.map Prod.snd
  let budget ← variablesInOrder.foldlM (validateVariable captured) budget
  let fragmentsInOrder := document.body.fragmentsByName.entries.map Prod.snd
  let budget ← fragmentsInOrder.foldlM (validateFragment captured) budget
  validateStatementRanges captured document.body.statements 1 budget

end Malm.Config
