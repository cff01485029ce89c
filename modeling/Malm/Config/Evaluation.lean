/-
Malm.Config.Evaluation — evaluation of captured documents
(`malm-config/src/rich_eval.rs`).

Expressions and statements are evaluated by recursion on them. A reference to a variable
and the composition of a fragment leave them, so these two are bounded by a nesting; a run
that uses it up is told apart, like an `expect` that fails. The evaluator also keeps all
records in order and the history of its root, which no step reads.
-/
import Malm.Lib.Stateful
import Malm.Config.Diagnostics

namespace Malm.Config

open Pack Malm.Tree Checks

/-! ## 1. Programs -/

/-- A captured document set, the declared types, and the size bound of the documents. -/
structure TypedDocumentSet extends CapturedDocumentSet where
  declaredType : CapturedDocumentId → RichName → TypedValueType
  bounded : ∀ entry ∈ documents.entries, entry.2.bytes.length ≤ maxConfigDocumentBytes

structure LocatedVariable where
  document : CapturedDocumentId
  declaration : VariableDeclaration
  valueType : TypedValueType

structure LocatedFragment where
  document : CapturedDocumentId
  declaration : FragmentDeclaration

structure LocatedRichStatement where
  document : CapturedDocumentId
  statement : RichStatement

structure CollectedProgram where
  variablesByName : SortedMap RichName LocatedVariable
  fragmentsByName : SortedMap RichName LocatedFragment
  statements : List LocatedRichStatement

/-- How evaluation ends without a result. -/
inductive EvaluationFailure where
  | diagnostic (error : EvaluationError)
  /-- An `expect` that fails. -/
  | unexpected (expectation : String)
  /-- The nesting is used up. -/
  | exhausted
deriving DecidableEq

def refuse (condition : Prop) [Decidable condition] (error : EvaluationError) :
    Except EvaluationFailure Unit :=
  reject condition (.diagnostic error)

def collectDeclared {δ ν : Type} (limit : Nat) (located : RichName → δ → ν)
    (duplicate : RichName → δ → ν → EvaluationError) (tooMany : δ → EvaluationError)
    (collected : SortedMap RichName ν) (entry : RichName × δ) :
    Except EvaluationFailure (SortedMap RichName ν) := do
  rejectSome (collected.get? entry.1) fun earlier =>
    .diagnostic (duplicate entry.1 entry.2 earlier)
  refuse (limit ≤ collected.entries.length) (tooMany entry.2)
  return collected.insert entry.1 (located entry.1 entry.2)

section Collect

variable (documents : TypedDocumentSet)

def collectVariables (id : CapturedDocumentId) (body : RichDocumentBody)
    (collected : SortedMap RichName LocatedVariable) :
    Except EvaluationFailure (SortedMap RichName LocatedVariable) :=
  body.variablesByName.entries.foldlM
    (collectDeclared maxRichVariables
      (fun name declaration => ⟨id, declaration, documents.declaredType id name⟩)
      (fun name declaration earlier =>
        .duplicateVariable name ⟨id, declaration.range⟩ earlier.document)
      (fun declaration => .variableLimit (some ⟨id, declaration.range⟩)))
    collected

def collectFragments (id : CapturedDocumentId) (body : RichDocumentBody)
    (collected : SortedMap RichName LocatedFragment) :
    Except EvaluationFailure (SortedMap RichName LocatedFragment) :=
  body.fragmentsByName.entries.foldlM
    (collectDeclared maxRichFragments
      (fun _ declaration => ⟨id, declaration⟩)
      (fun name declaration earlier =>
        .duplicateFragment name ⟨id, declaration.range⟩ earlier.document)
      (fun declaration => .fragmentLimit (some ⟨id, declaration.range⟩)))
    collected

def collectDocument (program : CollectedProgram) (id : CapturedDocumentId) :
    Except EvaluationFailure CollectedProgram := do
  let document ← require (documents.documents.get? id)
    (.unexpected "resolved graph nodes remain captured")
  let variablesByName ← collectVariables documents id document.body program.variablesByName
  let fragmentsByName ← collectFragments id document.body program.fragmentsByName
  return ⟨variablesByName, fragmentsByName,
    program.statements ++ document.body.statements.map fun statement => ⟨id, statement⟩⟩

def collectProgram (order : List CapturedDocumentId) :
    Except EvaluationFailure CollectedProgram := do
  let program ← order.foldlM (collectDocument documents) ⟨.empty, .empty, []⟩
  refuse (maxRichVariables < program.variablesByName.entries.length) (.variableLimit none)
  refuse (maxRichFragments < program.fragmentsByName.entries.length) (.fragmentLimit none)
  return program

end Collect

/-! ## 2. The evaluator -/

structure ResolvedVariable where
  value : TypedValue
  provenance : List ProvenanceRecord

/-- A change of the root: the root before and after it, and the record it left. -/
structure RootStep where
  before : Entries
  change : RootChange
  after : Entries
  target : RichValuePath
  record : ProvenanceRecord

abbrev DocumentProvenance := SortedMap RichValuePath (List ProvenanceRecord)

/-- `Evaluator`, without the parts that do not change, and with the history. -/
structure Evaluator where
  states : SortedMap RichName Nat
  variableStack : List RichName
  fragmentStack : List RichName
  resolved : SortedMap RichName ResolvedVariable
  root : Entries
  documentProvenance : DocumentProvenance
  frames : List EvaluationFrame
  sequence : UInt64
  steps : Nat
  loopIterations : Nat
  records : List ProvenanceRecord
  history : List RootStep

def Evaluator.new : Evaluator :=
  ⟨.empty, [], [], .empty, [], .empty, [], 0, 0, 0, [], []⟩

abbrev Evaluation (α : Type) := Stateful Evaluator EvaluationFailure α

abbrev Locals := SortedMap RichName TypedValue

def saturatingU32 (value : Nat) : UInt32 :=
  if value < 4294967296 then UInt32.ofNat value else 4294967295

def saturatingU64 (value : Nat) : UInt64 :=
  if value < 18446744073709551616 then UInt64.ofNat value else 18446744073709551615

namespace Evaluator

def charge (location : SourceLocation) : Evaluation Unit := do
  Stateful.update fun state => { state with steps := state.steps + 1 }
  let steps ← Stateful.look Evaluator.steps
  Stateful.lift (refuse (maxRichEvaluationSteps < steps) (.limitExceeded .evaluationSteps location))

def chargeLoop (count : Nat) (location : SourceLocation) : Evaluation Unit := do
  Stateful.lift (refuse (maxRichLoopIterations < count) (.limitExceeded .loopIterations location))
  Stateful.update fun state => { state with loopIterations := state.loopIterations + count }
  let total ← Stateful.look Evaluator.loopIterations
  Stateful.lift
    (refuse (maxRichTotalLoopIterations < total) (.limitExceeded .totalLoopIterations location))

def pushFrame (frame : EvaluationFrame) : Evaluation Unit :=
  Stateful.update fun state => { state with frames := state.frames ++ [frame] }

def popFrame : Evaluation Unit :=
  Stateful.update fun state => { state with frames := state.frames.dropLast }

def nextSequence (sequence : UInt64) : UInt64 :=
  if sequence = 18446744073709551615 then sequence else sequence + 1

def provenanceRecord (location : SourceLocation) (operation : ProvenanceOperation) :
    Evaluation ProvenanceRecord := do
  let record ← Stateful.look fun state =>
    ⟨state.sequence, location, operation, state.frames⟩
  Stateful.update fun state =>
    { state with
      sequence := nextSequence state.sequence
      records := state.records ++ [record] }
  return record

def countRecords (provenance : DocumentProvenance) : Nat :=
  (provenance.entries.map fun entry => entry.2.length).sum

def addRecord (provenance : DocumentProvenance) (path : RichValuePath)
    (record : ProvenanceRecord) : DocumentProvenance :=
  provenance.insert path ((provenance.get? path).getD [] ++ [record])

def addDocumentProvenance (path : RichValuePath) (location : SourceLocation)
    (operation : ProvenanceOperation) : Evaluation ProvenanceRecord := do
  let count ← Stateful.look fun state => countRecords state.documentProvenance
  Stateful.lift
    (refuse (maxRichProvenanceRecords ≤ count) (.limitExceeded .provenanceRecords location))
  let record ← provenanceRecord location operation
  Stateful.update fun state =>
    { state with documentProvenance := addRecord state.documentProvenance path record }
  return record

def patchFailure (location : SourceLocation) : PatchError → EvaluationFailure
  | .unexpected expectation => .unexpected expectation
  | error => .diagnostic (.invalidPatch error location)

def dropBelow (change : RootChange) (target : RichValuePath)
    (provenance : DocumentProvenance) : DocumentProvenance :=
  if change.dropsBelow then
    provenance.filterKeys fun candidate => !pathIsStrictPrefix target candidate
  else
    provenance

/-- The end of `emit` and of every branch of `apply_patch`. -/
def changeRoot (change : RootChange) (location : SourceLocation)
    (operation : ProvenanceOperation) : Evaluation Unit := do
  let before ← Stateful.look Evaluator.root
  let after ← Stateful.lift ((change.apply before).mapError (patchFailure location))
  let target ← Stateful.lift (change.target.mapError (patchFailure location))
  Stateful.update fun state =>
    { state with
      root := after
      documentProvenance := dropBelow change target state.documentProvenance }
  let record ← addDocumentProvenance target location operation
  Stateful.update fun state =>
    { state with history := state.history ++ [⟨before, change, after, target, record⟩] }

end Evaluator

/-! ## 3. Expressions -/

namespace TypedValue

mutual

def same : TypedValue → TypedValue → Bool
  | null, null => true
  | boolean left, boolean right => left = right
  | integer left, integer right => left = right
  | unsigned left, unsigned right => left = right
  | float left, float right => left = right
  | string left, string right => left = right
  | path left, path right => left = right
  | list left, list right => sameItems left right
  | record left, record right => sameEntries left right
  | collection left, collection right => sameEntries left right
  | _, _ => false

def sameItems : List TypedValue → List TypedValue → Bool
  | [], [] => true
  | left :: lefts, right :: rights => same left right && sameItems lefts rights
  | _, _ => false

/-- The derived equality of maps to values. -/
def sameEntries : List (RichKey × TypedValue) → List (RichKey × TypedValue) → Bool
  | [], [] => true
  | (leftKey, left) :: lefts, (rightKey, right) :: rights =>
    leftKey = rightKey && (same left right && sameEntries lefts rights)
  | _, _ => false

end

end TypedValue

def evaluatedValue (location : SourceLocation) (result : Except RichConfigError TypedValue) :
    Except EvaluationFailure TypedValue :=
  result.mapError fun error => .diagnostic (.invalidEvaluatedValue error location)

/-- The branch of `eval_expression` for a selection. -/
def selectKey (value : TypedValue) (key : RichKey) (location : SourceLocation) :
    Except EvaluationFailure TypedValue :=
  match value.children with
  | some entries =>
    require (entries.lookup key) (.diagnostic (.missingSelectedKey key location))
  | none => .error (.diagnostic (.invalidSelection value.kindName location))

def conditionValue (value : TypedValue) (location : SourceLocation) :
    Except EvaluationFailure Bool :=
  match value with
  | .boolean answer => .ok answer
  | _ => .error (.diagnostic (.conditionTypeMismatch value.kindName location))

def newRichKey (text : Text) : Except String RichKey :=
  match h : validateRichKey text with
  | .ok () => .ok ⟨text, h⟩
  | .error reason => .error reason

def collectionKey (value : TypedValue) (location : SourceLocation) :
    Except EvaluationFailure RichKey :=
  match value with
  | .string text =>
    (newRichKey text).mapError fun reason => .diagnostic (.invalidEvaluatedKey reason location)
  | _ => .error (.diagnostic (.collectionKeyKind value.kindName location))

open Evaluator (charge chargeLoop pushFrame popFrame changeRoot provenanceRecord)

section Expressions

variable (resolve : RichName → Evaluation TypedValue) (locals : Locals)
  (location : SourceLocation)

/-- A local binding, or else a variable. -/
def resolveName (name : RichName) : Evaluation TypedValue :=
  match locals.get? name with
  | some value => pure value
  | none => resolve name

mutual

def evalExpression : RichExpression → Evaluation TypedValue
  | .literal value => do
    charge location
    return value
  | .variable name => do
    charge location
    resolveName resolve locals name
  | .list expressions => do
    charge location
    Stateful.lift (refuse (maxRichCollectionItems < expressions.length)
      (.limitExceeded .listExpression location))
    let values ← evalExpressions expressions
    Stateful.lift (evaluatedValue location (TypedValue.newList values))
  | .record expressions => do
    charge location
    Stateful.lift (refuse (maxRichCollectionItems < expressions.length)
      (.limitExceeded .mapExpression location))
    let values ← evalEntries expressions
    Stateful.lift (evaluatedValue location (TypedValue.newRecord values))
  | .collection expressions => do
    charge location
    Stateful.lift (refuse (maxRichCollectionItems < expressions.length)
      (.limitExceeded .mapExpression location))
    let values ← evalEntries expressions
    Stateful.lift (evaluatedValue location (TypedValue.newCollection values))
  | .select value key => do
    charge location
    let value ← evalExpression value
    Stateful.lift (selectKey value key location)
  | .conditional condition thenValue elseValue => do
    charge location
    let holds ← evalCondition condition
    if holds then evalExpression thenValue else evalExpression elseValue

def evalExpressions : List RichExpression → Evaluation (List TypedValue)
  | [] => pure []
  | first :: rest => do
    let value ← evalExpression first
    let values ← evalExpressions rest
    return value :: values

/-- The values of a map expression, in key order (`eval_map`). -/
def evalEntries : List (RichKey × RichExpression) → Evaluation Entries
  | [] => pure []
  | (key, first) :: rest => do
    let value ← evalExpression first
    let values ← evalEntries rest
    return (key, value) :: values

def evalCondition : RichCondition → Evaluation Bool
  | .boolean expression => do
    charge location
    let value ← evalExpression expression
    Stateful.lift (conditionValue value location)
  | .isSet expression => do
    charge location
    let value ← evalExpression expression
    return !value.isNull
  | .equal left right negated => do
    charge location
    let left ← evalExpression left
    let right ← evalExpression right
    return if negated then !left.same right else left.same right
  | .not condition => do
    charge location
    let holds ← evalCondition condition
    return !holds
  | .all conditions => do
    charge location
    Stateful.lift (refuse (maxRichCollectionItems < conditions.length)
      (.limitExceeded .conditionTerms location))
    evalAll conditions
  | .any conditions => do
    charge location
    Stateful.lift (refuse (maxRichCollectionItems < conditions.length)
      (.limitExceeded .conditionTerms location))
    evalAny conditions

/-- The loop over the terms of `all`, up to the first that does not hold. -/
def evalAll : List RichCondition → Evaluation Bool
  | [] => pure true
  | first :: rest => do
    let holds ← evalCondition first
    if holds then evalAll rest else pure false

/-- The loop over the terms of `any`, up to the first that holds. -/
def evalAny : List RichCondition → Evaluation Bool
  | [] => pure false
  | first :: rest => do
    let holds ← evalCondition first
    if holds then pure true else evalAny rest

end

def evalCollectionKey (expression : RichExpression) : Evaluation RichKey := do
  let value ← evalExpression resolve locals location expression
  Stateful.lift (collectionKey value location)

end Expressions

/-! ## 4. Statements -/

def loopItems (value : TypedValue) (location : SourceLocation) :
    Except EvaluationFailure (List (TypedValue × TypedValue)) :=
  match value with
  | .list values =>
    .ok (values.zipIdx.map fun item => (.unsigned (saturatingU64 item.2), item.1))
  | .collection values =>
    values.mapM fun entry => do
      (checkRichLimit "rich string bytes" entry.1.val.byteLen maxRichTextBytes).mapError
        fun error => .diagnostic (.invalidLoopKey error location)
      return (.string entry.1.val, entry.2)
  | other => .error (.diagnostic (.loopTypeMismatch other.kindName location))

def iterationLocals (locals : Locals) (valueBinding : RichName) (keyBinding : Option RichName)
    (item : TypedValue × TypedValue) (location : SourceLocation) :
    Except EvaluationFailure Locals := do
  refuse (locals.contains valueBinding = true ∨
    keyBinding.any (fun name => locals.contains name) = true) (.shadowedLoopBinding location)
  let bound := locals.insert valueBinding item.2
  return match keyBinding with
    | some name => bound.insert name item.1
    | none => bound

/-- The iterations of a range loop, computed in `i128`. -/
def rangeCount (start through : Int64) : Nat :=
  let count := through.toInt - start.toInt + 1
  if count < 18446744073709551616 then count.toNat else 18446744073709551615

def rangeValue (start : Int64) (iteration : Nat) : Except EvaluationFailure Int64 := do
  reject (170141183460469231731687303715884105727 < iteration)
    (.unexpected "usize loop count fits i128")
  let value := start.toInt + iteration
  reject (value < -9223372036854775808 ∨ 9223372036854775807 < value)
    (.unexpected "value remains between i64 endpoints")
  return Int64.ofInt value

def rangeLocals (locals : Locals) (binding : RichName) (start : Int64) (iteration : Nat)
    (location : SourceLocation) : Except EvaluationFailure Locals := do
  refuse (locals.contains binding = true) (.shadowedLoopBinding location)
  let value ← rangeValue start iteration
  return locals.insert binding (.integer value)

def SourceRange.synthetic : SourceRange := ⟨0, 0, le_refl 0⟩

def patchRange (steps : List PatchStep) : SourceRange :=
  match steps with
  | [] => .synthetic
  | first :: _ => first.range

def statementRange : RichStatement → SourceRange
  | .emit _ _ range => range
  | .patch steps => patchRange steps
  | .compose _ range => range
  | .conditional _ _ _ range => range
  | .forEach _ _ _ _ range => range
  | .range _ _ _ _ range => range

section Statements

variable (resolve : RichName → Evaluation TypedValue)
  (compose : RichName → Locals → SourceLocation → Evaluation Unit)
  (document : CapturedDocumentId)

def applyPatch (locals : Locals) (location : SourceLocation) (operationIndex : UInt32) :
    PatchOperation → Evaluation Unit
  | .set path value => do
    let value ← evalExpression resolve locals location value
    changeRoot (.set path value) location (.patch operationIndex)
  | .unset path isOptional => changeRoot (.unset path isOptional) location (.patch operationIndex)
  | .listAppend path value => do
    let value ← evalExpression resolve locals location value
    changeRoot (.listAppend path value) location (.patch operationIndex)
  | .collectionInsert path key value => do
    let key ← evalCollectionKey resolve locals location key
    let value ← evalExpression resolve locals location value
    changeRoot (.collectionInsert path key value) location (.patch operationIndex)
  | .collectionReplace path key value => do
    let key ← evalCollectionKey resolve locals location key
    let value ← evalExpression resolve locals location value
    changeRoot (.collectionReplace path key value) location (.patch operationIndex)
  | .collectionRemove path key isOptional => do
    let key ← evalCollectionKey resolve locals location key
    changeRoot (.collectionRemove path key isOptional) location (.patch operationIndex)
  | .collectionReplaceAll path values => do
    Stateful.lift (refuse (maxRichCollectionItems < values.length)
      (.limitExceeded (.patched "replacement collection items") location))
    let values ← evalEntries resolve locals location values
    changeRoot (.collectionReplaceAll path values) location (.patch operationIndex)

def applySteps (locals : Locals) : Nat → List PatchStep → Evaluation Unit
  | _, [] => pure ()
  | index, step :: rest => do
    charge ⟨document, step.range⟩
    applyPatch resolve locals ⟨document, step.range⟩ (saturatingU32 index) step.operation
    applySteps locals (index + 1) rest

/-- The branch for `emit`: the key is checked before the value is evaluated. -/
def executeEmit (locals : Locals) (location : SourceLocation) (key : RichKey)
    (value : RichExpression) : Evaluation Unit := do
  let root ← Stateful.look Evaluator.root
  Stateful.lift (refuse ((root.lookup key).isSome = true) (.duplicateDocumentKey key location))
  let value ← evalExpression resolve locals location value
  changeRoot (.emit key value) location .emit

mutual

def executeStatement (locals : Locals) : RichStatement → Evaluation Unit
  | .emit key value range => do
    charge ⟨document, range⟩
    executeEmit resolve locals ⟨document, range⟩ key value
  | .patch steps => do
    charge ⟨document, patchRange steps⟩
    applySteps resolve document locals 0 steps
  | .compose fragment range => do
    charge ⟨document, range⟩
    compose fragment locals ⟨document, range⟩
  | .conditional condition thenStatements elseStatements range => do
    charge ⟨document, range⟩
    let thenBranch ← evalCondition resolve locals ⟨document, range⟩ condition
    pushFrame (.conditional thenBranch)
    let _ ← (if thenBranch then executeStatements locals thenStatements
      else executeStatements locals elseStatements)
    popFrame
  | .forEach valueBinding keyBinding iterable statements range => do
    charge ⟨document, range⟩
    Stateful.lift (refuse (keyBinding = some valueBinding)
      (.duplicateLoopBinding valueBinding ⟨document, range⟩))
    let iterable ← evalExpression resolve locals ⟨document, range⟩ iterable
    let items ← Stateful.lift (loopItems iterable ⟨document, range⟩)
    chargeLoop items.length ⟨document, range⟩
    items.zipIdx.forM fun item => do
      let bound ← Stateful.lift
        (iterationLocals locals valueBinding keyBinding item.1 ⟨document, range⟩)
      pushFrame (.loop valueBinding (saturatingU32 item.2))
      executeStatements bound statements
      popFrame
  | .range binding start through statements range => do
    charge ⟨document, range⟩
    Stateful.lift (refuse (through < start) (.invalidRangeLoop start through ⟨document, range⟩))
    chargeLoop (rangeCount start through) ⟨document, range⟩
    (List.range (rangeCount start through)).forM fun iteration => do
      let bound ← Stateful.lift (rangeLocals locals binding start iteration ⟨document, range⟩)
      pushFrame (.loop binding (saturatingU32 iteration))
      executeStatements bound statements
      popFrame

def executeStatements (locals : Locals) : List RichStatement → Evaluation Unit
  | [] => pure ()
  | first :: rest => do
    executeStatement locals first
    executeStatements locals rest

end

end Statements

/-! ## 5. Fragments and variables -/

section Program

variable (program : CollectedProgram)

def composeFragment (resolve : RichName → Evaluation TypedValue) :
    Nat → RichName → Locals → SourceLocation → Evaluation Unit
  | 0, _, _, _ => Stateful.fail .exhausted
  | nesting + 1, name, locals, location => do
    let stack ← Stateful.look Evaluator.fragmentStack
    Stateful.lift (refuse (name ∈ stack)
      (.fragmentCycle name (stack.dropWhile (· ≠ name) ++ [name]) location))
    Stateful.lift (refuse (maxRichValueDepth ≤ stack.length) (.fragmentDepthLimit location))
    let fragment ← Stateful.lift (require (program.fragmentsByName.get? name)
      (.diagnostic (.unknownFragment name location)))
    Stateful.update fun state => { state with fragmentStack := state.fragmentStack ++ [name] }
    pushFrame (.fragment name)
    executeStatements resolve (composeFragment resolve nesting) fragment.document locals
      fragment.declaration.statements
    popFrame
    Stateful.update fun state => { state with fragmentStack := state.fragmentStack.dropLast }

variable (supplied : SortedMap RichName TypedValue)

/-- The value of a variable before its type is applied, and where it is from. -/
def rawValue (eval : RichExpression → Evaluation TypedValue) (name : RichName)
    (location : SourceLocation) : VariableSource → Evaluation (TypedValue × ProvenanceOperation)
  | .computed expression => do
    let value ← eval expression
    return (value, .variableComputed)
  | .input isOptional default =>
    match supplied.get? name with
    | some value => pure (value, .variableSupplied)
    | none =>
      match default with
      | some expression => do
        let value ← eval expression
        return (value, .variableDefault)
      | none =>
        if isOptional then
          pure (.null, .variableOptionalAbsent)
        else
          Stateful.fail (.diagnostic (.missingRequiredVariable name location))

def VariableSource.isOptional : VariableSource → Bool
  | input optional _ => optional
  | computed _ => false

def VariableSource.isComputed : VariableSource → Bool
  | input _ _ => false
  | computed _ => true

/-- The end of `resolve_variable`: the type, the record and the value. -/
def finishVariable (name : RichName) (located : LocatedVariable) (location : SourceLocation)
    (raw : TypedValue × ProvenanceOperation) : Evaluation TypedValue := do
  let value ← Stateful.lift
    ((located.valueType.resolveOptional raw.1 located.declaration.source.isOptional).mapError
      fun error => .diagnostic (.variableTypeMismatch name error location))
  let record ← provenanceRecord location raw.2
  Stateful.update fun state =>
    { state with
      variableStack := state.variableStack.dropLast
      states := state.states.insert name 2
      resolved := state.resolved.insert name ⟨value, [record]⟩ }
  return value

/-- `resolve_variable` by an evaluation of the source. -/
def resolveFresh (eval : Locals → SourceLocation → RichExpression → Evaluation TypedValue)
    (name : RichName) : Evaluation TypedValue := do
  let mark ← Stateful.look fun state => state.states.get? name
  let stack ← Stateful.look Evaluator.variableStack
  Stateful.lift (refuse (mark = some 1)
    (.variableCycle name (stack.dropWhile (· ≠ name) ++ [name])))
  let located ← Stateful.lift (require (program.variablesByName.get? name)
    (.diagnostic (.unknownVariable name)))
  Stateful.update fun state =>
    { state with
      states := state.states.insert name 1
      variableStack := state.variableStack ++ [name] }
  let location := ⟨located.document, located.declaration.range⟩
  let raw ← rawValue supplied (eval .empty location) name location located.declaration.source
  finishVariable name located location raw

def resolveVariable : Nat → RichName → Evaluation TypedValue
  | 0, _ => Stateful.fail .exhausted
  | nesting + 1, name => do
    let found ← Stateful.look fun state => state.resolved.get? name
    match found with
    | some known => pure known.value
    | none => resolveFresh program supplied (evalExpression (resolveVariable nesting)) name

def checkSupplied (entry : RichName × TypedValue) : Except EvaluationFailure Unit := do
  let located ← require (program.variablesByName.get? entry.1)
    (.diagnostic (.unknownSuppliedVariable entry.1))
  refuse (located.declaration.source.isComputed = true)
    (.computedVariableSupplied entry.1 ⟨located.document, located.declaration.range⟩)
  entry.2.validate.mapError fun error => .diagnostic (.invalidSuppliedValue entry.1 error)

def resolveAllVariables (nesting : Nat) : Evaluation Unit := do
  Stateful.lift (supplied.entries.forM (checkSupplied program))
  program.variablesByName.keys.forM fun name => do
    let _ ← resolveVariable program supplied nesting name

def runProgram (nesting : Nat) : Evaluation Unit := do
  resolveAllVariables program supplied nesting
  program.statements.forM fun located =>
    executeStatements (resolveVariable program supplied nesting)
      (composeFragment program (resolveVariable program supplied nesting) nesting)
      located.document .empty [located.statement]

end Program

/-! ## 6. Documents -/

/-- `RichEvaluationV1`, with the evaluator as the run left it. -/
structure RichEvaluation where
  document : CanonicalTypedDocument
  variablesByName : SortedMap RichName ResolvedVariable
  includes : List IncludeProvenance
  diagnostics : List RichDiagnostic
  evaluator : Evaluator

def resolutionFailure : IncludeError → EvaluationFailure
  | .uncaptured _ => .unexpected "the entry and every traversed target were checked"
  | error => .diagnostic (.resolution error)

section Documents

variable (documents : TypedDocumentSet)

def validateAdditional (budget : PreflightBudget) (located : LocatedRichStatement) :
    Except EvaluationFailure PreflightBudget := do
  let document ← require (documents.documents.get? located.document)
    (.diagnostic (.unknownStatementDocument located.document))
  (validateStatementRanges document.toCapturedBytes [located.statement] 1 budget).mapError
    fun error => resolutionFailure (.preflight error)

def newSourceIdentity (digest : ObjectDigest) (byteLen : UInt64) :
    Except EvaluationFailure CapturedSourceIdentity :=
  if h : byteLen.toNat ≤ maxConfigDocumentBytes then
    .ok ⟨digest, byteLen, h⟩
  else
    .error (.unexpected "captured document byte length was validated at construction")

def sourceDocument (id : CapturedDocumentId) :
    Except EvaluationFailure (CapturedDocumentId × CapturedSourceIdentity) := do
  let document ← require (documents.documents.get? id)
    (.unexpected "resolved graph nodes remain captured")
  let identity ← newSourceIdentity document.digest (saturatingU64 document.bytes.length)
  return (id, identity)

def finishEvaluation (graph : ResolvedGraph) (state : Evaluator) :
    Except EvaluationFailure RichEvaluation := do
  let root ← (TypedValue.newRecord state.root).mapError fun error =>
    .diagnostic (.invalidResult error)
  let sources ← graph.order.mapM (sourceDocument documents)
  let document : CanonicalTypedDocument :=
    ⟨richConfigIrVersion, root,
      sources.foldl (fun map source => map.insert source.1 source.2) .empty,
      graph.includes, state.documentProvenance⟩
  document.validate.mapError fun error => .diagnostic (.invalidResult error)
  let diagnostics ← (canonicalDiagnostics []).mapError fun _ =>
    .unexpected "an empty diagnostic sequence always satisfies bounds"
  return ⟨document, state.resolved, graph.includes, diagnostics, state⟩

def evaluateRichConfigWithStatements (entry : CapturedDocumentId)
    (supplied : SortedMap RichName TypedValue) (additionalStatements : List LocatedRichStatement)
    (nesting : Nat) : Except EvaluationFailure RichEvaluation := do
  let graph ← (resolveIncludeGraph documents.toCapturedDocumentSet entry).mapError
    resolutionFailure
  let _ ← additionalStatements.foldlM (validateAdditional documents) graph.preflight
  let collected ← collectProgram documents graph.order
  let program := { collected with statements := collected.statements ++ additionalStatements }
  let ended ← runProgram program supplied nesting Evaluator.new
  finishEvaluation documents graph ended.2


end Documents

end Malm.Config
