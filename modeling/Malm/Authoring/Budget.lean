/-
Malm.Authoring.Budget — the plan-wide budgets of one compilation (`lang/budget.rs`).

Additions are checked against the range of `u64`, and a subtraction wraps in it. The
strings written under an output stand beside its account; they lie in one address
space, so an append for which there is no room does not return.
-/
import Malm.Types

namespace Malm.Authoring

/-! ## 1. The plan -/

/-- `Limits`, as far as the budgets check them. -/
structure Limits where
  maxControlNesting : UInt64
  maxCollectionSize : UInt64
  maxRangeIterations : Int
  maxTotalIterations : UInt64
  maxGeneratedNodes : UInt64
  maxOperations : UInt64
  maxArtifactBytes : UInt64
  maxTotalBytes : UInt64
  maxRenderFiles : UInt64
  maxRenderBytes : UInt64
deriving DecidableEq

def Limits.default : Limits :=
  ⟨16, 4096, 10000, 100000, 1000000, 1000000, 64 * 1024 * 1024, 512 * 1024 * 1024, 1024,
    16 * 1024 * 1024⟩

structure Budget where
  limits : Limits
  totalIterations : Nat
  generatedNodes : Nat
  operations : Nat
  totalBytes : Nat
  renderFiles : Nat
  renderBytes : Nat
  exhausted : Bool
deriving DecidableEq

/-- A result, with the text of `BudgetError`, and the budget after it. -/
abbrev Budgeted (α : Type) := Except String α × Budget

def checkedAdd (left right : Nat) : Option Nat :=
  if left + right < 2 ^ 64 then some (left + right) else none

def saturatingAdd (left right : Nat) : Nat := min (left + right) (2 ^ 64 - 1)

/-- A subtraction from a `u64`, as a release build carries it out. -/
def wrappingSub (left right : Nat) : Nat := (left + 2 ^ 64 - right) % 2 ^ 64

namespace Budget

def new (limits : Limits) : Budget := ⟨limits, 0, 0, 0, 0, 0, 0, false⟩

def exceeded {α : Type} (budget : Budget) (what : String) : Budgeted α :=
  (.error what, { budget with exhausted := true })

def checked (budget : Budget) (past : Prop) [Decidable past] (what : String) : Budgeted Unit :=
  if past then budget.exceeded what else (.ok (), budget)

/-- A charge to the counter that `store` writes. -/
def charged (budget : Budget) (used added : Nat) (limit : UInt64)
    (overflowed past : String) (store : Nat → Budget) : Budgeted Unit :=
  match checkedAdd used added with
  | none => budget.exceeded overflowed
  | some total => if limit.toNat < total then budget.exceeded past else (.ok (), store total)

def checkNesting (budget : Budget) (depth : Nat) : Budgeted Unit :=
  let limit := budget.limits.maxControlNesting
  budget.checked (limit.toNat < depth) s!"control nesting exceeds the maximum of {limit}"

def checkCollectionSize (budget : Budget) (len : Nat) : Budgeted Unit :=
  let limit := budget.limits.maxCollectionSize
  budget.checked (limit.toNat < len) s!"collection has {len} items, exceeding the maximum of {limit}"

def checkRange (budget : Budget) (iterations : Int) : Budgeted Unit :=
  let limit := budget.limits.maxRangeIterations
  budget.checked (limit < iterations)
    s!"range spans {iterations} iterations, exceeding the maximum of {limit}"

def countIterations (budget : Budget) (n : Nat) : Budgeted Unit :=
  let limit := budget.limits.maxTotalIterations
  budget.charged budget.totalIterations n limit "total iteration counter overflowed"
    s!"total loop iterations exceed the plan-wide maximum of {limit}"
    fun total => { budget with totalIterations := total }

def countGeneratedNodes (budget : Budget) (n : Nat) : Budgeted Unit :=
  let limit := budget.limits.maxGeneratedNodes
  budget.charged budget.generatedNodes n limit "generated-node counter overflowed"
    s!"generated KDL nodes exceed the plan-wide maximum of {limit}"
    fun total => { budget with generatedNodes := total }

def countOperations (budget : Budget) (n : Nat) : Budgeted Unit :=
  let limit := budget.limits.maxOperations
  budget.charged budget.operations n limit "operation counter overflowed"
    s!"operations exceed the plan-wide maximum of {limit}"
    fun total => { budget with operations := total }

def countRenderBytes (budget : Budget) (bytes : Nat) : Budgeted Unit :=
  let limit := budget.limits.maxRenderBytes
  budget.charged budget.renderBytes bytes limit "render byte counter overflowed"
    s!"rendering read more than {limit} source bytes"
    fun total => { budget with renderBytes := total }

def checkArtifactSize (budget : Budget) (bytes : Nat) : Budgeted Unit :=
  let limit := budget.limits.maxArtifactBytes
  budget.checked (limit.toNat < bytes) s!"artifact exceeds the per-file maximum of {limit} bytes"

def countArtifactBytes (budget : Budget) (artifactLen added : Nat) : Budgeted Unit :=
  if budget.limits.maxArtifactBytes.toNat < artifactLen then budget.checkArtifactSize artifactLen
  else
    let limit := budget.limits.maxTotalBytes
    budget.charged budget.totalBytes added limit "generated-bytes counter overflowed"
      s!"generated output exceeds the plan-wide maximum of {limit} bytes"
      fun total => { budget with totalBytes := total }

def beginRenderFile (budget : Budget) : Budgeted Nat :=
  let limit := budget.limits.maxRenderFiles
  match checkedAdd budget.renderFiles 1 with
  | none => budget.exceeded "render file counter overflowed"
  | some files =>
    if limit.toNat < files then budget.exceeded s!"rendering read more than {limit} source files"
    else (.ok (wrappingSub budget.limits.maxRenderBytes.toNat budget.renderBytes),
      { budget with renderFiles := files })

def checkOutputSize (budget : Budget) (bytes : Nat) : Budgeted Unit :=
  if budget.limits.maxArtifactBytes.toNat < bytes then budget.checkArtifactSize bytes
  else
    let limit := budget.limits.maxTotalBytes
    budget.checked ((checkedAdd budget.totalBytes bytes).all (limit.toNat < ·) = true)
      s!"generated output exceeds the plan-wide maximum of {limit} bytes"

end Budget

/-! ## 2. Outputs -/

structure OutputBudget where
  limit : Nat
  bytes : Nat
  exceeded : Option Nat
deriving DecidableEq

def Budget.beginOutput (budget : Budget) : OutputBudget :=
  ⟨min budget.limits.maxArtifactBytes.toNat
    (budget.limits.maxTotalBytes.toNat - budget.totalBytes), 0, none⟩

def Budget.finishOutput (budget : Budget) (output : OutputBudget) : Budgeted Unit :=
  match output.exceeded with
  | some projected => budget.countArtifactBytes projected projected
  | none => budget.countArtifactBytes output.bytes output.bytes

def OutputBudget.reserve (account : OutputBudget) (bytes : Nat) : Bool × OutputBudget :=
  if account.exceeded.isSome then (false, account)
  else
    let projected := saturatingAdd account.bytes bytes
    if account.limit < projected then (false, { account with exceeded := some projected })
    else (true, { account with bytes := projected })

/-- The bytes that a `pop` or a `remove_prefix` takes off. -/
def OutputBudget.refund (account : OutputBudget) (bytes : Nat) : OutputBudget :=
  { account with bytes := wrappingSub account.bytes bytes }

/-! ## 3. Runs -/

/-- The account of an output, and the strings that are written under it. -/
structure Output where
  account : OutputBudget
  parts : List Text

/-- The plan, the outputs as they were begun, and the sizes of the accepted artifacts. -/
structure Session where
  budget : Budget
  outputs : List Output
  accepted : List Nat

/-- The operations of `Budget` and `OutputBudget`, and the life of the strings. -/
inductive Operation where
  | checkNesting (depth : Nat)
  | checkCollectionSize (len : Nat)
  | checkRange (iterations : Int)
  | countIterations (n : Nat)
  | countGeneratedNodes (n : Nat)
  | countOperations (n : Nat)
  | countRenderBytes (bytes : Nat)
  | countArtifactBytes (artifactLen added : Nat)
  | beginRenderFile
  | checkArtifactSize (bytes : Nat)
  | checkOutputSize (bytes : Nat)
  | beginOutput
  | newPart (output : Nat)
  /-- `push_str`, `push_char`, and each piece of a `write_fmt`. -/
  | push (output part : Nat) (value : Text)
  /-- `append_accounted` of any text. -/
  | appendAccounted (output part : Nat) (value : Text)
  /-- `append_accounted` of a part that is dropped behind it. -/
  | move (output part source : Nat)
  | pop (output part : Nat)
  /-- `remove_prefix` of so many characters. -/
  | removePrefix (output part count : Nat)
  | drop (output part : Nat)
  | finish (output part : Nat)
deriving DecidableEq

namespace Session

def live (session : Session) : Nat :=
  (session.outputs.map fun output => (output.parts.map Text.byteLen).sum).sum

/-- An operation of the plan, with the bytes it charges to artifacts when it succeeds. -/
def plan {α : Type} (session : Session) (result : Budgeted α) (charged : List Nat) :
    Session × Bool :=
  match result.1 with
  | .ok _ => ({ session with budget := result.2, accepted := session.accepted ++ charged }, true)
  | .error _ => ({ session with budget := result.2 }, false)

def setOutput (session : Session) (index : Nat) (output : Output) : Session :=
  { session with outputs := session.outputs.set index output }

def push (session : Session) (index part : Nat) (value : Text) : Option (Session × Bool) := do
  let output ← session.outputs[index]?
  let content ← output.parts[part]?
  let (granted, account) := output.account.reserve value.byteLen
  if granted = false then return (session.setOutput index { output with account }, false)
  else if session.live + value.byteLen < 2 ^ 64 then
    return (session.setOutput index ⟨account, output.parts.set part (content ++ value)⟩, true)
  else none

def append (session : Session) (index part : Nat) (value : Text) : Option (Session × Bool) := do
  let output ← session.outputs[index]?
  let content ← output.parts[part]?
  if session.live + value.byteLen < 2 ^ 64 then
    return (session.setOutput index
      { output with parts := output.parts.set part (content ++ value) }, true)
  else none

/-- A part of an output is cut to a suffix, and the account gets back what was cut. -/
def cut (session : Session) (index part : Nat) (split : Text → Text × Text) :
    Option (Session × Bool) := do
  let output ← session.outputs[index]?
  let content ← output.parts[part]?
  return (session.setOutput index ⟨output.account.refund (split content).1.byteLen,
    output.parts.set part (split content).2⟩, true)

/-- One operation: the session after it and whether it was accepted. -/
def step (session : Session) : Operation → Option (Session × Bool)
  | .checkNesting depth => some (session.plan (session.budget.checkNesting depth) [])
  | .checkCollectionSize len => some (session.plan (session.budget.checkCollectionSize len) [])
  | .checkRange iterations => some (session.plan (session.budget.checkRange iterations) [])
  | .countIterations n => some (session.plan (session.budget.countIterations n) [])
  | .countGeneratedNodes n => some (session.plan (session.budget.countGeneratedNodes n) [])
  | .countOperations n => some (session.plan (session.budget.countOperations n) [])
  | .countRenderBytes bytes => some (session.plan (session.budget.countRenderBytes bytes) [])
  | .countArtifactBytes artifactLen added =>
    some (session.plan (session.budget.countArtifactBytes artifactLen added) [added])
  | .beginRenderFile => some (session.plan session.budget.beginRenderFile [])
  | .checkArtifactSize bytes => some (session.plan (session.budget.checkArtifactSize bytes) [])
  | .checkOutputSize bytes => some (session.plan (session.budget.checkOutputSize bytes) [])
  | .beginOutput =>
    some ({ session with outputs := session.outputs ++ [⟨session.budget.beginOutput, []⟩] }, true)
  | .newPart index => session.outputs[index]?.map fun output =>
    (session.setOutput index { output with parts := output.parts ++ [[]] }, true)
  | .push index part value => session.push index part value
  | .appendAccounted index part value => session.append index part value
  | .move index part source => do
    let output ← session.outputs[index]?
    let value ← output.parts[source]?
    let content ← output.parts[part]?
    if part = source then none
    else return (session.setOutput index
      { output with parts := (output.parts.set part (content ++ value)).set source [] }, true)
  | .pop index part => session.cut index part fun content =>
    (content.getLast?.toList, content.dropLast)
  | .removePrefix index part count => session.cut index part fun content =>
    (content.take count, content.drop count)
  | .drop index part => session.outputs[index]?.map fun output =>
    (session.setOutput index { output with parts := output.parts.set part [] }, true)
  | .finish index part => do
    let output ← session.outputs[index]?
    let content ← output.parts[part]?
    return session.plan (session.budget.finishOutput output.account) [content.byteLen]

/-- A compilation before its first operation. -/
def start (limits : Limits) : Session := ⟨.new limits, [], []⟩

def run : Session → List Operation → Option (Session × List Bool)
  | session, [] => some (session, [])
  | session, operation :: rest => do
    let (next, accepted) ← session.step operation
    let (last, others) ← run next rest
    return (last, accepted :: others)

end Session

end Malm.Authoring
