/-
Malm.Config.PreflightValidity — what preflight leaves to evaluation
(`malm-config/src/rich_eval.rs`).

A statement or an expression that passed its preflight has only literals within the
value limits. This is all that evaluation relies on: the other bounds of preflight are
checked again or follow from its own counters.
-/
import Malm.Config.Evaluation

namespace Malm.Config

open Pack Checks

variable {budget budget' : PreflightBudget}

/-! ## 1. Valid programs -/

mutual

/-- Every literal of an expression is within the value limits. -/
def RichExpression.Valid : RichExpression → Prop
  | .literal value => value.validate = .ok ()
  | .variable _ => True
  | .list values => ExpressionsValid values
  | .record values => EntriesValid values
  | .collection values => EntriesValid values
  | .select value _ => value.Valid
  | .conditional condition thenValue elseValue =>
    condition.Valid ∧ thenValue.Valid ∧ elseValue.Valid

def ExpressionsValid : List RichExpression → Prop
  | [] => True
  | first :: rest => first.Valid ∧ ExpressionsValid rest

def EntriesValid : List (RichKey × RichExpression) → Prop
  | [] => True
  | (_, first) :: rest => first.Valid ∧ EntriesValid rest

/-- Every literal of a condition is within the value limits. -/
def RichCondition.Valid : RichCondition → Prop
  | .boolean value => value.Valid
  | .isSet value => value.Valid
  | .equal left right _ => left.Valid ∧ right.Valid
  | .not condition => condition.Valid
  | .all conditions => ConditionsValid conditions
  | .any conditions => ConditionsValid conditions

def ConditionsValid : List RichCondition → Prop
  | [] => True
  | first :: rest => first.Valid ∧ ConditionsValid rest

end

/-- Every literal of a patch operation is within the value limits. -/
def PatchOperation.Valid : PatchOperation → Prop
  | set _ value => value.Valid
  | unset _ _ => True
  | listAppend _ value => value.Valid
  | collectionInsert _ key value => key.Valid ∧ value.Valid
  | collectionReplace _ key value => key.Valid ∧ value.Valid
  | collectionRemove _ key _ => key.Valid
  | collectionReplaceAll _ values => EntriesValid values

mutual

/-- Every literal of a statement is within the value limits. -/
def RichStatement.Valid : RichStatement → Prop
  | .emit _ value _ => value.Valid
  | .patch steps => ∀ step ∈ steps, step.operation.Valid
  | .compose _ _ => True
  | .conditional condition thenStatements elseStatements _ =>
    condition.Valid ∧ StatementsValid thenStatements ∧ StatementsValid elseStatements
  | .forEach _ _ iterable statements _ => iterable.Valid ∧ StatementsValid statements
  | .range _ _ _ statements _ => StatementsValid statements

def StatementsValid : List RichStatement → Prop
  | [] => True
  | first :: rest => first.Valid ∧ StatementsValid rest

end

def VariableSource.Valid : VariableSource → Prop
  | input _ default => ∀ expression, default = some expression → expression.Valid
  | computed expression => expression.Valid

/-- What the loop over the documents keeps of the program. -/
structure CollectedProgram.Collected (program : CollectedProgram) : Prop where
  sources : ∀ name located, program.variablesByName.get? name = some located →
    located.declaration.source.Valid
  fragments : ∀ name located, program.fragmentsByName.get? name = some located →
    StatementsValid located.declaration.statements
  statements : ∀ located ∈ program.statements, located.statement.Valid

/-- What preflight and collection leave of a program. -/
structure CollectedProgram.Valid (program : CollectedProgram) : Prop extends program.Collected where
  few : program.variablesByName.entries.length ≤ maxRichVariables

/-! ## 2. Preflight -/

section Preflight

variable {doc : CapturedBytes}

mutual

variable {range : SourceRange}

theorem validateExpressionShape_valid :
    ∀ {expr : RichExpression} {depth : Nat} {budget budget' : PreflightBudget},
      validateExpressionShape doc range depth budget expr = .ok budget' →
      expr.Valid
  | .literal v, depth, budget, budget', h => by
    simp only [validateExpressionShape, bind_ok, exists_unit, mapError_ok] at h
    obtain ⟨entered, -, hvalue, -⟩ := h
    exact hvalue
  | .variable _, _, _, _, _ => trivial
  | .list vs, depth, budget, budget', h => by
    simp only [validateExpressionShape, bind_ok, exists_unit] at h
    obtain ⟨entered, -, -, hvalues⟩ := h
    exact validateExpressions_valid hvalues
  | .record vs, depth, budget, budget', h => by
    simp only [validateExpressionShape, bind_ok, exists_unit] at h
    obtain ⟨entered, -, -, hvalues⟩ := h
    exact validateEntries_valid hvalues
  | .collection vs, depth, budget, budget', h => by
    simp only [validateExpressionShape, bind_ok, exists_unit] at h
    obtain ⟨entered, -, -, hvalues⟩ := h
    exact validateEntries_valid hvalues
  | .select v _, depth, budget, budget', h => by
    simp only [validateExpressionShape, bind_ok] at h
    obtain ⟨entered, -, hvalue⟩ := h
    show v.Valid
    exact validateExpressionShape_valid hvalue
  | .conditional cond thenValue elseValue, depth, budget, budget', h => by
    simp only [validateExpressionShape, bind_ok] at h
    obtain ⟨entered, -, first, hcondition, snd, hthen, helse⟩ := h
    exact ⟨validateConditionShape_valid hcondition, validateExpressionShape_valid hthen,
      validateExpressionShape_valid helse⟩

theorem validateExpressions_valid :
    ∀ {vs : List RichExpression} {depth : Nat} {budget budget' : PreflightBudget},
      validateExpressions doc range depth budget vs = .ok budget' →
      ExpressionsValid vs
  | [], _, _, _, _ => trivial
  | first :: rest, depth, budget, budget', h => by
    simp only [validateExpressions, bind_ok] at h
    obtain ⟨entered, hfirst, hrest⟩ := h
    exact ⟨validateExpressionShape_valid hfirst, validateExpressions_valid hrest⟩

theorem validateEntries_valid :
    ∀ {vs : List (RichKey × RichExpression)} {depth : Nat} {budget budget' : PreflightBudget},
      validateEntries doc range depth budget vs = .ok budget' → EntriesValid vs
  | [], _, _, _, _ => trivial
  | (key, first) :: rest, depth, budget, budget', h => by
    simp only [validateEntries, bind_ok] at h
    obtain ⟨entered, hfirst, hrest⟩ := h
    exact ⟨validateExpressionShape_valid hfirst, validateEntries_valid hrest⟩

theorem validateConditionShape_valid :
    ∀ {cond : RichCondition} {depth : Nat} {budget budget' : PreflightBudget},
      validateConditionShape doc range depth budget cond = .ok budget' →
      cond.Valid
  | .boolean v, depth, budget, budget', h => by
    simp only [validateConditionShape, bind_ok] at h
    obtain ⟨entered, -, hvalue⟩ := h
    exact validateExpressionShape_valid hvalue
  | .isSet v, depth, budget, budget', h => by
    simp only [validateConditionShape, bind_ok] at h
    obtain ⟨entered, -, hvalue⟩ := h
    exact validateExpressionShape_valid hvalue
  | .equal left right _, depth, budget, budget', h => by
    simp only [validateConditionShape, bind_ok] at h
    obtain ⟨entered, -, mid, hleft, hright⟩ := h
    exact ⟨validateExpressionShape_valid hleft, validateExpressionShape_valid hright⟩
  | .not cond, depth, budget, budget', h => by
    simp only [validateConditionShape, bind_ok] at h
    obtain ⟨entered, -, hcondition⟩ := h
    show cond.Valid
    exact validateConditionShape_valid hcondition
  | .all conditions, depth, budget, budget', h => by
    simp only [validateConditionShape, bind_ok, exists_unit] at h
    obtain ⟨entered, -, -, hconditions⟩ := h
    exact validateConditions_valid hconditions
  | .any conditions, depth, budget, budget', h => by
    simp only [validateConditionShape, bind_ok, exists_unit] at h
    obtain ⟨entered, -, -, hconditions⟩ := h
    exact validateConditions_valid hconditions

theorem validateConditions_valid :
    ∀ {conditions : List RichCondition} {depth : Nat} {budget budget' : PreflightBudget},
      validateConditions doc range depth budget conditions = .ok budget' →
      ConditionsValid conditions
  | [], _, _, _, _ => trivial
  | first :: rest, depth, budget, budget', h => by
    simp only [validateConditions, bind_ok] at h
    obtain ⟨entered, hfirst, hrest⟩ := h
    exact ⟨validateConditionShape_valid hfirst, validateConditions_valid hrest⟩

end

theorem validatePatchShape_valid {op : PatchOperation} {range : SourceRange}
    (h : validatePatchShape doc op range budget = .ok budget') : op.Valid := by
  cases op with
  | set path v => exact validateExpressionShape_valid h
  | unset path isOptional => trivial
  | listAppend path v => exact validateExpressionShape_valid h
  | collectionInsert path key v =>
    simp only [validatePatchShape, bind_ok] at h
    obtain ⟨mid, hkey, hvalue⟩ := h
    exact ⟨validateExpressionShape_valid hkey, validateExpressionShape_valid hvalue⟩
  | collectionReplace path key v =>
    simp only [validatePatchShape, bind_ok] at h
    obtain ⟨mid, hkey, hvalue⟩ := h
    exact ⟨validateExpressionShape_valid hkey, validateExpressionShape_valid hvalue⟩
  | collectionRemove path key isOptional => exact validateExpressionShape_valid h
  | collectionReplaceAll path vs =>
    simp only [validatePatchShape, bind_ok, exists_unit] at h
    exact validateEntries_valid h.2

mutual

theorem validateStatement_valid :
    ∀ {stmt : RichStatement} {depth : Nat} {budget budget' : PreflightBudget},
      validateStatement doc depth budget stmt = .ok budget' → stmt.Valid
  | .emit _ v range, depth, budget, budget', h => by
    simp only [validateStatement, bind_ok, exists_unit] at h
    exact validateExpressionShape_valid h.2
  | .patch steps, depth, budget, budget', h => by
    simp only [validateStatement, bind_ok] at h
    obtain ⟨counted, -, hsteps⟩ := h
    intro step hstep
    obtain ⟨before, after, hvalid⟩ := foldlM_ok_of_mem hsteps hstep
    simp only [validatePatchStep, bind_ok, exists_unit] at hvalid
    exact validatePatchShape_valid hvalid.2
  | .compose _ _, _, _, _, _ => trivial
  | .conditional cond thenStatements elseStatements range, depth, budget, budget', h => by
    simp only [validateStatement, bind_ok, exists_unit] at h
    obtain ⟨-, first, hcondition, snd, -, third, hthen, fourth, -, helse⟩ := h
    exact ⟨validateConditionShape_valid hcondition, validateStatements_valid hthen,
      validateStatements_valid helse⟩
  | .forEach _ _ iterable stmts range, depth, budget, budget', h => by
    simp only [validateStatement, bind_ok, exists_unit] at h
    obtain ⟨-, first, hiterable, snd, -, hstmts⟩ := h
    exact ⟨validateExpressionShape_valid hiterable, validateStatements_valid hstmts⟩
  | .range _ _ _ stmts range, depth, budget, budget', h => by
    simp only [validateStatement, bind_ok, exists_unit] at h
    obtain ⟨-, first, -, hstmts⟩ := h
    exact validateStatements_valid hstmts

theorem validateStatements_valid :
    ∀ {stmts : List RichStatement} {depth : Nat} {budget budget' : PreflightBudget},
      validateStatements doc depth budget stmts = .ok budget' →
      StatementsValid stmts
  | [], _, _, _, _ => trivial
  | first :: rest, depth, budget, budget', h => by
    simp only [validateStatements, bind_ok] at h
    obtain ⟨mid, hfirst, hrest⟩ := h
    exact ⟨validateStatement_valid hfirst, validateStatements_valid hrest⟩

end

theorem validateStatementRanges_valid {statements : List RichStatement} {depth : Nat}
    (h : validateStatementRanges doc statements depth budget = .ok budget') :
    StatementsValid statements := by
  simp only [validateStatementRanges, bind_ok] at h
  obtain ⟨entered, -, hstmts⟩ := h
  exact validateStatements_valid hstmts

theorem validateVariable_valid {decl : VariableDeclaration}
    (h : validateVariable doc budget decl = .ok budget') :
    decl.source.Valid := by
  simp only [validateVariable, bind_ok, exists_unit] at h
  obtain ⟨-, hsource⟩ := h
  split at hsource
  · next source default hsome =>
    rw [hsome]
    intro expr heq
    cases heq
    exact validateExpressionShape_valid hsource
  · next source value hcomputed =>
    rw [hcomputed]
    exact validateExpressionShape_valid hsource
  · next source hnone =>
    rw [hnone]
    intro expr heq
    cases heq

end Preflight

end Malm.Config
