/-
Malm.Config.PreflightTheorems — the preflight draws on one budget.

Every check of the preflight either leaves the budget alone or adds a cost that
the doc fixes. So whether a number of documents pass does not depend on the
order in which they are checked (`validateDocumentRanges_metered`).
-/
import Malm.Lib.Budget
import Malm.Config.Documents

namespace Malm.Config

open Budget Checks Prod Metered

def preflightLimit : PreflightBudget := (maxRichStatements, maxRichEvaluationSteps)

variable (doc : CapturedBytes)

/-! ## 1. Expressions and conditions -/

theorem enterExpression_metered (range : SourceRange) (noun : String) (depth : Nat) :
    Metered preflightLimit fun budget => enterExpression doc range noun depth budget := by
  have hnode : Charges preflightLimit (fun budget : PreflightBudget => do
      reject (maxRichEvaluationSteps < budget.2 + 1)
        (PreflightError.expressionNodeLimit (locate doc range))
      return (budget.1, budget.2 + 1)) True (0, 1) := by
    intro used used' hused
    have hstmts : used.1 ≤ preflightLimit.1 := hused.1
    simp only [bind_unit_ok, reject_ok, pure_ok, not_lt, true_and,
      le_def, fst_add, snd_add, add_zero, hstmts]
    refine and_congr Iff.rfl ?_
    rw [eq_comm]
    rfl
  exact guard ⟨_, _, hnode⟩

mutual

theorem validateExpressionShape_metered (range : SourceRange) (depth : Nat) :
    ∀ expr, Metered preflightLimit fun budget =>
      validateExpressionShape doc range depth budget expr
  | .literal v => by
    simp only [validateExpressionShape]
    exact (enterExpression_metered doc range _ depth).seq (guard .pure)
  | .variable name => by
    simp only [validateExpressionShape]
    exact enterExpression_metered doc range _ depth
  | .list vs => by
    simp only [validateExpressionShape]
    exact (enterExpression_metered doc range _ depth).seq
      (guard (validateExpressions_metered range (depth + 1) vs))
  | .record vs => by
    simp only [validateExpressionShape]
    exact (enterExpression_metered doc range _ depth).seq
      (guard (validateEntries_metered range (depth + 1) vs))
  | .collection vs => by
    simp only [validateExpressionShape]
    exact (enterExpression_metered doc range _ depth).seq
      (guard (validateEntries_metered range (depth + 1) vs))
  | .select v _ => by
    simp only [validateExpressionShape]
    exact (enterExpression_metered doc range _ depth).seq
      (validateExpressionShape_metered range (depth + 1) v)
  | .conditional cond thenValue elseValue => by
    simp only [validateExpressionShape]
    exact (enterExpression_metered doc range _ depth).seq
      ((validateConditionShape_metered range (depth + 1) cond).seq
        ((validateExpressionShape_metered range (depth + 1) thenValue).seq
          (validateExpressionShape_metered range (depth + 1) elseValue)))

theorem validateExpressions_metered (range : SourceRange) (depth : Nat) :
    ∀ vs, Metered preflightLimit fun budget =>
      validateExpressions doc range depth budget vs
  | [] => .pure
  | first :: rest => by
    simp only [validateExpressions]
    exact (validateExpressionShape_metered range depth first).seq
      (validateExpressions_metered range depth rest)

theorem validateEntries_metered (range : SourceRange) (depth : Nat) :
    ∀ vs, Metered preflightLimit fun budget =>
      validateEntries doc range depth budget vs
  | [] => .pure
  | (_, first) :: rest => by
    simp only [validateEntries]
    exact (validateExpressionShape_metered range depth first).seq
      (validateEntries_metered range depth rest)

theorem validateConditionShape_metered (range : SourceRange) (depth : Nat) :
    ∀ cond, Metered preflightLimit fun budget =>
      validateConditionShape doc range depth budget cond
  | .boolean v => by
    simp only [validateConditionShape]
    exact (enterExpression_metered doc range _ depth).seq
      (validateExpressionShape_metered range (depth + 1) v)
  | .isSet v => by
    simp only [validateConditionShape]
    exact (enterExpression_metered doc range _ depth).seq
      (validateExpressionShape_metered range (depth + 1) v)
  | .equal left right _ => by
    simp only [validateConditionShape]
    exact (enterExpression_metered doc range _ depth).seq
      ((validateExpressionShape_metered range (depth + 1) left).seq
        (validateExpressionShape_metered range (depth + 1) right))
  | .not cond => by
    simp only [validateConditionShape]
    exact (enterExpression_metered doc range _ depth).seq
      (validateConditionShape_metered range (depth + 1) cond)
  | .all conditions => by
    simp only [validateConditionShape]
    exact (enterExpression_metered doc range _ depth).seq
      (guard (validateConditions_metered range (depth + 1) conditions))
  | .any conditions => by
    simp only [validateConditionShape]
    exact (enterExpression_metered doc range _ depth).seq
      (guard (validateConditions_metered range (depth + 1) conditions))

theorem validateConditions_metered (range : SourceRange) (depth : Nat) :
    ∀ conditions, Metered preflightLimit fun budget =>
      validateConditions doc range depth budget conditions
  | [] => .pure
  | first :: rest => by
    simp only [validateConditions]
    exact (validateConditionShape_metered range depth first).seq
      (validateConditions_metered range depth rest)

end

/-! ## 2. Statements -/

theorem countStatements_metered (noun : String) (count : Nat) :
    Metered preflightLimit fun budget => countStatements noun count budget := by
  refine ⟨True, (count, 0), ?_⟩
  intro used used' hused
  have hnodes : used.2 ≤ preflightLimit.2 := hused.2
  simp only [countStatements, bind_unit_ok, reject_ok, pure_ok, not_lt,
    true_and, le_def, fst_add, snd_add, add_zero, hnodes, and_true]
  refine and_congr Iff.rfl ?_
  rw [eq_comm]
  rfl

theorem enterStatements_metered (depth count : Nat) :
    Metered preflightLimit fun budget => enterStatements depth count budget :=
  guard (countStatements_metered "statement" count)

theorem validatePatchShape_metered (op : PatchOperation) (range : SourceRange) :
    Metered preflightLimit fun budget => validatePatchShape doc op range budget := by
  cases op with
  | set _ v => exact validateExpressionShape_metered doc range 1 v
  | unset _ _ => exact .pure
  | listAppend _ v => exact validateExpressionShape_metered doc range 1 v
  | collectionInsert _ key v =>
    exact (validateExpressionShape_metered doc range 1 key).seq
      (validateExpressionShape_metered doc range 1 v)
  | collectionReplace _ key v =>
    exact (validateExpressionShape_metered doc range 1 key).seq
      (validateExpressionShape_metered doc range 1 v)
  | collectionRemove _ key _ => exact validateExpressionShape_metered doc range 1 key
  | collectionReplaceAll _ vs =>
    exact guard (validateEntries_metered doc range 1 vs)

theorem validatePatchStep_metered (step : PatchStep) :
    Metered preflightLimit fun budget => validatePatchStep doc budget step :=
  guard (validatePatchShape_metered doc step.operation step.range)

mutual

theorem validateStatement_metered (depth : Nat) :
    ∀ stmt, Metered preflightLimit fun budget =>
      validateStatement doc depth budget stmt
  | .emit _ v range => by
    simp only [validateStatement]
    exact guard (validateExpressionShape_metered doc range 1 v)
  | .patch steps => by
    simp only [validateStatement]
    exact (countStatements_metered _ steps.length).seq
      (foldlM fun step _ => validatePatchStep_metered doc step)
  | .compose _ range => by
    simp only [validateStatement]
    exact guard .pure
  | .conditional cond thenStatements elseStatements range => by
    simp only [validateStatement]
    exact guard ((validateConditionShape_metered doc range 1 cond).seq
      ((enterStatements_metered (depth + 1) thenStatements.length).seq
        ((validateStatements_metered (depth + 1) thenStatements).seq
          ((enterStatements_metered (depth + 1) elseStatements.length).seq
            (validateStatements_metered (depth + 1) elseStatements)))))
  | .forEach _ _ iterable stmts range => by
    simp only [validateStatement]
    exact guard ((validateExpressionShape_metered doc range 1 iterable).seq
      ((enterStatements_metered (depth + 1) stmts.length).seq
        (validateStatements_metered (depth + 1) stmts)))
  | .range _ _ _ stmts range => by
    simp only [validateStatement]
    exact guard ((enterStatements_metered (depth + 1) stmts.length).seq
      (validateStatements_metered (depth + 1) stmts))

theorem validateStatements_metered (depth : Nat) :
    ∀ stmts, Metered preflightLimit fun budget =>
      validateStatements doc depth budget stmts
  | [] => .pure
  | first :: rest => by
    simp only [validateStatements]
    exact (validateStatement_metered depth first).seq (validateStatements_metered depth rest)

end

theorem validateStatementRanges_metered (stmts : List RichStatement) (depth : Nat) :
    Metered preflightLimit fun budget =>
      validateStatementRanges doc stmts depth budget :=
  (enterStatements_metered depth stmts.length).seq
    (validateStatements_metered doc depth stmts)

/-! ## 3. Documents -/

theorem validateVariable_metered (declaration : VariableDeclaration) :
    Metered preflightLimit fun budget => validateVariable doc budget declaration := by
  refine guard ?_
  cases declaration.source with
  | computed v => exact validateExpressionShape_metered doc _ 1 v
  | input _ default =>
    cases default with
    | none => exact .pure
    | some v => exact validateExpressionShape_metered doc _ 1 v

/-- **The preflight of a document** has a cost of its own. -/
theorem validateDocumentRanges_metered (doc : CapturedConfigDocument) :
    Metered preflightLimit fun budget => validateDocumentRanges doc budget := by
  refine guard ((foldlM fun decl _ => ?_).seq
    ((foldlM fun decl _ => ?_).seq (validateStatementRanges_metered _ _ 1)))
  · exact validateVariable_metered _ decl
  · exact guard (validateStatementRanges_metered _ decl.statements 1)

end Malm.Config
