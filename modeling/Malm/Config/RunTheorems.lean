/-
Malm.Config.RunTheorems — whole evaluations (`malm-config/src/rich_eval.rs`).

The program collected from accepted documents is valid, and a run of it keeps what `Ready`
says. With the nesting that a valid program can need, an evaluation ends with a result or
with a diagnostic.
-/
import Malm.Config.DiagnosticTheorems
import Malm.Config.ExecutionTheorems
import Malm.Config.IncludeTheorems

namespace Malm.Config

open Pack Malm.Tree Stateful Checks List

variable {additional : List LocatedRichStatement} {budget budget' : PreflightBudget}
  {e id : CapturedDocumentId} {located : LocatedRichStatement} {order : List CapturedDocumentId}

/-! ## 1. The collected program -/

/-- Every literal of a document is within the value limits. -/
structure RichDocumentBody.Valid (body : RichDocumentBody) : Prop where
  sources : ∀ entry ∈ body.variablesByName.entries, entry.2.source.Valid
  fragments : ∀ entry ∈ body.fragmentsByName.entries, StatementsValid entry.2.statements
  statements : StatementsValid body.statements

theorem statementsValid_mem : ∀ {stmts : List RichStatement} {stmt : RichStatement},
    StatementsValid stmts → stmt ∈ stmts → stmt.Valid
  | first :: rest, stmt, hvalid, hmem => by
    rcases mem_cons.1 hmem with rfl | hmem
    · exact hvalid.1
    · exact statementsValid_mem hvalid.2 hmem

theorem validateDocumentRanges_valid {doc : CapturedConfigDocument}
    (h : validateDocumentRanges doc budget = .ok budget') : doc.body.Valid := by
  simp only [validateDocumentRanges, Checks.bind_ok, exists_unit] at h
  obtain ⟨-, first, hsources, snd, hfragments, hstmts⟩ := h
  constructor
  case sources =>
    intro e hentry
    obtain ⟨before, after, hsource⟩ := foldlM_ok_of_mem hsources (mem_map_of_mem hentry)
    exact validateVariable_valid hsource
  case fragments =>
    intro e hentry
    obtain ⟨before, after, hfrag⟩ := foldlM_ok_of_mem hfragments (mem_map_of_mem hentry)
    simp only [validateFragment, Checks.bind_ok, exists_unit] at hfrag
    exact validateStatementRanges_valid hfrag.2
  case statements => exact validateStatementRanges_valid hstmts

theorem collectDeclared_preserves {δ ν : Type} {limit : Nat} {located : RichName → δ → ν}
    {duplicate : RichName → δ → ν → EvaluationError} {tooMany : δ → EvaluationError}
    {good : ν → Prop} {es : List (RichName × δ)} {before after : SortedMap RichName ν}
    (h : es.foldlM (collectDeclared limit located duplicate tooMany) before = .ok after)
    (hentries : ∀ e ∈ es, good (located e.1 e.2))
    (hbefore : ∀ name value, before.get? name = some value → good value) :
    ∀ name value, after.get? name = some value → good value := by
  refine @foldlM_preserves _ _ _ _
    (fun collected => ∀ name value, collected.get? name = some value → good value) _ _ _ h ?_ hbefore
  intro e hentry collected collected' hcollected hstep
  simp only [collectDeclared, Checks.bind_ok, exists_unit, Checks.pure_ok] at hstep
  obtain ⟨-, -, rfl⟩ := hstep
  intro name value hvalue
  rcases SortedMap.of_get?_insert hvalue with ⟨-, rfl⟩ | hvalue
  · exact hentries e hentry
  · exact hcollected name value hvalue

section Documents

variable {documents : TypedDocumentSet}

theorem collectDocument_collected
    (hdocuments : ∀ id doc, documents.documents.get? id = some doc →
      doc.body.Valid) {program program' : CollectedProgram} (hprog : program.Collected)
    (h : collectDocument documents program id = .ok program') :
    program'.Collected := by
  simp only [collectDocument, Checks.bind_ok, require_ok, Checks.pure_ok] at h
  obtain ⟨doc, hdoc, variablesByName, hvariables, fragmentsByName, hfragments, rfl⟩ := h
  have hvalid := hdocuments id doc hdoc
  constructor
  case sources =>
    exact @collectDeclared_preserves _ _ _ _ _ _
      (fun located : LocatedVariable => located.declaration.source.Valid) _ _ _ hvariables
      hvalid.sources hprog.sources
  case fragments =>
    exact @collectDeclared_preserves _ _ _ _ _ _
      (fun located : LocatedFragment => StatementsValid located.declaration.statements) _ _ _
      hfragments hvalid.fragments hprog.fragments
  case statements =>
    intro located hlocated
    rcases mem_append.1 hlocated with hearlier | hnew
    · exact hprog.statements located hearlier
    · obtain ⟨stmt, hstmt, rfl⟩ := mem_map.1 hnew
      exact statementsValid_mem hvalid.statements hstmt

theorem collectProgram_valid
    (hdocuments : ∀ id doc, documents.documents.get? id = some doc →
      doc.body.Valid) {collected : CollectedProgram}
    (h : collectProgram documents order = .ok collected)
    (hadditional : ∀ located ∈ additional, located.statement.Valid) :
    CollectedProgram.Valid { collected with statements := collected.statements ++ additional } := by
  simp only [collectProgram, refuse, Checks.bind_ok, exists_unit, reject_ok,
    Checks.pure_ok, not_lt] at h
  obtain ⟨program, hprog, hfew, -, rfl⟩ := h
  have hcollected : program.Collected := by
    refine foldlM_preserves hprog
      (fun id _ before after hbefore hstep => collectDocument_collected hdocuments hbefore hstep) ?_
    exact ⟨fun name located h => (by cases h), fun name located h => (by cases h),
      fun located h => absurd h not_mem_nil⟩
  refine ⟨⟨hcollected.sources, hcollected.fragments, fun located hlocated => ?_⟩, hfew⟩
  rcases mem_append.1 hlocated with hearlier | hnew
  · exact hcollected.statements located hearlier
  · exact hadditional located hnew

theorem collectDeclared_onlyFails {δ ν : Type} {limit : Nat} {located : RichName → δ → ν}
    {duplicate : RichName → δ → ν → EvaluationError} {tooMany : δ → EvaluationError}
    {es : List (RichName × δ)} {collected : SortedMap RichName ν}
    (hdup : ∀ name v earlier, (duplicate name v earlier).Reported)
    (htooMany : ∀ v, (tooMany v).Reported) :
    OnlyFails Diagnosed
      (es.foldlM (collectDeclared limit located duplicate tooMany) collected) := by
  refine @onlyFails_foldlM _ _ _ _ _ (fun _ => True) _ _ trivial ?_
    fun _ _ _ _ _ _ => trivial
  intro e hentry before _
  refine onlyFails_bind (onlyFails_rejectSome fun earlier _ => ?_) fun _ _ => ?_
  · exact hdup e.1 e.2 earlier
  · exact onlyFails_bind (refuse_onlyFails (htooMany e.2))
      fun _ _ => onlyFails_ok _

theorem collectProgram_onlyFails (horder : ∀ id ∈ order, id ∈ documents.documents.keys) :
    OnlyFails Diagnosed (collectProgram documents order) := by
  refine onlyFails_bind ?_ fun _ _ => ?_
  · refine @onlyFails_foldlM _ _ _ _ _ (fun _ => True) _ _ trivial ?_
      fun _ _ _ _ _ _ => trivial
    intro id hid before _
    obtain ⟨doc, hdoc⟩ := SortedMap.mem_keys.1 (horder id hid)
    refine onlyFails_bind (onlyFails_require fun hnone => ?_) fun _ _ => ?_
    · rw [hdoc] at hnone
      cases hnone
    · refine onlyFails_bind ?_ fun _ _ => onlyFails_bind ?_
        fun _ _ => onlyFails_ok _
      · exact collectDeclared_onlyFails (fun _ _ _ => trivial) fun _ => trivial
      · exact collectDeclared_onlyFails (fun _ _ _ => trivial) fun _ => trivial
  · refine onlyFails_bind (refuse_onlyFails trivial) fun _ _ => ?_
    exact onlyFails_bind (refuse_onlyFails trivial) fun _ _ => onlyFails_ok _

/-! ## 2. Resolution and the result -/

theorem resolveIncludeGraph_onlyFails {captured : CapturedDocumentSet} :
    OnlyFails (fun error => (EvaluationError.resolution error).Reported)
      (resolveIncludeGraph captured e) := by
  refine onlyFails_bind (onlyFails_reject fun _ => trivial) fun _ _ => ?_
  refine onlyFails_bind (onlyFails_reject fun _ => trivial) fun _ hcontains => ?_
  rw [reject_ok, Bool.not_eq_false, SortedMap.contains_iff] at hcontains
  refine onlyFails_bind ?_ fun s hvisit => ?_
  · refine @DepthSearch.visit_onlyFails _ _ _ _ (· ∈ captured.documents.keys) _ _ _
      (fun _ => trivial) (fun _ _ => trivial) ?_ ?_ _ _ _ hcontains
    · intro id s hid
      obtain ⟨doc, hdoc⟩ := SortedMap.mem_keys.1 hid
      refine onlyFails_bind (onlyFails_require fun hnone => ?_) fun _ _ => ?_
      · rw [hdoc] at hnone
        cases hnone
      · exact onlyFails_bind (onlyFails_mapError_of_all fun _ => trivial)
          fun _ _ => onlyFails_ok _
    · intro id edge s _ _
      constructor
      · exact onlyFails_bind (onlyFails_require fun _ => trivial)
          fun _ _ => onlyFails_ok _
      · intro state' hstate
        simp only [includeSearch, followInclude, Checks.bind_ok, require_ok] at hstate
        obtain ⟨t, htarget, -⟩ := hstate
        exact SortedMap.mem_keys.2 ⟨t, htarget⟩
  · refine onlyFails_bind (onlyFails_reject fun hlen => ?_)
      fun _ _ => onlyFails_ok _
    choose allowed cost hcharges using validateDocumentRanges_metered
    have hresolved := (visitDocument_resolved hcharges hvisit).1
    have hkeys : captured.documents.keys.length = captured.documents.entries.length :=
      length_map _
    cases hfound : captured.documents.keys.find? (· ∉ s.complete) with
    | some id => trivial
    | none =>
      -- Every document was visited, so the counts agree.
      rw [find?_eq_none] at hfound
      have hall : captured.documents.keys ⊆ s.complete := fun id hid => by
        simpa using hfound id hid
      have hmore := (captured.documents.nodup_keys.subperm hall).length_le
      have hless := (hresolved.nodup.subperm hresolved.captured_of_mem).length_le
      omega

theorem resolutionFailure_diagnosed {error : IncludeError}
    (h : (EvaluationError.resolution error).Reported) : Diagnosed (resolutionFailure error) := by
  cases error with
  | uncaptured id => exact h.elim
  | _ => exact h

theorem validateAdditional_onlyFails :
    OnlyFails Diagnosed (validateAdditional documents budget located) :=
  onlyFails_bind (onlyFails_require fun _ => trivial) fun _ _ =>
    onlyFails_mapError_of_all fun _ => trivial

theorem validateAdditional_valid (h : validateAdditional documents budget located = .ok budget') :
    located.statement.Valid := by
  simp only [validateAdditional, Checks.bind_ok, mapError_ok] at h
  obtain ⟨doc, -, hvalid⟩ := h
  exact (validateStatementRanges_valid hvalid).1

theorem sourceDocument_onlyFails (hid : id ∈ documents.documents.keys) :
    OnlyFails Diagnosed (sourceDocument documents id) := by
  obtain ⟨doc, hdoc⟩ := SortedMap.mem_keys.1 hid
  refine onlyFails_bind (onlyFails_require fun hnone => ?_) fun found hfound => ?_
  · rw [hdoc] at hnone
    cases hnone
  · rw [require_ok, hdoc] at hfound
    cases hfound
    have hbound := documents.bounded _ (SortedMap.get?_eq_some.1 hdoc)
    have hlen : (saturatingU64 doc.bytes.length).toNat ≤ maxConfigDocumentBytes := by
      unfold saturatingU64
      split
      · rw [UInt64.toNat_ofNat']
        exact (Nat.mod_le _ _).trans hbound
      · next hlarge =>
        unfold maxConfigDocumentBytes at hbound
        simp only at hbound
        omega
    unfold newSourceIdentity
    rw [dif_pos hlen]
    exact onlyFails_bind (onlyFails_ok _) fun _ _ => onlyFails_ok _

theorem finishEvaluation_onlyFails {graph : ResolvedGraph} {s : Evaluator}
    (horder : ∀ id ∈ graph.order, id ∈ documents.documents.keys) :
    OnlyFails Diagnosed (finishEvaluation documents graph s) := by
  refine onlyFails_bind (onlyFails_mapError_of_all fun _ => trivial) fun _ _ => ?_
  refine onlyFails_bind (onlyFails_mapM fun id hid => ?_) fun _ _ => ?_
  · exact sourceDocument_onlyFails (horder id hid)
  · refine onlyFails_bind (onlyFails_mapError_of_all fun _ => trivial) fun _ _ => ?_
    exact onlyFails_bind (onlyFails_ok _) fun _ _ => onlyFails_ok _

/-! ## 3. Evaluations -/

theorem evaluation_ok {supplied : SortedMap RichName TypedValue} {nesting : Nat}
    {r : RichEvaluation}
    (h : evaluateRichConfigWithStatements documents e supplied additional nesting = .ok r) :
    r.document.root = .record r.evaluator.root ∧
      r.document.provenance = r.evaluator.documentProvenance ∧
      r.variablesByName = r.evaluator.resolved ∧
      WithinLimits r.evaluator.root := by
  simp only [evaluateRichConfigWithStatements, finishEvaluation, Checks.bind_ok,
    exists_unit, mapError_ok, Checks.pure_ok] at h
  obtain ⟨graph, -, budget, -, collected, -, ended, -, root, hroot, sources, -, -, diagnostics,
    -, rfl⟩ := h
  have hvalid := newRecord_valid hroot
  simp only [TypedValue.newRecord, Checks.bind_ok, exists_unit, Checks.pure_ok] at hroot
  obtain ⟨-, -, rfl⟩ := hroot
  exact ⟨rfl, rfl, rfl, hvalid⟩

/-- An evaluation with enough nesting ends with a diagnostic or a result. -/
theorem evaluation_meets {e : CapturedDocumentId} {supplied : SortedMap RichName TypedValue}
    {additional : List LocatedRichStatement} {nesting : Nat}
    (hnesting : maxRichVariables < nesting) :
    OnlyFails Diagnosed
        (evaluateRichConfigWithStatements documents e supplied additional nesting) ∧
      ∀ r, evaluateRichConfigWithStatements documents e supplied additional nesting =
        .ok r → ∃ program, Ready program r.evaluator := by
  have hstages : ∀ graph, resolveIncludeGraph documents.toCapturedDocumentSet e = .ok graph →
      ∀ budget, additional.foldlM (validateAdditional documents) graph.preflight = .ok budget →
      ∀ collected, collectProgram documents graph.order = .ok collected →
        (∀ id ∈ graph.order, id ∈ documents.documents.keys) ∧
        CollectedProgram.Valid
          { collected with statements := collected.statements ++ additional } := by
    intro graph hgraph budget hbudget collected hcollected
    obtain ⟨hresolvable, hperm, -⟩ := resolvable_of_ok hgraph
    obtain ⟨total, htotal⟩ := hresolvable.preflight
    refine ⟨fun id hid => hperm.mem_iff.1 hid, collectProgram_valid ?_ hcollected ?_⟩
    · intro id doc hdoc
      obtain ⟨before, after, hvalid⟩ := foldlM_ok_of_mem htotal
        (mem_map_of_mem (SortedMap.get?_eq_some.1 hdoc))
      exact validateDocumentRanges_valid hvalid
    · intro located hlocated
      obtain ⟨before, after, hvalid⟩ := foldlM_ok_of_mem hbudget hlocated
      exact validateAdditional_valid hvalid
  constructor
  · refine onlyFails_bind (onlyFails_mapError fun error herror => ?_)
      fun graph hgraph => ?_
    · exact resolutionFailure_diagnosed (resolveIncludeGraph_onlyFails error herror)
    rw [mapError_ok] at hgraph
    have horder : ∀ id ∈ graph.order, id ∈ documents.documents.keys := fun id hid =>
      (resolvable_of_ok hgraph).2.1.mem_iff.1 hid
    refine onlyFails_bind ?_ fun budget hbudget => ?_
    · exact @onlyFails_foldlM _ _ _ _ _ (fun _ => True) _ _ trivial
        (fun _ _ _ _ => validateAdditional_onlyFails) fun _ _ _ _ _ _ => trivial
    refine onlyFails_bind (collectProgram_onlyFails horder) fun collected hcollected => ?_
    obtain ⟨-, hprog⟩ := hstages graph hgraph budget hbudget collected hcollected
    refine onlyFails_bind ?_ fun _ _ => finishEvaluation_onlyFails horder
    exact (runProgram_meets hprog hnesting Evaluator.new rfl).1
  · intro r h
    simp only [evaluateRichConfigWithStatements, finishEvaluation, Checks.bind_ok,
      exists_unit, mapError_ok, Checks.pure_ok] at h
    obtain ⟨graph, hgraph, budget, hbudget, collected, hcollected, ended, hended, root, -,
      sources, -, -, diagnostics, -, rfl⟩ := h
    obtain ⟨-, hprog⟩ := hstages graph hgraph budget hbudget collected hcollected
    exact ⟨_, ((runProgram_meets hprog hnesting Evaluator.new rfl).2 ended.1 ended.2 hended).1⟩

/-! ## 4. Ends of an evaluation -/

/-- A result within the counters, or one diagnostic that is reported. -/
def Ends (texts : DiagnosticTexts) : Except EvaluationFailure RichEvaluation → Prop
  | .ok result =>
    result.evaluator.history.length ≤ result.evaluator.steps ∧
      result.evaluator.steps ≤ maxRichEvaluationSteps ∧
      result.evaluator.loopIterations ≤ maxRichTotalLoopIterations
  | .error (.diagnostic error) => ∃ reported, reportOne texts error = some [reported]
  | .error (.unexpected _) => False
  | .error .exhausted => False

/-- A step that is charged before anything of it is executed. -/
def ChargedFirst {α : Type} (location : SourceLocation) (step : Evaluation α) : Prop :=
  ∃ rest : Evaluation α, step = Evaluator.charge location >>= fun _ => rest

section Steps

variable (resolve : RichName → Evaluation TypedValue)
  (compose : RichName → Locals → SourceLocation → Evaluation Unit) (locals : Locals)
  (loc : SourceLocation) (doc : CapturedDocumentId)

theorem evalExpression_charged (expr : RichExpression) :
    ChargedFirst loc (evalExpression resolve locals loc expr) := by
  cases expr <;> exact ⟨_, by rw [evalExpression]⟩

theorem evalCondition_charged (cond : RichCondition) :
    ChargedFirst loc (evalCondition resolve locals loc cond) := by
  cases cond <;> exact ⟨_, by rw [evalCondition]⟩

theorem executeStatement_charged (stmt : RichStatement) :
    ChargedFirst ⟨doc, statementRange stmt⟩
      (executeStatement resolve compose doc locals stmt) := by
  cases stmt <;> exact ⟨_, by rw [executeStatement]; rfl⟩

theorem applySteps_charged (index : Nat) (step : PatchStep) (rest : List PatchStep) :
    ChargedFirst ⟨doc, step.range⟩
      (applySteps resolve doc locals index (step :: rest)) :=
  ⟨_, rfl⟩

end Steps

theorem composeFragment_cycle (program : CollectedProgram)
    (resolve : RichName → Evaluation TypedValue) (levels : Nat) (name : RichName)
    (locals : Locals) (loc : SourceLocation) (s : Evaluator)
    (h : name ∈ s.fragmentStack) :
    composeFragment program resolve (levels + 1) name locals loc s =
      .error (.diagnostic (.fragmentCycle name
        (s.fragmentStack.dropWhile (· ≠ name) ++ [name]) loc)) := by
  rw [composeFragment]
  refine bind_error.2 (.inr ⟨s.fragmentStack, s, rfl, bind_of_error ?_⟩)
  rw [refuse, reject, if_pos h]
  rfl

theorem resolveVariable_cycle (program : CollectedProgram)
    (supplied : SortedMap RichName TypedValue) (levels : Nat) (name : RichName)
    (s : Evaluator) (hunresolved : s.resolved.get? name = none)
    (hmark : s.states.get? name = some 1) :
    resolveVariable program supplied (levels + 1) name s =
      .error (.diagnostic (.variableCycle name
        (s.variableStack.dropWhile (· ≠ name) ++ [name]))) := by
  rw [resolveVariable]
  refine bind_error.2 (.inr ⟨none, s, by rw [← hunresolved]; rfl, ?_⟩)
  refine bind_error.2 (.inr ⟨some 1, s, by rw [← hmark]; rfl, ?_⟩)
  exact bind_error.2 (.inr ⟨s.variableStack, s, rfl, bind_of_error rfl⟩)

/-- What is on a stack is not entered again. -/
structure RefusesCycles (program : CollectedProgram) (supplied : SortedMap RichName TypedValue)
    (levels : Nat) : Prop where
  fragments : ∀ resolve name locals loc (state : Evaluator), name ∈ state.fragmentStack →
    ∃ cycle, composeFragment program resolve (levels + 1) name locals loc state =
      .error (.diagnostic (.fragmentCycle name cycle loc))
  resolution : ∀ name (state : Evaluator), state.resolved.get? name = none →
    state.states.get? name = some 1 →
    ∃ cycle, resolveVariable program supplied (levels + 1) name state =
      .error (.diagnostic (.variableCycle name cycle))

/-- **Termination.** With the nesting that a program of the allowed size can need, an evaluation
ends with a result or a diagnostic that can be reported. -/
theorem evaluation_ends (documents : TypedDocumentSet) (entry : CapturedDocumentId)
    (supplied : SortedMap RichName TypedValue) (additional : List LocatedRichStatement)
    (levels : Nat) (texts : DiagnosticTexts) :
    Ends texts (evaluateRichConfigWithStatements documents entry supplied additional
        (maxRichVariables + 1 + levels)) ∧
      (∀ program, RefusesCycles program supplied levels) ∧
      ∀ resolve compose locals loc doc,
        (∀ expression, ChargedFirst loc (evalExpression resolve locals loc expression)) ∧
        (∀ condition, ChargedFirst loc (evalCondition resolve locals loc condition)) ∧
        (∀ statement, ChargedFirst ⟨doc, statementRange statement⟩
          (executeStatement resolve compose doc locals statement)) ∧
        ∀ index step rest, ChargedFirst ⟨doc, step.range⟩
          (applySteps resolve doc locals index (step :: rest)) := by
  refine ⟨?_, fun program => ⟨?_, ?_⟩, fun resolve compose locals loc doc => ?_⟩
  · have hnesting : maxRichVariables < maxRichVariables + 1 + levels := by omega
    obtain ⟨hfails, hends⟩ := @evaluation_meets documents entry supplied additional _ hnesting
    cases hrun : evaluateRichConfigWithStatements documents entry supplied additional
        (maxRichVariables + 1 + levels) with
    | ok result =>
      obtain ⟨program, hready⟩ := hends result hrun
      exact ⟨hready.recorded, hready.steps, hready.loops⟩
    | error failure =>
      have hdiagnosed := hfails failure hrun
      cases failure with
      | diagnostic error => exact reportOne_reports texts hdiagnosed
      | unexpected expectation => exact hdiagnosed
      | exhausted => exact hdiagnosed
  · intro resolve name locals loc state hname
    exact ⟨_, composeFragment_cycle program resolve levels name locals loc state hname⟩
  · intro name state hunresolved hmark
    exact ⟨_, resolveVariable_cycle program supplied levels name state hunresolved hmark⟩
  · exact ⟨evalExpression_charged resolve locals loc,
      evalCondition_charged resolve locals loc,
      executeStatement_charged resolve compose locals doc,
      applySteps_charged resolve locals doc⟩

end Documents

/-! ## 5. A document of statements -/

def statementsId : CapturedDocumentId :=
  ⟨⟨['e', 'v'], by decide⟩, ⟨⟨7⟩, by decide⟩, ⟨['e', 'v'], by decide⟩⟩

/-- An empty document with statements at its first byte. -/
def statementsDocument (statements : List RichStatement) : CapturedConfigDocument where
  id := statementsId
  bytes := []
  digest := ⟨⟨7⟩, by decide⟩
  includes := []
  body := ⟨.empty, .empty, statements⟩

def statementsSet (statements : List RichStatement) : TypedDocumentSet where
  rootAuthority := statementsId.authority
  documents := SortedMap.empty.insert statementsId (statementsDocument statements)
  ids := by
    intro entry hentry
    obtain rfl := List.mem_singleton.1 hentry
    rfl
  declaredType _ _ := .scalar .string
  bounded := by
    intro entry hentry
    obtain rfl := List.mem_singleton.1 hentry
    exact Nat.zero_le _

def statementsKey : RichKey := ⟨['k', 'e', 'y'], by decide⟩

def nestedRecord : Nat → TypedValue
  | 0 => .record []
  | depth + 1 => .record [(statementsKey, nestedRecord depth)]

/-- An entry that is written, changed and removed again. -/
def editStatements : List RichStatement :=
  [.emit statementsKey (.literal (nestedRecord 1)) .synthetic,
    .patch [⟨.set ⟨[statementsKey, statementsKey], by decide, by decide⟩
      (.literal (.boolean true)), .synthetic⟩,
      ⟨.unset (.root statementsKey) true, .synthetic⟩],
    .emit statementsKey (.literal (nestedRecord 2)) .synthetic]

/-- The deepest literal, below the root for as long as one statement. -/
def deepStatements : List RichStatement :=
  [.emit statementsKey (.literal (nestedRecord 63)) .synthetic,
    .patch [⟨.unset (.root statementsKey) false, .synthetic⟩]]

/-! ## 6. Provenance -/

/-- What the provenance of a result says. -/
structure RichEvaluation.Traced (result : RichEvaluation) : Prop where
  /-- Sequence numbers strictly increase in the order in which the records were made. -/
  increasing : result.evaluator.records.Pairwise fun earlier later =>
    earlier.sequence < later.sequence
  /-- Every record is that of a change of the root or that of a variable. -/
  origins : result.evaluator.records.Perm
    (result.evaluator.history.map RootStep.record ++ variableRecords result.variablesByName)
  changes : (result.evaluator.history.map RootStep.record).Sublist result.evaluator.records
  /-- The records at a path are those of changes with this target. -/
  kept : ∀ path records, result.document.provenance.get? path = some records →
    records.Sublist (recordsOf result.evaluator.history path)
  /-- The last writer of a path has the greatest number at or above it. -/
  writers : ∀ path : RichValuePath, (result.document.root.select path.segments).isSome = true →
    ∃ step later, LastWriter ⟨result.evaluator.root, result.document.provenance,
        result.evaluator.history⟩ path.segments step later ∧
      ∀ ancestor records record, result.document.provenance.get? ancestor = some records →
        record ∈ records → ancestor.segments <+: path.segments → record ≠ step.record →
        record.sequence < step.record.sequence

/-- **Limits.** Where every change fits the root before it, every root is within the limits. -/
theorem evaluation_within {documents : TypedDocumentSet} {entry : CapturedDocumentId}
    {supplied : SortedMap RichName TypedValue} {additional : List LocatedRichStatement}
    {levels : Nat} {result : RichEvaluation}
    (h : evaluateRichConfigWithStatements documents entry supplied additional
      (maxRichVariables + 1 + levels) = .ok result)
    (hfits : ∀ step ∈ result.evaluator.history, step.change.Fits step.before) :
    WithinLimits result.evaluator.root ∧
      ∀ step ∈ result.evaluator.history, WithinLimits step.before ∧ WithinLimits step.after := by
  have hnesting : maxRichVariables < maxRichVariables + 1 + levels := by omega
  obtain ⟨program, hready⟩ := (evaluation_meets hnesting).2 result h
  exact reached_within hready.reached hfits

theorem editStatements_within : ∃ result, evaluateRichConfigWithStatements
    (statementsSet editStatements) statementsId .empty [] (maxRichVariables + 1 + 0) =
      .ok result ∧ ∀ step ∈ result.evaluator.history, WithinLimits step.after := by
  obtain ⟨result, hrun, hfits⟩ := okAnd_iff.1
    (show okAnd (evaluateRichConfigWithStatements (statementsSet editStatements)
      statementsId .empty [] (maxRichVariables + 1 + 0))
      (fun result => result.evaluator.history.all fun step => step.change.Fits step.before) = true
      by decide +kernel)
  have hall : ∀ step ∈ result.evaluator.history, step.change.Fits step.before := by
    simpa using hfits
  exact ⟨result, hrun, fun step hstep => ((evaluation_within hrun hall).2 step hstep).2⟩

/-- A statement that is too deep goes unnoticed, as no statement checks the root. -/
theorem deepStatements_exceed : ¬ ∀ documents entry supplied additional levels result,
    evaluateRichConfigWithStatements documents entry supplied additional
      (maxRichVariables + 1 + levels) = .ok result →
    ∀ step ∈ result.evaluator.history, WithinLimits step.after := by
  intro hclaim
  obtain ⟨result, hrun, hexceeds⟩ := okAnd_iff.1
    (show okAnd (evaluateRichConfigWithStatements (statementsSet deepStatements)
      statementsId .empty [] (maxRichVariables + 1 + 0))
      (fun result => result.evaluator.history.any fun step => ¬ WithinLimits step.after) = true
      by decide +kernel)
  obtain ⟨step, hstep, hdeep⟩ := any_eq_true.1 hexceeds
  exact of_decide_eq_true hdeep (hclaim _ _ _ _ _ result hrun step hstep)

end Malm.Config
