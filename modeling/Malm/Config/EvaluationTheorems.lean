/-
Malm.Config.EvaluationTheorems — what a run of the evaluator keeps
(`malm-config/src/rich_eval.rs`).

Every routine is specified from the states that `Ready` describes: it ends in such a
state, or with a diagnostic. The variables without a mark and the room on the stack
bound the nesting, and the root changes only by the changes of `Reached`.
-/
import Malm.Config.PreflightValidity
import Malm.Config.ProvenanceTheorems

namespace Malm.Config

open Pack Stateful Checks List SortedMap Nat Meets Evaluator TypedValue

variable {state : Evaluator} {vs : Entries} {key : RichKey}

variable {record : ProvenanceRecord}

variable {error : EvaluationError} {keeps : Evaluator → Prop}

/-! ## 1. States of a run -/

def Diagnosed : EvaluationFailure → Prop
  | .diagnostic error => error.Reported
  | .unexpected _ => False
  | .exhausted => False

/-- The values of loop bindings are within the value limits. -/
def LocalsValid (locals : Locals) : Prop :=
  ∀ name value, locals.get? name = some value → value.validate = .ok ()

/-- Records in the order of their sequence numbers, with the number of the next one. -/
structure Numbered (records : List ProvenanceRecord) (next : UInt64) : Prop where
  count : next.toNat = records.length
  increasing : records.Pairwise fun earlier later => earlier.sequence < later.sequence
  before_next : ∀ record ∈ records, record.sequence < next

theorem Numbered.append {records : List ProvenanceRecord} {next : UInt64}
    (h : Numbered records next) (hrec : record.sequence = next)
    (hnext : (nextSequence next).toNat = next.toNat + 1) :
    Numbered (records ++ [record]) (nextSequence next) := by
  have hless : next < nextSequence next := UInt64.lt_iff_toNat_lt.2 (by omega)
  constructor
  case count => rw [hnext, h.count, length_append, length_singleton]
  case increasing =>
    refine pairwise_append.2 ⟨h.increasing, pairwise_singleton _ _, ?_⟩
    intro earlier hearlier later hlater
    rw [mem_singleton.1 hlater, hrec]
    exact h.before_next earlier hearlier
  case before_next =>
    intro other hother
    rcases mem_append.1 hother with hearlier | hlast
    · exact UInt64.lt_trans (h.before_next other hearlier) hless
    · rw [mem_singleton.1 hlast, hrec]
      exact hless

def variableRecords (resolved : SortedMap RichName ResolvedVariable) : List ProvenanceRecord :=
  resolved.entries.flatMap fun entry => entry.2.provenance

/-- What holds of the evaluator between two steps. -/
structure Ready (program : CollectedProgram) (state : Evaluator) : Prop where
  values : ∀ name known, state.resolved.get? name = some known → known.value.validate = .ok ()
  marks : ∀ name mark, state.states.get? name = some mark →
    mark = 1 ∨ (state.resolved.get? name).isSome = true
  declared : state.resolved.keys ⊆ program.variablesByName.keys
  stack : state.fragmentStack.length ≤ maxRichValueDepth
  steps : state.steps ≤ maxRichEvaluationSteps
  loops : state.loopIterations ≤ maxRichTotalLoopIterations
  recorded : state.history.length ≤ state.steps
  counted : state.records.length = state.resolved.keys.length + state.history.length
  numbered : Numbered state.records state.sequence
  changes : (state.history.map RootStep.record).Sublist state.records
  origins : state.records.Perm
    (state.history.map RootStep.record ++ variableRecords state.resolved)
  reached : Reached ⟨state.root, state.documentProvenance, state.history⟩

/-- What the evaluation of expressions leaves alone, and what only grows. -/
structure Quiet (start state : Evaluator) : Prop where
  root : state.root = start.root
  provenance : state.documentProvenance = start.documentProvenance
  history : state.history = start.history
  fragmentStack : state.fragmentStack = start.fragmentStack
  steps : start.steps ≤ state.steps
  marked : ∀ name, (start.states.get? name).isSome = true → (state.states.get? name).isSome = true
  pending : ∀ name, start.states.get? name = some 1 → start.resolved.get? name = none →
    state.states.get? name = some 1 ∧ state.resolved.get? name = none

theorem Quiet.refl (state : Evaluator) : Quiet state state :=
  ⟨rfl, rfl, rfl, rfl, le_refl _, fun _ h => h, fun _ hmark hnone => ⟨hmark, hnone⟩⟩

theorem Quiet.trans {first snd third : Evaluator} (h : Quiet first snd)
    (h' : Quiet snd third) : Quiet first third where
  root := h'.root.trans h.root
  provenance := h'.provenance.trans h.provenance
  history := h'.history.trans h.history
  fragmentStack := h'.fragmentStack.trans h.fragmentStack
  steps := h.steps.trans h'.steps
  marked name hname := h'.marked name (h.marked name hname)
  pending name hmark hnone :=
    h'.pending name (h.pending name hmark hnone).1 (h.pending name hmark hnone).2

/-- The variables without a mark. -/
def unmarked (program : CollectedProgram) (state : Evaluator) : Nat :=
  (program.variablesByName.keys.filter fun name => (state.states.get? name).isNone).length

theorem unmarked_le {program : CollectedProgram} {start state : Evaluator}
    (h : ∀ name, (start.states.get? name).isSome = true → (state.states.get? name).isSome = true) :
    unmarked program state ≤ unmarked program start := by
  refine List.Sublist.length_le (monotone_filter_right _ fun name hname => ?_)
  cases hstart : start.states.get? name with
  | none => rfl
  | some mark =>
    have hmarked := h name (by rw [hstart]; rfl)
    rw [Option.isNone_iff_eq_none] at hname
    rw [hname] at hmarked
    cases hmarked

variable {program : CollectedProgram} {start : Evaluator} {cond : Prop}
  {loc : SourceLocation} {value : TypedValue}

theorem unmarked_lt {name : RichName}
    (hdecl : name ∈ program.variablesByName.keys) (hnone : start.states.get? name = none)
    (hmark : state.states = start.states.insert name 1) :
    unmarked program state < unmarked program start := by
  have hsub : (program.variablesByName.keys.filter
      fun other => (state.states.get? other).isNone) ⊆
      ((program.variablesByName.keys.filter
        fun other => (start.states.get? other).isNone).erase name) := by
    intro other hother
    obtain ⟨hkey, hunmarked⟩ := mem_filter.1 hother
    rw [hmark, get?_insert] at hunmarked
    split at hunmarked
    · cases hunmarked
    · next hne => exact (mem_erase_of_ne hne).2 (mem_filter.2 ⟨hkey, hunmarked⟩)
  have hnodup := (nodup_keys program.variablesByName).filter
    (fun other => (state.states.get? other).isNone)
  have hmem : name ∈ program.variablesByName.keys.filter
      fun other => (start.states.get? other).isNone :=
    mem_filter.2 ⟨hdecl, by rw [hnone]; rfl⟩
  have hle := (hnodup.subperm hsub).length_le
  rw [length_erase_of_mem hmem] at hle
  have hpos := length_pos_of_mem hmem
  unfold unmarked
  omega

/-- A state of a run that expressions lead to from another one. -/
def Good (program : CollectedProgram) (start state : Evaluator) : Prop :=
  Ready program state ∧ Quiet start state

/-- A value within the limits, in such a state. -/
def GoodValue (program : CollectedProgram) (start : Evaluator) (value : TypedValue)
    (state : Evaluator) : Prop :=
  value.validate = .ok () ∧ Good program start state

/-! ## 2. Charges -/

theorem refuse_onlyFails [Decidable cond] (h : error.Reported) :
    OnlyFails Diagnosed (refuse cond error) :=
  onlyFails_reject fun _ => h

theorem refuse_meets [Decidable cond] (h : error.Reported) :
    Meets Diagnosed keeps (lift (refuse cond error)) fun _ => keeps :=
  lift (refuse_onlyFails h) fun _ _ _ hs => hs

theorem refuse_limit [Decidable cond] {limit : EvaluationLimit} :
    Meets Diagnosed keeps (lift (refuse cond (.limitExceeded limit loc)))
      fun _ => keeps :=
  refuse_meets trivial

theorem charge_eq (loc : SourceLocation) (state : Evaluator) :
    charge loc state =
      if maxRichEvaluationSteps < state.steps + 1 then
        .error (.diagnostic (.limitExceeded .evaluationSteps loc))
      else .ok ((), { state with steps := state.steps + 1 }) := by
  show (lift (refuse (maxRichEvaluationSteps < state.steps + 1)
    (.limitExceeded .evaluationSteps loc)) : Evaluation Unit)
      { state with steps := state.steps + 1 } = _
  unfold Stateful.lift refuse reject
  split <;> rfl

theorem charge_meets (hready : Ready program state) :
    Meets Diagnosed (· = state) (charge loc) fun _ after =>
      Good program state after ∧ after.history.length < after.steps := by
  rintro before rfl
  rw [charge_eq]
  split
  · refine ⟨fun e he => ?_, fun value after hok => ?_⟩
    · cases he
      trivial
    · cases hok
  · next hsteps =>
    refine ⟨fun e he => (by cases he), fun value after hok => ?_⟩
    cases hok
    have hrecorded := hready.recorded
    refine ⟨⟨{ hready with steps := ?_, recorded := ?_ }, { Quiet.refl before with steps := ?_ }⟩, ?_⟩
    · exact not_lt.1 hsteps
    · exact hrecorded.trans (le_succ _)
    · exact le_succ _
    · exact lt_succ_of_le hrecorded

theorem charge_good :
    Meets Diagnosed (Good program start) (charge loc) fun _ =>
      Good program start :=
  at_each fun _ hstate =>
    (charge_meets hstate.1).weaken (fun _ h => h)
      fun _ _ hafter => ⟨hafter.1.1, hstate.2.trans hafter.1.2⟩

/-! ## 3. Expressions -/

theorem newList_valid {vs : List TypedValue} (h : newList vs = .ok value) :
    value.validate = .ok () := by
  simp only [newList, Checks.bind_ok, exists_unit, Checks.pure_ok] at h
  rw [← h.2.2]
  exact h.2.1

theorem newRecord_valid (h : newRecord vs = .ok value) :
    value.validate = .ok () := by
  simp only [newRecord, Checks.bind_ok, exists_unit, Checks.pure_ok] at h
  rw [← h.2.2]
  exact h.2.1

theorem newCollection_valid (h : newCollection vs = .ok value) :
    value.validate = .ok () := by
  simp only [newCollection, Checks.bind_ok, exists_unit, Checks.pure_ok] at h
  rw [← h.2.2]
  exact h.2.1

theorem evaluatedValue_meets {r : Except RichConfigError TypedValue}
    (h : ∀ value, r = .ok value → value.validate = .ok ()) :
    Meets Diagnosed (Good program start) (lift (evaluatedValue loc r))
      (GoodValue program start) := by
  refine lift (onlyFails_mapError_of_all fun _ => trivial) ?_
  intro value hvalue state hstate
  exact ⟨h value (mapError_ok.1 hvalue), hstate⟩

theorem selectKey_onlyFails :
    OnlyFails Diagnosed (selectKey value key loc) := by
  unfold selectKey
  split
  · exact onlyFails_require fun _ => trivial
  · exact onlyFails_error trivial

theorem selectKey_valid {found : TypedValue} (hvalue : value.validate = .ok ())
    (h : selectKey value key loc = .ok found) : found.validate = .ok () := by
  unfold selectKey at h
  split at h
  · next entries hentries =>
    exact validate_of_lookup hvalue hentries (require_ok.1 h)
  · cases h

theorem conditionValue_onlyFails : OnlyFails Diagnosed (conditionValue value loc) := by
  unfold conditionValue
  split
  · exact onlyFails_ok _
  · exact onlyFails_error trivial

section Expressions

variable {resolve : RichName → Evaluation TypedValue} {locals : Locals}

/-- What is required of the resolution of names below an expression. -/
abbrev Resolves (program : CollectedProgram) (start : Evaluator)
    (resolve : RichName → Evaluation TypedValue) : Prop :=
  ∀ name, Meets Diagnosed (Good program start) (resolve name) (GoodValue program start)

theorem resolveName_meets (hresolve : Resolves program start resolve)
    (hlocals : LocalsValid locals) (name : RichName) :
    Meets Diagnosed (Good program start) (resolveName resolve locals name)
      (GoodValue program start) := by
  unfold resolveName
  split
  · next value hvalue => exact pure fun state hstate => ⟨hlocals name value hvalue, hstate⟩
  · exact hresolve name

mutual

theorem evalExpression_meets (hresolve : Resolves program start resolve)
    (hlocals : LocalsValid locals) :
    ∀ expr : RichExpression, expr.Valid →
      Meets Diagnosed (Good program start) (evalExpression resolve locals loc expr)
        (GoodValue program start)
  | .literal value, hvalid => by
    rw [evalExpression]
    exact charge_good.bind fun _ => pure fun _ hstate => ⟨hvalid, hstate⟩
  | .variable name, _ => by
    rw [evalExpression]
    exact charge_good.bind fun _ => resolveName_meets hresolve hlocals name
  | .list expressions, hvalid => by
    rw [evalExpression]
    refine charge_good.bind fun _ => refuse_limit.bind fun _ => ?_
    refine (evalExpressions_meets hresolve hlocals expressions hvalid).bind fun vs => ?_
    exact evaluatedValue_meets fun _ => newList_valid
  | .record expressions, hvalid => by
    rw [evalExpression]
    refine charge_good.bind fun _ => refuse_limit.bind fun _ => ?_
    refine (evalEntries_meets hresolve hlocals expressions hvalid).bind fun vs => ?_
    exact (evaluatedValue_meets fun _ => newRecord_valid).weaken (fun _ h => h.2) fun _ _ h => h
  | .collection expressions, hvalid => by
    rw [evalExpression]
    refine charge_good.bind fun _ => refuse_limit.bind fun _ => ?_
    refine (evalEntries_meets hresolve hlocals expressions hvalid).bind fun vs => ?_
    exact (evaluatedValue_meets fun _ => newCollection_valid).weaken (fun _ h => h.2)
      fun _ _ h => h
  | .select value key, hvalid => by
    rw [evalExpression]
    refine charge_good.bind fun _ => ?_
    refine (evalExpression_meets hresolve hlocals value hvalid).bind fun found => ?_
    exact lift selectKey_onlyFails fun child hchild state hstate =>
      ⟨selectKey_valid hstate.1 hchild, hstate.2⟩
  | .conditional cond thenValue elseValue, hvalid => by
    rw [evalExpression]
    refine charge_good.bind fun _ => ?_
    refine (evalCondition_meets hresolve hlocals cond hvalid.1).bind fun holds => ?_
    exact ite (fun _ => evalExpression_meets hresolve hlocals thenValue hvalid.2.1)
      fun _ => evalExpression_meets hresolve hlocals elseValue hvalid.2.2

theorem evalExpressions_meets (hresolve : Resolves program start resolve)
    (hlocals : LocalsValid locals) :
    ∀ expressions : List RichExpression, ExpressionsValid expressions →
      Meets Diagnosed (Good program start) (evalExpressions resolve locals loc expressions)
        fun _ => Good program start
  | [], _ => by
    rw [evalExpressions]
    exact pure fun _ hstate => hstate
  | first :: rest, hvalid => by
    rw [evalExpressions]
    refine (evalExpression_meets hresolve hlocals first hvalid.1).bind fun value => ?_
    refine ((evalExpressions_meets hresolve hlocals rest hvalid.2).weaken
      (fun _ h => h.2) fun _ _ h => h).bind fun vs => ?_
    exact pure fun _ hstate => hstate

theorem evalEntries_meets (hresolve : Resolves program start resolve)
    (hlocals : LocalsValid locals) :
    ∀ expressions : List (RichKey × RichExpression), EntriesValid expressions →
      Meets Diagnosed (Good program start) (evalEntries resolve locals loc expressions)
        fun vs state => (vs.length = expressions.length ∧
          TypedValue.EntriesBounded vs) ∧ Good program start state
  | [], _ => by
    rw [evalEntries]
    exact pure fun _ hstate => ⟨⟨rfl, trivial⟩, hstate⟩
  | (key, first) :: rest, hvalid => by
    rw [evalEntries]
    refine (evalExpression_meets hresolve hlocals first hvalid.1).bind fun value => ?_
    refine at_each fun state hstate => ?_
    refine ((evalEntries_meets hresolve hlocals rest hvalid.2).weaken
      (fun other hother => (by rw [hother]; exact hstate.2)) fun _ _ h => h).bind fun vs => ?_
    refine pure fun _ hafter => ⟨⟨?_, ?_⟩, hafter.2⟩
    · rw [length_cons, length_cons, hafter.1.1]
    · exact ⟨(validate_ok.1 hstate.1).1, hafter.1.2⟩

theorem evalCondition_meets (hresolve : Resolves program start resolve)
    (hlocals : LocalsValid locals) :
    ∀ cond : RichCondition, cond.Valid →
      Meets Diagnosed (Good program start) (evalCondition resolve locals loc cond)
        fun _ => Good program start
  | .boolean expr, hvalid => by
    rw [evalCondition]
    refine charge_good.bind fun _ => ?_
    refine (evalExpression_meets hresolve hlocals expr hvalid).bind fun value => ?_
    exact lift conditionValue_onlyFails fun _ _ _ hstate => hstate.2
  | .isSet expr, hvalid => by
    rw [evalCondition]
    refine charge_good.bind fun _ => ?_
    refine (evalExpression_meets hresolve hlocals expr hvalid).bind fun value => ?_
    exact pure fun _ hstate => hstate.2
  | .equal left right negated, hvalid => by
    rw [evalCondition]
    refine charge_good.bind fun _ => ?_
    refine (evalExpression_meets hresolve hlocals left hvalid.1).bind fun leftValue => ?_
    refine ((evalExpression_meets hresolve hlocals right hvalid.2).weaken
      (fun _ h => h.2) fun _ _ h => h).bind fun rightValue => ?_
    exact pure fun _ hstate => hstate.2
  | .not cond, hvalid => by
    rw [evalCondition]
    refine charge_good.bind fun _ => ?_
    refine (evalCondition_meets hresolve hlocals cond hvalid).bind fun holds => ?_
    exact pure fun _ hstate => hstate
  | .all conditions, hvalid => by
    rw [evalCondition]
    refine charge_good.bind fun _ => refuse_limit.bind fun _ => ?_
    exact evalAll_meets hresolve hlocals conditions hvalid
  | .any conditions, hvalid => by
    rw [evalCondition]
    refine charge_good.bind fun _ => refuse_limit.bind fun _ => ?_
    exact evalAny_meets hresolve hlocals conditions hvalid

theorem evalAll_meets (hresolve : Resolves program start resolve) (hlocals : LocalsValid locals) :
    ∀ conditions : List RichCondition, ConditionsValid conditions →
      Meets Diagnosed (Good program start) (evalAll resolve locals loc conditions)
        fun _ => Good program start
  | [], _ => by
    rw [evalAll]
    exact pure fun _ hstate => hstate
  | first :: rest, hvalid => by
    rw [evalAll]
    refine (evalCondition_meets hresolve hlocals first hvalid.1).bind fun holds => ?_
    exact ite (fun _ => evalAll_meets hresolve hlocals rest hvalid.2)
      fun _ => pure fun _ hstate => hstate

theorem evalAny_meets (hresolve : Resolves program start resolve) (hlocals : LocalsValid locals) :
    ∀ conditions : List RichCondition, ConditionsValid conditions →
      Meets Diagnosed (Good program start) (evalAny resolve locals loc conditions)
        fun _ => Good program start
  | [], _ => by
    rw [evalAny]
    exact pure fun _ hstate => hstate
  | first :: rest, hvalid => by
    rw [evalAny]
    refine (evalCondition_meets hresolve hlocals first hvalid.1).bind fun holds => ?_
    exact ite (fun _ => pure fun _ hstate => hstate)
      fun _ => evalAny_meets hresolve hlocals rest hvalid.2

end

end Expressions

/-! ## 4. Variables -/

theorem resolveTypedValue_valid {valueType : TypedValueType} {raw : TypedValue} {optional : Bool}
    (h : resolveTypedValue valueType raw optional = .ok value) (hraw : raw.validate = .ok ()) :
    value.validate = .ok () := by
  unfold resolveTypedValue at h
  split at h
  · split_ifs at h
    cases h
    rfl
  · split at h
    · split_ifs at h
      cases h
      exact hraw
    · simp only [Checks.bind_ok, mapError_ok] at h
      obtain ⟨vs, -, hnew⟩ := h
      exact newList_valid hnew
    · simp only [Checks.bind_ok, mapError_ok] at h
      obtain ⟨vs, -, hnew⟩ := h
      exact newCollection_valid hnew
    · simp only [Checks.bind_ok, exists_unit, mapError_ok] at h
      obtain ⟨-, vs, -, hnew⟩ := h
      exact newRecord_valid hnew
    · cases h

theorem nextSequence_toNat {sequence : UInt64} (h : sequence.toNat < 18446744073709551615) :
    (nextSequence sequence).toNat = sequence.toNat + 1 := by
  unfold nextSequence
  rw [if_neg, UInt64.toNat_add]
  · have hone : (1 : UInt64).toNat = 1 := rfl
    rw [hone]
    omega
  · rintro rfl
    exact absurd h (by decide)

theorem sequence_advances (hprog : program.Valid)
    (hready : Ready program state) :
    (nextSequence state.sequence).toNat = state.sequence.toNat + 1 := by
  refine nextSequence_toNat ?_
  have hkeys := (state.resolved.nodup_keys.subperm hready.declared).length_le
  have hfew := hprog.few
  have hvariables : program.variablesByName.keys.length =
      program.variablesByName.entries.length := length_map _
  have hsteps := hready.steps
  have hrecorded := hready.recorded
  rw [hready.numbered.count, hready.counted]
  unfold maxRichVariables at hfew
  unfold maxRichEvaluationSteps at hsteps
  omega

section Variables

variable {supplied : SortedMap RichName TypedValue}

variable {name : RichName} {state : Evaluator}

theorem rawValue_meets (hsupplied : LocalsValid supplied)
    {eval : RichExpression → Evaluation TypedValue} {src : VariableSource} (hsource : src.Valid)
    (heval : ∀ expr : RichExpression, expr.Valid →
      Meets Diagnosed (Good program start) (eval expr) (GoodValue program start)) :
    Meets Diagnosed (Good program start) (rawValue supplied eval name loc src)
      fun raw => GoodValue program start raw.1 := by
  cases src with
  | computed expr =>
    rw [rawValue]
    exact (heval expr hsource).bind fun value => pure fun _ hstate => hstate
  | input isOptional default =>
    simp only [rawValue]
    split
    · next value hvalue => exact pure fun _ hstate => ⟨hsupplied name value hvalue, hstate⟩
    · cases default with
      | some expr =>
        exact (heval expr (hsource expr rfl)).bind
          fun value => pure fun _ hstate => hstate
      | none =>
        exact ite (fun _ => pure fun _ hstate => ⟨rfl, hstate⟩)
          fun _ => fail fun _ _ => trivial

/-- The state after a variable got its value and its record. -/
def finished (state : Evaluator) (name : RichName) (value : TypedValue)
    (record : ProvenanceRecord) : Evaluator :=
  { state with
    sequence := Evaluator.nextSequence state.sequence
    records := state.records ++ [record]
    variableStack := state.variableStack.dropLast
    states := state.states.insert name 2
    resolved := state.resolved.insert name ⟨value, [record]⟩ }

theorem finished_ready (hprog : program.Valid) (hready : Ready program state)
    (hdecl : name ∈ program.variablesByName.keys) (hunresolved : state.resolved.get? name = none)
    (hvalue : value.validate = .ok ()) (hrec : record.sequence = state.sequence) :
    Ready program (finished state name value record) := by
  refine { hready with
    values := ?_, marks := ?_, declared := ?_, counted := ?_, numbered := ?_, changes := ?_,
    origins := ?_ }
  · intro other found hfound
    rcases SortedMap.of_get?_insert hfound with ⟨-, rfl⟩ | hfound
    · exact hvalue
    · exact hready.values other found hfound
  · intro other mark hmark
    rw [finished, SortedMap.get?_insert] at hmark
    rw [finished, SortedMap.get?_insert]
    split at hmark
    · next hother => exact .inr (by rw [if_pos hother]; rfl)
    · next hother =>
      rw [if_neg hother]
      exact hready.marks other mark hmark
  · intro other hother
    rcases mem_keys_insert.1 hother with rfl | hother
    · exact hdecl
    · exact hready.declared hother
  · have hlen : (state.resolved.insert name ⟨value, [record]⟩).entries.length =
        state.resolved.entries.length + 1 :=
      length_insert_of_notMem (SortedMap.get?_eq_none.1 hunresolved)
    have hcounted := hready.counted
    simp only [finished, SortedMap.keys, length_map, length_append,
      length_singleton] at hcounted hlen ⊢
    omega
  · exact hready.numbered.append hrec (sequence_advances hprog hready)
  · exact hready.changes.trans (sublist_append_left _ _)
  · refine (hready.origins.append_right [record]).trans ?_
    rw [append_assoc]
    have hinsert : (variableRecords (state.resolved.insert name ⟨value, [record]⟩)).Perm
        ([record] ++ variableRecords state.resolved) :=
      (entries_insert_perm (SortedMap.get?_eq_none.1 hunresolved)).flatMap_right _
    exact (perm_append_comm.trans hinsert.symm).append_left _

theorem finished_quiet (hquiet : Quiet start state) (hmark : start.states.get? name ≠ some 1) :
    Quiet start (finished state name value record) := by
  refine { hquiet with marked := ?_, pending := ?_ }
  · intro other hother
    rw [finished, get?_insert]
    split
    · rfl
    · exact hquiet.marked other hother
  · intro other hpend hnone
    have hne : other ≠ name := by
      rintro rfl
      exact hmark hpend
    rw [finished, get?_insert, get?_insert, if_neg hne, if_neg hne]
    exact hquiet.pending other hpend hnone

theorem resolveFresh_meets (hprog : program.Valid) (hsupplied : LocalsValid supplied)
    (hready : Ready program state) (hunresolved : state.resolved.get? name = none)
    {eval : Locals → SourceLocation → RichExpression → Evaluation TypedValue}
    (heval : ∀ marked, unmarked program marked < unmarked program state → ∀ loc,
      ∀ expr : RichExpression, expr.Valid →
        Meets Diagnosed (Good program marked) (eval .empty loc expr)
          (GoodValue program marked)) :
    Meets Diagnosed (· = state) (resolveFresh program supplied eval name)
      (GoodValue program state) := by
  unfold resolveFresh
  refine look_step (look_step ?_)
  refine lift_step (refuse_onlyFails trivial) fun _ hmark => ?_
  refine lift_step (onlyFails_require fun _ => trivial) fun located hlocated => ?_
  rw [refuse, reject_ok] at hmark
  rw [require_ok] at hlocated
  have hdecl : name ∈ program.variablesByName.keys := mem_keys.2 ⟨_, hlocated⟩
  have hnone : state.states.get? name = none := by
    cases hfound : state.states.get? name with
    | none => rfl
    | some mark =>
      rcases hready.marks name mark hfound with rfl | hresolved
      · exact absurd hfound hmark
      · rw [hunresolved] at hresolved
        cases hresolved
  refine update_step ?_
  let marked : Evaluator :=
    { state with
      states := state.states.insert name 1
      variableStack := state.variableStack ++ [name] }
  have hmarkedReady : Ready program marked := by
    refine { hready with marks := ?_ }
    intro other mark hother
    rcases SortedMap.of_get?_insert hother with ⟨-, rfl⟩ | hother
    · exact .inl rfl
    · exact hready.marks other mark hother
  have hmarkedQuiet : Quiet state marked := by
    refine { Quiet.refl state with marked := ?_, pending := ?_ }
    · intro other hother
      rw [get?_insert]
      split
      · rfl
      · exact hother
    · intro other hpend hpendingNone
      rw [get?_insert, if_neg]
      · exact ⟨hpend, hpendingNone⟩
      · rintro rfl
        rw [hnone] at hpend
        cases hpend
  have hless : unmarked program marked < unmarked program state := unmarked_lt hdecl hnone rfl
  have hraw : Meets Diagnosed (Good program marked)
      (rawValue supplied (eval .empty ⟨located.document, located.declaration.range⟩) name
        ⟨located.document, located.declaration.range⟩ located.declaration.source)
      fun raw => GoodValue program marked raw.1 :=
    rawValue_meets hsupplied (hprog.sources name located hlocated)
      (heval marked hless ⟨located.document, located.declaration.range⟩)
  refine (hraw.weaken (fun other hother => (by rw [hother]; exact ⟨hmarkedReady, Quiet.refl _⟩))
    fun _ _ h => h).bind fun raw => ?_
  refine at_each fun after hafter => ?_
  obtain ⟨hrawValid, hafterReady, hafterQuiet⟩ := hafter
  have hpend := hafterQuiet.pending name (by rw [get?_insert, if_pos rfl]) hunresolved
  unfold finishVariable
  refine lift_step (onlyFails_mapError_of_all fun _ => trivial) fun value hvalue => ?_
  rw [mapError_ok, TypedValueType.resolveOptional] at hvalue
  have hvalid := resolveTypedValue_valid hvalue hrawValid
  refine step (a := ⟨after.sequence, _, _, after.frames⟩) rfl ?_
  refine update_step (pure ?_)
  rintro final rfl
  refine ⟨hvalid, finished_ready hprog hafterReady hdecl hpend.2 hvalid rfl, ?_⟩
  exact finished_quiet (hmarkedQuiet.trans hafterQuiet) (by rw [hnone]; simp)

/-- **Variables.** With more levels than variables without a mark, resolution ends: one that is
met again below itself is marked. -/
theorem resolveVariable_meets (hprog : program.Valid) (hsupplied : LocalsValid supplied) :
    ∀ (nesting : Nat) (start : Evaluator), unmarked program start < nesting →
      Resolves program start (resolveVariable program supplied nesting) := by
  intro nesting
  induction nesting with
  | zero => exact fun start hstart => absurd hstart (not_lt_zero _)
  | succ nesting ih =>
    intro start hstart name
    refine at_each fun state hstate => ?_
    obtain ⟨hready, hquiet⟩ := hstate
    rw [resolveVariable]
    refine look_step ?_
    cases hfound : state.resolved.get? name with
    | some known =>
      refine pure fun other hother => ?_
      rw [hother]
      exact ⟨hready.values name known hfound, hready, hquiet⟩
    | none =>
      have hfresh : Meets Diagnosed (· = state)
          (resolveFresh program supplied (evalExpression (resolveVariable program supplied nesting))
            name) (GoodValue program state) := by
        refine resolveFresh_meets hprog hsupplied hready hfound ?_
        intro marked hmarked loc expr hvalid
        have hbound := @unmarked_le program _ _ hquiet.marked
        exact evalExpression_meets (ih marked (by omega))
          (fun other value hother => by cases hother) expr hvalid
      exact hfresh.weaken (fun _ h => h) fun _ _ h => ⟨h.1, h.2.1, hquiet.trans h.2.2⟩

end Variables

end Malm.Config
