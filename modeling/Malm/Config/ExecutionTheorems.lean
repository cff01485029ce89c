/-
Malm.Config.ExecutionTheorems — what the execution of statements keeps
(`malm-config/src/rich_eval.rs`).

Between two statements the evaluator is in a state that `Ready` describes, with the
same fragments on the stack. A statement charges its step first, so there is always a
charged step for the change of the root that it makes.
-/
import Malm.Config.EvaluationTheorems

namespace Malm.Config

open Pack Stateful Checks List Meets Evaluator TypedValue

variable {item : TypedValue × TypedValue} {binding valueBinding : RichName}
  {keyBinding : Option RichName} {supplied : SortedMap RichName TypedValue}

/-! ## 1. Between statements -/

/-- A state between two statements below these fragments. -/
def Level (program : CollectedProgram) (fragments : List RichName) (state : Evaluator) : Prop :=
  Ready program state ∧ state.fragmentStack = fragments

/-- Such a state, with a step that is charged and has changed nothing yet. -/
def Charged (program : CollectedProgram) (fragments : List RichName) (state : Evaluator) : Prop :=
  Level program fragments state ∧ state.history.length < state.steps

variable {program : CollectedProgram} {fragments : List RichName} {loc : SourceLocation}
  {root : Entries} {path : RichValuePath}

theorem statement_charge :
    Meets Diagnosed (Level program fragments) (charge loc) fun _ =>
      Charged program fragments :=
  at_each fun _ hstate =>
    (charge_meets hstate.1).weaken (fun _ h => h) fun _ _ hafter =>
      ⟨⟨hafter.1.1, hafter.1.2.fragmentStack.trans hstate.2⟩, hafter.2⟩

theorem charged_of_good {program : CollectedProgram} {fragments : List RichName} {α : Type}
    {x : Evaluation α} {fact : α → Prop}
    (h : ∀ s, Meets Diagnosed (Good program s) x fun a after =>
      fact a ∧ Good program s after) :
    Meets Diagnosed (Charged program fragments) x fun a after =>
      fact a ∧ Charged program fragments after := by
  refine at_each fun s hstate => ?_
  obtain ⟨⟨hready, hfragments⟩, hcharged⟩ := hstate
  refine (h s).weaken ?_ ?_
  · rintro start rfl
    exact ⟨hready, Quiet.refl start⟩
  · rintro a after ⟨hfact, hafter, hquiet⟩
    refine ⟨hfact, ⟨hafter, hquiet.fragmentStack.trans hfragments⟩, ?_⟩
    rw [hquiet.history]
    exact hcharged.trans_le hquiet.steps

theorem charged_level {α : Type} {x : Evaluation α} {after : α → Evaluator → Prop}
    (h : Meets Diagnosed (Level program fragments) x after) :
    Meets Diagnosed (Charged program fragments) x after :=
  h.weaken (fun _ hs => hs.1) fun _ _ hs => hs

theorem pushFrame_meets {frame : EvaluationFrame} :
    Meets Diagnosed (Level program fragments) (pushFrame frame) fun _ =>
      Level program fragments :=
  update fun _ hstate => ⟨{ hstate.1 with }, hstate.2⟩

theorem popFrame_meets :
    Meets Diagnosed (Level program fragments) popFrame fun _ =>
      Level program fragments :=
  update fun _ hstate => ⟨{ hstate.1 with }, hstate.2⟩

theorem chargeLoop_meets {count : Nat} :
    Meets Diagnosed (Level program fragments) (chargeLoop count loc) fun _ =>
      Level program fragments := by
  refine at_each fun s hstate => ?_
  unfold chargeLoop
  refine lift_step (refuse_onlyFails trivial) fun _ _ => update_step ?_
  refine look_step (lift (refuse_onlyFails trivial) fun _ hroom => ?_)
  rintro after rfl
  rw [refuse, reject_ok] at hroom
  exact ⟨{ hstate.1 with loops := not_lt.1 hroom }, hstate.2⟩

/-! ## 2. Changes of the root -/

def PatchError.Refused : PatchError → Prop
  | unexpected _ => False
  | _ => True

theorem patchFailure_diagnosed {error : PatchError} (h : error.Refused) :
    Diagnosed (patchFailure loc error) := by
  cases error with
  | unexpected text => exact absurd h (by simp [PatchError.Refused])
  | _ => trivial

theorem parentOf_onlyFails : OnlyFails PatchError.Refused (parentOf root path) := by
  unfold parentOf
  split
  · next hnone => exact absurd (getLast?_eq_none_iff.1 hnone) path.nonempty
  · split
    · exact onlyFails_ok _
    · next hne =>
      have hbound : path.segments.dropLast.length ≤ maxRichValueDepth := by
        rw [length_dropLast]
        exact (Nat.sub_le _ _).trans path.bounded
      unfold RichValuePath.new
      rw [dif_neg hne, dif_pos hbound]
      split
      · next herror => cases herror
      · split
        · exact onlyFails_error trivial
        · exact onlyFails_ok _
        · exact onlyFails_error trivial

theorem collectionAt_onlyFails : OnlyFails PatchError.Refused (collectionAt root path) := by
  unfold collectionAt
  split
  · exact onlyFails_error trivial
  · exact onlyFails_ok _
  · exact onlyFails_error trivial

theorem listAt_onlyFails : OnlyFails PatchError.Refused (listAt root path) := by
  unfold listAt
  split
  · exact onlyFails_error trivial
  · exact onlyFails_ok _
  · exact onlyFails_error trivial

theorem apply_onlyFails (change : RootChange) :
    OnlyFails PatchError.Refused (change.apply root) := by
  have hreject {cond : Prop} [Decidable cond] {error : PatchError}
      (h : error.Refused) :
      OnlyFails PatchError.Refused (reject cond error) :=
    onlyFails_reject fun _ => h
  cases change with
  | emit key v => exact onlyFails_ok _
  | set path v =>
    exact onlyFails_bind parentOf_onlyFails fun _ _ => onlyFails_ok _
  | unset path isOptional =>
    refine onlyFails_bind ?_ fun _ _ => ?_
    · exact onlyFails_bind parentOf_onlyFails fun _ _ => onlyFails_ok _
    · exact onlyFails_bind (hreject trivial) fun _ _ => onlyFails_ok _
  | listAppend path v =>
    refine onlyFails_bind listAt_onlyFails fun _ _ => ?_
    exact onlyFails_bind (hreject trivial) fun _ _ => onlyFails_ok _
  | collectionInsert path key v =>
    refine onlyFails_bind collectionAt_onlyFails fun _ _ => ?_
    refine onlyFails_bind (hreject trivial) fun _ _ => ?_
    exact onlyFails_bind (hreject trivial) fun _ _ => onlyFails_ok _
  | collectionReplace path key v =>
    refine onlyFails_bind collectionAt_onlyFails fun _ _ => ?_
    exact onlyFails_bind (hreject trivial) fun _ _ => onlyFails_ok _
  | collectionRemove path key isOptional =>
    refine onlyFails_bind collectionAt_onlyFails fun _ _ => ?_
    exact onlyFails_bind (hreject trivial) fun _ _ => onlyFails_ok _
  | collectionReplaceAll path vs =>
    exact onlyFails_bind collectionAt_onlyFails fun _ _ => onlyFails_ok _

theorem target_onlyFails (change : RootChange) : OnlyFails PatchError.Refused change.target := by
  cases change with
  | collectionInsert path key v => exact onlyFails_mapError_of_all fun _ => trivial
  | collectionReplace path key v => exact onlyFails_mapError_of_all fun _ => trivial
  | collectionRemove path key isOptional =>
    exact onlyFails_mapError_of_all fun _ => trivial
  | _ => exact onlyFails_ok _

theorem changeRoot_meets (hprog : program.Valid) {change : RootChange}
    {op : ProvenanceOperation} (hbounded : change.OperandsBounded) :
    Meets Diagnosed (Charged program fragments)
      (changeRoot change loc op) fun _ => Level program fragments := by
  refine at_each fun s hstate => ?_
  obtain ⟨⟨hready, hfragments⟩, hcharged⟩ := hstate
  unfold changeRoot
  refine look_step ?_
  refine lift_step (onlyFails_mapError fun error herror =>
    patchFailure_diagnosed (apply_onlyFails change error herror)) fun after hafter => ?_
  refine lift_step (onlyFails_mapError fun error herror =>
    patchFailure_diagnosed (target_onlyFails change error herror)) fun t htarget => ?_
  rw [mapError_ok] at hafter htarget
  refine update_step ?_
  let record : ProvenanceRecord := ⟨s.sequence, loc, op, s.frames⟩
  let recorded : Evaluator :=
    { s with
      root := after
      documentProvenance := addRecord
        (dropBelow change t s.documentProvenance) t record
      sequence := nextSequence s.sequence
      records := s.records ++ [record] }
  have hrec : Meets Diagnosed
      (· = { s with
        root := after
        documentProvenance := dropBelow change t s.documentProvenance })
      (addDocumentProvenance t loc op) fun written now =>
        written = record ∧ now = recorded := by
    unfold addDocumentProvenance provenanceRecord
    refine look_step (lift_step (refuse_onlyFails trivial) fun _ _ => ?_)
    refine step rfl (update_step (pure ?_))
    rintro now rfl
    exact ⟨rfl, rfl⟩
  refine hrec.bind fun written => given ?_
  rintro rfl
  refine update ?_
  rintro now rfl
  refine ⟨{ hready with
    recorded := ?_, counted := ?_, numbered := ?_, changes := ?_, origins := ?_,
    reached := ?_ }, hfragments⟩
  · rw [length_append, length_singleton]
    exact hcharged
  · have hcounted := hready.counted
    simp only [recorded, length_append, length_singleton]
    omega
  · exact hready.numbered.append rfl (sequence_advances hprog hready)
  · simp only [map_append, map_singleton]
    exact hready.changes.append (List.Sublist.refl _)
  · refine (hready.origins.append_right [record]).trans ?_
    simp only [map_append, map_singleton, append_assoc]
    exact perm_append_comm.append_left _
  · refine hready.reached.step hbounded hafter htarget fun earlier hearlier => ?_
    exact hready.numbered.before_next _ (hready.changes.subset (mem_map_of_mem hearlier))

/-! ## 3. Operands and loops -/

section Operands

variable {program : CollectedProgram} {fragments : List RichName}
  {resolve : RichName → Evaluation TypedValue} {locals : Locals} {loc : SourceLocation}

section

variable (hresolve : ∀ start, Resolves program start resolve) (hlocals : LocalsValid locals)
include hresolve hlocals

theorem expression_charged {expr : RichExpression} (hvalid : expr.Valid) :
    Meets Diagnosed (Charged program fragments)
      (evalExpression resolve locals loc expr) fun v state =>
        v.validate = .ok () ∧ Charged program fragments state :=
  charged_of_good fun state =>
    (evalExpression_meets (hresolve state) hlocals expr hvalid).weaken (fun _ h => h)
      fun _ _ h => h

theorem condition_charged {cond : RichCondition} (hvalid : cond.Valid) :
    Meets Diagnosed (Charged program fragments)
      (evalCondition resolve locals loc cond) fun _ => Level program fragments :=
  (@charged_of_good program fragments Bool _ (fun _ => True) fun s =>
    (evalCondition_meets (hresolve s) hlocals cond hvalid).weaken (fun _ h => h)
      fun _ _ h => ⟨trivial, h⟩).weaken (fun _ h => h) fun _ _ h => h.2.1

end

theorem collectionKey_onlyFails {v : TypedValue} :
    OnlyFails Diagnosed (collectionKey v loc) := by
  unfold collectionKey
  split
  · exact onlyFails_mapError_of_all fun _ => trivial
  · exact onlyFails_error trivial

theorem key_charged (hresolve : ∀ start, Resolves program start resolve)
    (hlocals : LocalsValid locals) {expr : RichExpression} (hvalid : expr.Valid) :
    Meets Diagnosed (Charged program fragments)
      (evalCollectionKey resolve locals loc expr) fun _ =>
        Charged program fragments :=
  (expression_charged hresolve hlocals hvalid).bind fun _ =>
    lift collectionKey_onlyFails fun _ _ _ hstate => hstate.2

end Operands

theorem string_valid {text : Text} (h : text.byteLen ≤ maxRichTextBytes) :
    (string text).validate = .ok () := by
  refine validate_ok.2 ⟨h, ?_, ?_⟩
  · simp [height, maxRichValueDepth]
  · simp [size, maxRichTotalValues]

variable {v : TypedValue} {loc : SourceLocation} {locals : Locals} {start : Int64}
  {iteration : Nat}

theorem loopItems_onlyFails : OnlyFails Diagnosed (loopItems v loc) := by
  unfold loopItems
  split
  · exact onlyFails_ok _
  · refine onlyFails_mapM fun e _ => ?_
    exact onlyFails_bind (onlyFails_mapError_of_all fun _ => trivial)
      fun _ _ => onlyFails_ok _
  · exact onlyFails_error trivial

theorem loopItems_valid {items : List (TypedValue × TypedValue)}
    (hvalue : v.validate = .ok ()) (h : loopItems v loc = .ok items) :
    ∀ item ∈ items, item.1.validate = .ok () ∧ item.2.validate = .ok () := by
  unfold loopItems at h
  split at h
  · cases h
    intro item hitem
    obtain ⟨indexed, hindexed, rfl⟩ := mem_map.1 hitem
    exact ⟨rfl, validate_of_item hvalue (fst_mem_of_mem_zipIdx hindexed)⟩
  · intro item hitem
    obtain ⟨e, hentry, hmapped⟩ := exists_left_of_forall₂ (mapM_forall₂ h) hitem
    simp only [checkRichLimit, Checks.bind_ok, exists_unit, mapError_ok,
      reject_ok, Checks.pure_ok] at hmapped
    obtain ⟨hlimit, rfl⟩ := hmapped
    exact ⟨string_valid (not_lt.1 hlimit), validate_of_entry hvalue hentry⟩
  · cases h

theorem localsValid_insert (hlocals : LocalsValid locals) {name : RichName}
    (hvalue : v.validate = .ok ()) : LocalsValid (locals.insert name v) := by
  intro other found hfound
  rcases SortedMap.of_get?_insert hfound with ⟨-, rfl⟩ | hfound
  · exact hvalue
  · exact hlocals other found hfound

theorem iterationLocals_onlyFails :
    OnlyFails Diagnosed
      (iterationLocals locals valueBinding keyBinding item loc) :=
  onlyFails_bind (refuse_onlyFails trivial) fun _ _ => onlyFails_ok _

theorem iterationLocals_valid {bound : Locals} (hlocals : LocalsValid locals)
    (hitem : item.1.validate = .ok () ∧ item.2.validate = .ok ())
    (h : iterationLocals locals valueBinding keyBinding item loc = .ok bound) :
    LocalsValid bound := by
  simp only [iterationLocals, Checks.bind_ok, exists_unit, Checks.pure_ok] at h
  rw [← h.2]
  have hvalue : LocalsValid (locals.insert valueBinding item.2) :=
    localsValid_insert hlocals hitem.2
  cases keyBinding with
  | none => exact hvalue
  | some name => exact localsValid_insert hvalue hitem.1

section

variable {through : Int64} (horder : ¬ through < start) (h : iteration < rangeCount start through)
include horder h

theorem rangeCount_bounds :
    iteration < 18446744073709551616 ∧ start.toInt + iteration ≤ through.toInt := by
  have hle := Int64.le_iff_toInt_le.1 (Int64.not_lt.1 horder)
  have hstart := start.le_toInt
  have hthrough := through.toInt_lt
  unfold rangeCount at h
  simp only at h
  split at h
  · omega
  · omega

theorem rangeLocals_onlyFails :
    OnlyFails Diagnosed (rangeLocals locals binding start iteration loc) := by
  obtain ⟨hcount, hthrough⟩ := rangeCount_bounds horder h
  have hstart := start.le_toInt
  have hlast := through.toInt_lt
  refine onlyFails_bind (refuse_onlyFails trivial) fun _ _ => ?_
  refine onlyFails_bind ?_ fun _ _ => onlyFails_ok _
  refine onlyFails_bind (onlyFails_reject fun hwide => ?_) fun _ _ => ?_
  · omega
  · refine onlyFails_bind (onlyFails_reject fun hwide => ?_)
      fun _ _ => onlyFails_ok _
    omega

end

theorem rangeLocals_valid {bound : Locals} (hlocals : LocalsValid locals)
    (h : rangeLocals locals binding start iteration loc = .ok bound) : LocalsValid bound := by
  simp only [rangeLocals, Checks.bind_ok, exists_unit, Checks.pure_ok] at h
  obtain ⟨-, v, -, rfl⟩ := h
  exact localsValid_insert hlocals rfl

/-! ## 4. Statements -/

section Statements

variable {program : CollectedProgram} {resolve : RichName → Evaluation TypedValue}
  {fragments : List RichName} {doc : CapturedDocumentId}

theorem applyPatch_meets (hprog : program.Valid)
    (hresolve : ∀ start, Resolves program start resolve) (hlocals : LocalsValid locals)
    {index : UInt32} {op : PatchOperation} (hvalid : op.Valid) :
    Meets Diagnosed (Charged program fragments)
      (applyPatch resolve locals loc index op) fun _ => Level program fragments := by
  have hchange {change : RootChange} (hbounded : change.OperandsBounded) :
      Meets Diagnosed (Charged program fragments)
        (changeRoot change loc (.patch index)) fun _ => Level program fragments :=
    changeRoot_meets hprog hbounded
  cases op with
  | set path v =>
    refine (expression_charged hresolve hlocals hvalid).bind fun found => ?_
    exact given fun hfound => hchange (validate_ok.1 hfound).1
  | unset path isOptional => exact hchange trivial
  | listAppend path v =>
    refine (expression_charged hresolve hlocals hvalid).bind fun found => ?_
    exact given fun hfound => hchange (validate_ok.1 hfound).1
  | collectionInsert path key v =>
    refine (key_charged hresolve hlocals hvalid.1).bind fun key => ?_
    refine (expression_charged hresolve hlocals hvalid.2).bind fun found => ?_
    exact given fun hfound => hchange (validate_ok.1 hfound).1
  | collectionReplace path key v =>
    refine (key_charged hresolve hlocals hvalid.1).bind fun key => ?_
    refine (expression_charged hresolve hlocals hvalid.2).bind fun found => ?_
    exact given fun hfound => hchange (validate_ok.1 hfound).1
  | collectionRemove path key isOptional =>
    exact (key_charged hresolve hlocals hvalid).bind fun key => hchange trivial
  | collectionReplaceAll path vs =>
    refine at_each fun s hstate => ?_
    refine lift_step (refuse_onlyFails trivial) fun _ hroom => ?_
    rw [refuse, reject_ok] at hroom
    have hentries : Meets Diagnosed (Charged program fragments)
        (evalEntries resolve locals loc vs) _ :=
      charged_of_good fun start => evalEntries_meets (hresolve start) hlocals vs hvalid
    refine (hentries.bind fun found => ?_).weaken
      (fun other hother => (by rw [hother]; exact hstate)) fun _ _ h => h
    refine given fun hfound => hchange ⟨?_, hfound.2⟩
    rw [hfound.1]
    exact not_lt.1 hroom

theorem applySteps_meets (hprog : program.Valid)
    (hresolve : ∀ start, Resolves program start resolve) {locals : Locals}
    (hlocals : LocalsValid locals) :
    ∀ {steps : List PatchStep} {index : Nat}, (∀ step ∈ steps, step.operation.Valid) →
      Meets Diagnosed (Level program fragments)
        (applySteps resolve doc locals index steps) fun _ => Level program fragments
  | [], _, _ => pure fun _ hstate => hstate
  | step :: rest, index, hvalid => by
    refine statement_charge.bind fun _ => ?_
    refine (applyPatch_meets hprog hresolve hlocals
      (hvalid step mem_cons_self)).bind fun _ => ?_
    exact applySteps_meets hprog hresolve hlocals fun other hother =>
      hvalid other (mem_cons_of_mem _ hother)

theorem executeEmit_meets (hprog : program.Valid)
    (hresolve : ∀ start, Resolves program start resolve) (hlocals : LocalsValid locals)
    {key : RichKey} {v : RichExpression} (hvalid : v.Valid) :
    Meets Diagnosed (Charged program fragments)
      (executeEmit resolve locals loc key v) fun _ => Level program fragments := by
  refine at_each fun s hstate => look_step ?_
  refine lift_step (refuse_onlyFails trivial) fun _ _ => ?_
  refine ((expression_charged hresolve hlocals hvalid).bind fun found => ?_).weaken
    (fun other hother => (by rw [hother]; exact hstate)) fun _ _ h => h
  exact given fun hfound =>
    changeRoot_meets hprog (validate_ok.1 hfound).1

/-- What is required of the composition of fragments below a statement. -/
abbrev Composes (program : CollectedProgram) (fragments : List RichName)
    (compose : RichName → Locals → SourceLocation → Evaluation Unit) : Prop :=
  ∀ name locals loc, LocalsValid locals →
    Meets Diagnosed (Level program fragments) (compose name locals loc) fun _ =>
      Level program fragments

variable {compose : RichName → Locals → SourceLocation → Evaluation Unit}

mutual

theorem executeStatement_meets (hprog : program.Valid)
    (hresolve : ∀ start, Resolves program start resolve)
    (hcompose : Composes program fragments compose) :
    ∀ (stmt : RichStatement) {locals : Locals}, LocalsValid locals → stmt.Valid →
      Meets Diagnosed (Level program fragments)
        (executeStatement resolve compose doc locals stmt) fun _ =>
          Level program fragments
  | .emit key v range, locals, hlocals, hvalid => by
    rw [executeStatement]
    exact statement_charge.bind fun _ => executeEmit_meets hprog hresolve hlocals hvalid
  | .patch steps, locals, hlocals, hvalid => by
    rw [executeStatement]
    refine statement_charge.bind fun _ => charged_level ?_
    exact applySteps_meets hprog hresolve hlocals hvalid
  | .compose frag range, locals, hlocals, hvalid => by
    rw [executeStatement]
    exact statement_charge.bind fun _ => charged_level (hcompose _ _ _ hlocals)
  | .conditional cond thenStatements elseStatements range, locals, hlocals, hvalid => by
    rw [executeStatement]
    refine statement_charge.bind fun _ => ?_
    refine (condition_charged hresolve hlocals hvalid.1).bind fun holds => ?_
    refine pushFrame_meets.bind fun _ => ?_
    refine (Meets.ite (fun _ => ?_) fun _ => ?_).bind fun _ => popFrame_meets
    · exact executeStatements_meets hprog hresolve hcompose thenStatements hlocals hvalid.2.1
    · exact executeStatements_meets hprog hresolve hcompose elseStatements hlocals hvalid.2.2
  | .forEach valueBinding keyBinding iterable stmts range, locals, hlocals, hvalid => by
    rw [executeStatement]
    refine statement_charge.bind fun _ => (refuse_meets (by trivial)).bind fun _ => ?_
    refine (expression_charged hresolve hlocals hvalid.1).bind fun found => ?_
    refine given fun hfound => at_each fun s hstate => ?_
    refine lift_step loopItems_onlyFails fun items hitems => ?_
    have hvalues := loopItems_valid hfound hitems
    refine (chargeLoop_meets.bind fun _ => forM fun item hitem => ?_).weaken
      (fun other hother => (by rw [hother]; exact hstate.1)) fun _ _ h => h
    refine at_each fun between hbetween => ?_
    refine lift_step iterationLocals_onlyFails fun bound hbound => ?_
    have hboundValid := iterationLocals_valid hlocals
      (hvalues item.1 (fst_mem_of_mem_zipIdx hitem)) hbound
    refine (pushFrame_meets.bind fun _ => ?_).weaken
      (fun other hother => (by rw [hother]; exact hbetween)) fun _ _ h => h
    refine bind ?_ fun _ => popFrame_meets
    exact executeStatements_meets hprog hresolve hcompose stmts hboundValid hvalid.2
  | .range binding start through stmts range, locals, hlocals, hvalid => by
    rw [executeStatement]
    refine statement_charge.bind fun _ => charged_level ?_
    refine at_each fun s hstate => ?_
    refine lift_step (refuse_onlyFails trivial) fun _ horder => ?_
    rw [refuse, reject_ok] at horder
    refine (chargeLoop_meets.bind fun _ => forM fun iteration hiteration => ?_).weaken
      (fun other hother => (by rw [hother]; exact hstate)) fun _ _ h => h
    refine at_each fun between hbetween => ?_
    refine lift_step (rangeLocals_onlyFails horder (mem_range.1 hiteration))
      fun bound hbound => ?_
    refine (pushFrame_meets.bind fun _ => ?_).weaken
      (fun other hother => (by rw [hother]; exact hbetween)) fun _ _ h => h
    refine bind ?_ fun _ => popFrame_meets
    exact executeStatements_meets hprog hresolve hcompose stmts
      (rangeLocals_valid hlocals hbound) hvalid

theorem executeStatements_meets (hprog : program.Valid)
    (hresolve : ∀ start, Resolves program start resolve)
    (hcompose : Composes program fragments compose) :
    ∀ (stmts : List RichStatement) {locals : Locals}, LocalsValid locals →
      StatementsValid stmts →
      Meets Diagnosed (Level program fragments)
        (executeStatements resolve compose doc locals stmts) fun _ =>
          Level program fragments
  | [], locals, _, _ => by
    rw [executeStatements]
    exact pure fun _ hstate => hstate
  | first :: rest, locals, hlocals, hvalid => by
    rw [executeStatements]
    have hfirst := executeStatement_meets hprog hresolve hcompose first hlocals hvalid.1
    refine hfirst.bind fun _ => ?_
    exact executeStatements_meets hprog hresolve hcompose rest hlocals hvalid.2

end

end Statements

/-! ## 5. Fragments -/

variable {program : CollectedProgram}

/-- **Fragments.** The stack holds at most 64, so with the levels above that composition ends. -/
theorem composeFragment_meets (hprog : program.Valid)
    {resolve : RichName → Evaluation TypedValue}
    (hresolve : ∀ start, Resolves program start resolve) :
    ∀ (nesting : Nat) (fragments : List RichName),
      maxRichValueDepth < nesting + fragments.length →
      Composes program fragments (composeFragment program resolve nesting) := by
  intro nesting
  induction nesting with
  | zero =>
    intro fragments hroom name locals loc _
    refine fail fun s hstate => ?_
    have hstack := hstate.1.stack
    rw [hstate.2] at hstack
    omega
  | succ nesting ih =>
    intro fragments hroom name locals loc hlocals
    rw [composeFragment]
    refine at_each fun s hstate => look_step ?_
    rw [hstate.2]
    refine lift_step (refuse_onlyFails trivial) fun _ _ => ?_
    refine lift_step (refuse_onlyFails trivial) fun _ hdepth => ?_
    refine lift_step (onlyFails_require fun _ => trivial) fun frag hfrag => ?_
    rw [refuse, reject_ok] at hdepth
    rw [require_ok] at hfrag
    have hlen : (fragments ++ [name]).length = fragments.length + 1 := length_append
    have hinside := @executeStatements_meets program resolve (fragments ++ [name])
      frag.document _ hprog hresolve (ih (fragments ++ [name]) (by omega))
      frag.declaration.statements locals hlocals (hprog.fragments name frag hfrag)
    have hleave : Meets Diagnosed (Level program (fragments ++ [name]))
        (update fun s : Evaluator =>
          { s with fragmentStack := s.fragmentStack.dropLast })
        fun _ => Level program fragments := by
      refine update fun ended hended => ⟨{ hended.1 with stack := ?_ }, ?_⟩
      · show ended.fragmentStack.dropLast.length ≤ maxRichValueDepth
        rw [hended.2, dropLast_concat]
        omega
      · rw [hended.2, dropLast_concat]
    have hrest := hinside.bind fun _ => popFrame_meets.bind fun _ => hleave
    refine update_step ((pushFrame_meets.bind fun _ => hrest).weaken ?_ fun _ _ h => h)
    rintro entered rfl
    refine ⟨{ hstate.1 with stack := ?_ }, ?_⟩
    · rw [hstate.2, hlen]
      omega
    · rw [hstate.2]

/-! ## 6. Programs -/

theorem checkSupplied_onlyFails {e : RichName × TypedValue} :
    OnlyFails Diagnosed (checkSupplied program e) := by
  refine onlyFails_bind (onlyFails_require fun _ => trivial) fun _ _ => ?_
  refine onlyFails_bind (refuse_onlyFails trivial) fun _ _ => ?_
  exact onlyFails_mapError_of_all fun _ => trivial

theorem checkSupplied_valid (h : supplied.entries.forM (checkSupplied program) = .ok ()) :
    LocalsValid supplied := by
  intro name v hvalue
  rw [forM_ok] at h
  have hchecked := h (name, v) (SortedMap.get?_eq_some.1 hvalue)
  simp only [checkSupplied, Checks.bind_ok, exists_unit, mapError_ok] at hchecked
  obtain ⟨located, -, -, hvalid⟩ := hchecked
  exact hvalid

theorem start_ready : Ready program new where
  values _ _ h := by cases h
  marks _ _ h := by cases h
  declared := nil_subset _
  stack := Nat.zero_le _
  steps := Nat.zero_le _
  loops := Nat.zero_le _
  recorded := le_refl _
  counted := rfl
  numbered := ⟨rfl, .nil, fun _ h => absurd h not_mem_nil⟩
  changes := List.Sublist.refl _
  origins := List.Perm.refl _
  reached := .start

/-- **A run** ends with a diagnostic or in a state that `Ready` describes. -/
theorem runProgram_meets (hprog : program.Valid) {nesting : Nat}
    (hnesting : maxRichVariables < nesting) :
    Meets Diagnosed (· = new) (runProgram program supplied nesting) fun _ =>
      Level program [] := by
  have hkeys : program.variablesByName.keys.length ≤ maxRichVariables := by
    rw [SortedMap.keys, length_map]
    exact hprog.few
  have hresolve (hsupplied : LocalsValid supplied) (start : Evaluator) :
      Resolves program start (resolveVariable program supplied nesting) := by
    refine resolveVariable_meets hprog hsupplied nesting start ?_
    exact ((length_filter_le _ _).trans hkeys).trans_lt hnesting
  have hdepth : maxRichValueDepth < nesting := by
    unfold maxRichVariables at hnesting
    unfold maxRichValueDepth
    omega
  have hloop (hsupplied : LocalsValid supplied) :
      Meets Diagnosed (Level program []) (program.variablesByName.keys.forM fun name => do
        let _ ← resolveVariable program supplied nesting name) fun _ => Level program [] := by
    refine forM fun name _ => at_each fun state hstate => ?_
    refine ((hresolve hsupplied state name).weaken ?_ fun _ _ h => h).bind fun v => ?_
    · rintro start rfl
      exact ⟨hstate.1, Quiet.refl start⟩
    · exact pure fun after hafter =>
        ⟨hafter.2.1, hafter.2.2.fragmentStack.trans hstate.2⟩
  have hvariables : Meets Diagnosed (· = new)
      (resolveAllVariables program supplied nesting) fun _ state =>
        LocalsValid supplied ∧ Level program [] state := by
    refine lift_step (onlyFails_forM fun _ _ => checkSupplied_onlyFails)
      fun _ hchecked => ?_
    have hsupplied := checkSupplied_valid hchecked
    refine (hloop hsupplied).weaken ?_ fun _ _ hafter => ⟨hsupplied, hafter⟩
    rintro start rfl
    exact ⟨start_ready, rfl⟩
  refine hvariables.bind fun _ => given fun hsupplied => forM fun located hlocated => ?_
  refine executeStatements_meets hprog (hresolve hsupplied) ?_ [located.statement] ?_ ?_
  · exact composeFragment_meets hprog (hresolve hsupplied) nesting [] hdepth
  · exact fun name v h => (by cases h)
  · exact ⟨hprog.statements located hlocated, trivial⟩

end Malm.Config
