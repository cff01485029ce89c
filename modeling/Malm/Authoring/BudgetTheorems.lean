/-
Malm.Authoring.BudgetTheorems — budgets are never exceeded.

An op of the plan keeps every counter within its limit (`Budget.Sound`), and
the strings written under an output have at most the bytes of its account, as long as
accounted bytes are moved and not copied. So the sizes of all accepted artifacts are
within the plan.
-/
import Malm.Authoring.Budget

namespace Malm.Authoring

open List Option Session Authoring.Budget Text

variable {index part : Nat}

/-! ## 1. The plan -/

def Budget.counters (budget : Budget) : List (Nat × UInt64) :=
  [(budget.totalIterations, budget.limits.maxTotalIterations),
    (budget.generatedNodes, budget.limits.maxGeneratedNodes),
    (budget.operations, budget.limits.maxOperations),
    (budget.totalBytes, budget.limits.maxTotalBytes),
    (budget.renderFiles, budget.limits.maxRenderFiles),
    (budget.renderBytes, budget.limits.maxRenderBytes)]

/-- Every counter is within its limit. -/
def Budget.Within (budget : Budget) : Prop :=
  ∀ counter ∈ budget.counters, counter.1 ≤ counter.2.toNat

variable {α : Type} {budget : Budget} {result : Budgeted α} {charge : Nat}

/-- An operation keeps the limits; a rejected one only marks the budget, and an accepted one has
charged its artifacts. -/
structure Budget.Sound (budget : Budget) (result : Budgeted α) (charge : Nat) : Prop where
  limits : result.2.limits = budget.limits
  rejected : ∀ what, result.1 = .error what → result.2 = { budget with exhausted := true }
  within : budget.Within → result.2.Within
  charged : ∀ value, result.1 = .ok value → budget.totalBytes + charge ≤ result.2.totalBytes

namespace Budget

theorem exceeded_sound (what : String) (charge : Nat) :
    budget.Sound (budget.exceeded what : Budgeted α) charge where
  limits := rfl
  rejected _ _ := rfl
  within h := h
  charged _ h := by cases h

theorem checked_sound (past : Prop) [Decidable past] (what : String) :
    budget.Sound (budget.checked past what) 0 := by
  unfold checked
  split
  · exact exceeded_sound what 0
  · exact ⟨rfl, fun _ h => (by cases h), fun h => h, fun _ _ => le_refl _⟩

theorem charged_sound {used added : Nat} {limit : UInt64} {overflowed past : String}
    {store : Nat → Budget} (hlimits : ∀ total, (store total).limits = budget.limits)
    (hwithin : ∀ total, total ≤ limit.toNat → budget.Within → (store total).Within)
    (hcharge : budget.totalBytes + charge ≤ (store (used + added)).totalBytes) :
    budget.Sound (budget.charged used added limit overflowed past store) charge := by
  unfold charged checkedAdd
  by_cases hrange : used + added < 2 ^ 64
  · by_cases hpast : limit.toNat < used + added
    · simp only [hrange, hpast, if_true]
      exact exceeded_sound past charge
    · simp only [hrange, hpast, if_true, if_false]
      exact ⟨hlimits _, fun _ h => (by cases h), hwithin _ (not_lt.1 hpast), fun _ _ => hcharge⟩
  · simp only [hrange, if_false]
    exact exceeded_sound overflowed charge

theorem countIterations_sound (n : Nat) : budget.Sound (budget.countIterations n) 0 := by
  refine charged_sound (fun _ => rfl) (fun total hfits hwithin => ?_) (le_refl _)
  simp [Within, counters] at hwithin ⊢
  omega

theorem countGeneratedNodes_sound (n : Nat) : budget.Sound (budget.countGeneratedNodes n) 0 := by
  refine charged_sound (fun _ => rfl) (fun total hfits hwithin => ?_) (le_refl _)
  simp [Within, counters] at hwithin ⊢
  omega

theorem countOperations_sound (n : Nat) : budget.Sound (budget.countOperations n) 0 := by
  refine charged_sound (fun _ => rfl) (fun total hfits hwithin => ?_) (le_refl _)
  simp [Within, counters] at hwithin ⊢
  omega

theorem countRenderBytes_sound (bytes : Nat) : budget.Sound (budget.countRenderBytes bytes) 0 := by
  refine charged_sound (fun _ => rfl) (fun total hfits hwithin => ?_) (le_refl _)
  simp [Within, counters] at hwithin ⊢
  omega

theorem countArtifactBytes_sound (artifactLen added : Nat) :
    budget.Sound (budget.countArtifactBytes artifactLen added) added := by
  unfold countArtifactBytes
  split
  · next hpast =>
    unfold checkArtifactSize checked
    rw [if_pos hpast]
    exact exceeded_sound _ added
  · refine charged_sound (fun _ => rfl) (fun total hfits hwithin => ?_) (le_refl _)
    simp [Within, counters] at hwithin ⊢
    omega

theorem beginRenderFile_sound : budget.Sound budget.beginRenderFile 0 := by
  unfold beginRenderFile checkedAdd
  by_cases hrange : budget.renderFiles + 1 < 2 ^ 64
  · by_cases hpast : budget.limits.maxRenderFiles.toNat < budget.renderFiles + 1
    · simp only [hrange, hpast, if_true]
      exact exceeded_sound _ 0
    · simp only [hrange, hpast, if_true, if_false]
      refine ⟨rfl, fun _ h => (by cases h), fun hwithin => ?_, fun _ _ => le_refl _⟩
      simp [Within, counters] at hwithin ⊢
      omega
  · simp only [hrange, if_false]
    exact exceeded_sound _ 0

theorem checkOutputSize_sound (bytes : Nat) : budget.Sound (budget.checkOutputSize bytes) 0 := by
  unfold checkOutputSize
  split
  · exact checked_sound _ _
  · exact checked_sound _ _

/-- A charged artifact is within the size of one, and within what was left of the plan. -/
theorem countArtifactBytes_fits {size : Nat}
    (h : (budget.countArtifactBytes size size).1 = .ok ()) :
    size ≤ budget.limits.maxArtifactBytes.toNat ∧
      budget.totalBytes + size ≤ budget.limits.maxTotalBytes.toNat := by
  unfold countArtifactBytes at h
  split at h
  · next hpast =>
    unfold checkArtifactSize checked at h
    rw [if_pos hpast] at h
    cases h
  · next hfits =>
    unfold charged checkedAdd at h
    by_cases hrange : budget.totalBytes + size < 2 ^ 64
    · by_cases hpast : budget.limits.maxTotalBytes.toNat < budget.totalBytes + size
      · simp only [hrange, hpast, if_true] at h
        cases h
      · exact ⟨not_lt.1 hfits, not_lt.1 hpast⟩
    · simp only [hrange, if_false] at h
      cases h

end Budget

/-! ## 2. Outputs -/

/-- The bytes of strings. -/
def partsLen (parts : List Text) : Nat := (parts.map Text.byteLen).sum

section

variable {parts : List Text} {index : Nat} {content : Text} (h : parts[index]? = some content)
include h

theorem partsLen_set (other : Text) :
    partsLen (parts.set index other) + content.byteLen = partsLen parts + other.byteLen := by
  induction parts generalizing index with
  | nil => simp at h
  | cons first rest ih =>
    cases index with
    | zero =>
      obtain rfl : first = content := by simpa using h
      simp only [set_cons_zero, partsLen, map_cons, sum_cons]
      omega
    | succ index =>
      have hrest := @ih index (by simpa using h)
      simp only [partsLen, set_cons_succ, map_cons, sum_cons] at hrest ⊢
      omega

theorem byteLen_le_partsLen : content.byteLen ≤ partsLen parts := by
  have hset := partsLen_set h []
  simp only [byteLen, map_nil, sum_nil] at hset ⊢
  omega

end

/-- An output that was begun when so many bytes were charged to the plan. -/
structure Output.Within (output : Output) (limits : Limits) (total : Nat) : Prop where
  bytes : output.account.bytes ≤ output.account.limit
  range : output.account.bytes < 2 ^ 64
  parts : partsLen output.parts ≤ output.account.bytes
  limit : output.account.limit ≤ limits.maxArtifactBytes.toNat ∧
    (output.account.limit = limits.maxArtifactBytes.toNat ∨
      limits.maxTotalBytes.toNat ≤ output.account.limit + total)
  exceeded : ∀ projected, output.account.exceeded = some projected →
    output.account.limit < projected

variable {output : Output} {limits : Limits} {total : Nat}

theorem Output.Within.mono {later : Nat} (h : output.Within limits total) (hle : total ≤ later) :
    output.Within limits later := by
  refine ⟨h.bytes, h.range, h.parts, ⟨h.limit.1, ?_⟩, h.exceeded⟩
  rcases h.limit.2 with heq | hle'
  · exact .inl heq
  · exact .inr (by omega)

theorem finishOutput_refused {what : Nat} (h : output.Within budget.limits budget.totalBytes)
    (hrefused : output.account.exceeded = some what) :
    (budget.finishOutput output.account).1 ≠ .ok () := by
  unfold finishOutput
  rw [hrefused]
  intro hok
  have hfits := countArtifactBytes_fits hok
  have hpast := h.exceeded what hrefused
  rcases h.limit.2 with heq | hle
  · omega
  · omega

theorem finishOutput_sound (h : output.Within budget.limits budget.totalBytes)
    (hcharge : charge ≤ output.account.bytes) :
    budget.Sound (budget.finishOutput output.account) charge := by
  cases hrefused : output.account.exceeded with
  | none =>
    have hplain : budget.finishOutput output.account =
        budget.countArtifactBytes output.account.bytes output.account.bytes := by
      rw [finishOutput, hrefused]
    have hsound := @countArtifactBytes_sound budget output.account.bytes
      output.account.bytes
    rw [hplain]
    refine ⟨hsound.limits, hsound.rejected, hsound.within, fun v hok => ?_⟩
    have hcharged := hsound.charged v hok
    omega
  | some projected =>
    have hnever := finishOutput_refused h hrefused
    have hrefusal : budget.finishOutput output.account =
        budget.countArtifactBytes projected projected := by
      rw [finishOutput, hrefused]
    have hsound := @countArtifactBytes_sound budget projected projected
    rw [hrefusal] at hnever ⊢
    exact ⟨hsound.limits, hsound.rejected, hsound.within, fun v hok => absurd hok hnever⟩

/-! ## 3. Sessions -/

/-- Every counter, every output and what was accepted are within their limits. -/
structure Session.Within (session : Session) : Prop where
  budget : session.budget.Within
  outputs : ∀ output ∈ session.outputs,
    output.Within session.budget.limits session.budget.totalBytes
  accepted : session.accepted.sum ≤ session.budget.totalBytes

/-- Accounted bytes are moved and not copied. -/
def Operation.Moves : Operation → Prop
  | .appendAccounted _ _ _ => False
  | _ => True

/-- A rejected append is marked on its output, every other operation on the plan. -/
def Session.Marked (session : Session) : Operation → Prop
  | .push index _ _ => ∃ output, session.outputs[index]? = some output ∧
      output.account.exceeded.isSome = true
  | _ => session.budget.exhausted = true

/-- The counters of the plan and the bytes of the outputs. -/
def Session.counters (session : Session) : List (Nat × UInt64) × List Nat :=
  (session.budget.counters, session.outputs.map fun output => output.account.bytes)

/-- The operations that give bytes back to an account. -/
def Operation.Refunds : Operation → Prop
  | .pop _ _ | .removePrefix _ _ _ => True
  | _ => False

/-- What one operation does. -/
structure Session.Guarded (session : Session) (operation : Operation) (next : Session)
    (accepted : Bool) : Prop where
  /-- A rejected operation leaves the counters as they are. -/
  rejected : accepted = false → next.counters = session.counters ∧ next.Marked operation
  /-- What an account gets back is what its strings lose: no subtraction wraps. -/
  refunded : ∀ (index : Nat) (before after : Output), session.outputs[index]? = some before →
    next.outputs[index]? = some after →
      operation.Refunds ∨ after.account.bytes < before.account.bytes →
      after.account.bytes + partsLen before.parts = before.account.bytes + partsLen after.parts

variable {session next last : Session} {op : Operation} {accepted : Bool}

theorem plan_within {charged : List Nat} (hwithin : session.Within)
    (hsound : session.budget.Sound result charged.sum) :
    (session.plan result charged).1.Within := by
  unfold plan
  have hle : session.budget.totalBytes ≤ result.2.totalBytes := by
    cases hres : result.1 with
    | ok v =>
      have hcharged := hsound.charged v hres
      omega
    | error what => rw [hsound.rejected what hres]
  have houtputs : ∀ output ∈ session.outputs, output.Within result.2.limits
      result.2.totalBytes := by
    intro output hmem
    rw [hsound.limits]
    exact (hwithin.outputs output hmem).mono hle
  have haccepted := hwithin.accepted
  cases hres : result.1 with
  | ok v =>
    have hcharged := hsound.charged v hres
    refine ⟨hsound.within hwithin.budget, houtputs, ?_⟩
    simp only [sum_append]
    omega
  | error what => exact ⟨hsound.within hwithin.budget, houtputs, by simpa using by omega⟩

theorem plan_guarded {charged : List Nat} (hsound : session.budget.Sound result charged.sum)
    (hmarked : ∀ next : Session, next.budget.exhausted = true → next.Marked op) :
    session.Guarded op (session.plan result charged).1 (session.plan result charged).2 := by
  unfold plan
  cases hres : result.1 with
  | ok v =>
    refine ⟨fun h => (by cases h), fun index before after hbefore hafter _ => ?_⟩
    obtain rfl := some.inj (hbefore.symm.trans hafter)
    rfl
  | error what =>
    have hkept := hsound.rejected what hres
    refine ⟨fun _ => ⟨?_, hmarked _ ?_⟩, fun index before after hbefore hafter _ => ?_⟩
    · simp [Session.counters, Budget.counters, hkept]
    · simp [hkept]
    · obtain rfl := some.inj (hbefore.symm.trans hafter)
      rfl

/-! ## 4. One step -/

/-- What a step can be: an operation of the plan, a new output, or a change of one. -/
inductive Session.Steps (session : Session) (operation : Operation) : Session → Bool → Prop
  | plan {α : Type} (result : Budgeted α) (charged : List Nat)
      (hsound : session.budget.Sound result charged.sum)
      (hmarked : ∀ next : Session, next.budget.exhausted = true → next.Marked operation)
      (hfinish : ∀ index part output, operation = .finish index part →
        session.outputs[index]? = some output → output.account.exceeded.isSome = true →
          ∃ what, result.1 = .error what) :
      Steps session operation (session.plan result charged).1 (session.plan result charged).2
  | begun (hbegin : operation = .beginOutput) :
      Steps session operation
        { session with outputs := session.outputs ++ [⟨session.budget.beginOutput, []⟩] } true
  | changed (index : Nat) (output other : Output) (accepted : Bool)
      (hindex : session.outputs[index]? = some output)
      (hwithin : other.Within session.budget.limits session.budget.totalBytes)
      (hexceeded : output.account.exceeded.isSome = true → other.account.exceeded.isSome = true)
      (hrefund : operation.Refunds ∨ other.account.bytes < output.account.bytes →
        other.account.bytes + partsLen output.parts = output.account.bytes + partsLen other.parts)
      (hrejected : accepted = false → other.account.bytes = output.account.bytes ∧
        (∃ part value, operation = .push index part value) ∧
          other.account.exceeded.isSome = true)
      (hfinish : ∀ found part, operation ≠ .finish found part) :
      Steps session operation (session.setOutput index other) accepted

theorem partsLen_le_live (h : session.outputs[index]? = some output) :
    partsLen output.parts ≤ session.live := by
  have hmem := mem_map_of_mem (f := fun output => (output.parts.map byteLen).sum)
    (mem_of_getElem? h)
  exact le_sum_of_mem hmem

theorem parts_steps {parts : List Text} (hwithin : session.Within)
    (hindex : session.outputs[index]? = some output)
    (hparts : partsLen parts ≤ partsLen output.parts) (hkeeps : ¬ op.Refunds)
    (hfinish : ∀ found part, op ≠ .finish found part) :
    session.Steps op (session.setOutput index { output with parts }) true := by
  have houtput := hwithin.outputs output (mem_of_getElem? hindex)
  refine .changed index output _ true hindex ?_ id
    (fun h => h.elim (fun h => absurd h hkeeps) fun h => absurd h (lt_irrefl _))
    (fun h => (by cases h)) hfinish
  exact ⟨houtput.bytes, houtput.range, le_trans hparts houtput.parts, houtput.limit,
    houtput.exceeded⟩

theorem saturatingAdd_bounds {left right : Nat} (h : left < 2 ^ 64) :
    left ≤ saturatingAdd left right ∧ saturatingAdd left right < 2 ^ 64 ∧
      ∀ len, len ≤ left + right → len < 2 ^ 64 → len ≤ saturatingAdd left right := by
  unfold saturatingAdd
  exact ⟨by omega, by omega, fun len _ _ => by omega⟩

/-- An append is rejected, and then every later one is, or its bytes are reserved. -/
theorem OutputBudget.reserve_cases (account : OutputBudget) (bytes : Nat) :
    (∃ other, account.reserve bytes = (false, other) ∧ other.bytes = account.bytes ∧
      other.limit = account.limit ∧ other.exceeded.isSome = true ∧
        ∀ projected, other.exceeded = some projected →
          account.exceeded = some projected ∨ account.limit < projected) ∨
    (account.exceeded = none ∧ saturatingAdd account.bytes bytes ≤ account.limit ∧
      account.reserve bytes =
        (true, { account with bytes := saturatingAdd account.bytes bytes })) := by
  unfold reserve
  cases hexceeded : account.exceeded with
  | some projected =>
    exact .inl ⟨account, rfl, rfl, rfl, by rw [hexceeded, isSome_some],
      fun _ h => .inl (hexceeded ▸ h)⟩
  | none =>
    generalize saturatingAdd account.bytes bytes = projected
    by_cases hpast : account.limit < projected
    · refine .inl ⟨{ account with exceeded := some projected }, ?_, rfl, rfl, rfl, fun _ h => ?_⟩
      · simp only [isSome_none, Bool.false_eq_true, if_false, if_pos hpast]
      · exact .inr (some.inj h ▸ hpast)
    · refine .inr ⟨rfl, not_lt.1 hpast, ?_⟩
      simp only [isSome_none, Bool.false_eq_true, if_false, if_neg hpast]

theorem push_steps {v : Text} (hwithin : session.Within)
    (h : session.push index part v = some (next, accepted)) :
    session.Steps (.push index part v) next accepted := by
  simp only [push, bind_eq_bind, bind_eq_some_iff] at h
  obtain ⟨output, hindex, content, hpart, h⟩ := h
  have houtput := hwithin.outputs output (mem_of_getElem? hindex)
  rcases output.account.reserve_cases v.byteLen with
    ⟨other, hreserve, hbytes, hlimit, hexceeded, hprojected⟩ | ⟨hopen, hfits, hreserve⟩
  · simp only [hreserve, if_true, Option.pure_def, Option.some.injEq, Prod.mk.injEq] at h
    obtain ⟨rfl, rfl⟩ := h
    refine .changed index output { output with account := other } false hindex ?_
      (fun _ => hexceeded) (fun hless => ?_) (fun _ => ⟨hbytes, ⟨part, v, rfl⟩, hexceeded⟩)
      (fun _ _ => by simp)
    · refine ⟨?_, ?_, ?_, ?_, fun projected h => ?_⟩
      · rw [hbytes, hlimit]
        exact houtput.bytes
      · rw [hbytes]
        exact houtput.range
      · rw [hbytes]
        exact houtput.parts
      · rw [hlimit]
        exact houtput.limit
      · rw [hlimit]
        exact (hprojected projected h).elim (houtput.exceeded projected) id
    · exact absurd (hless.resolve_left id) (hbytes ▸ lt_irrefl _)
  · obtain ⟨hgrows, hrange, hcovers⟩ := @saturatingAdd_bounds _ v.byteLen houtput.range
    generalize saturatingAdd output.account.bytes v.byteLen = projected at *
    simp only [hreserve, Bool.true_eq_false, if_false] at h
    by_cases hroom : session.live + v.byteLen < 2 ^ 64
    · simp only [hroom, if_true, Option.pure_def, Option.some.injEq, Prod.mk.injEq] at h
      obtain ⟨rfl, rfl⟩ := h
      have hset := partsLen_set hpart (content ++ v)
      rw [byteLen_append] at hset
      have hlive := partsLen_le_live hindex
      have hparts := houtput.parts
      have hgrown := hcovers (partsLen (output.parts.set part (content ++ v)))
        (by omega) (by omega)
      refine .changed index output ⟨{ output.account with bytes := projected },
        output.parts.set part (content ++ v)⟩ true hindex
        ⟨hfits, hrange, hgrown, houtput.limit, houtput.exceeded⟩ id
        (fun hless => absurd (hless.resolve_left id) (not_lt.2 hgrows)) (fun h => (by cases h)) (fun _ _ => by simp)
    · simp only [hroom, if_false, reduceCtorEq] at h

theorem wrappingSub_of_le {left right : Nat} (hle : right ≤ left) (h : left < 2 ^ 64) :
    wrappingSub left right = left - right := by
  unfold wrappingSub
  omega

theorem cut_steps {split : Text → Text × Text} (hwithin : session.Within)
    (hsplit : ∀ content, (split content).1.byteLen + (split content).2.byteLen = content.byteLen)
    (hfinish : ∀ found part, op ≠ .finish found part)
    (h : session.cut index part split = some (next, accepted)) :
    session.Steps op next accepted := by
  simp only [Session.cut, Option.bind_eq_bind, Option.bind_eq_some_iff, Option.pure_def,
    Option.some.injEq, Prod.mk.injEq] at h
  obtain ⟨output, hindex, content, hpart, rfl, rfl⟩ := h
  have houtput := hwithin.outputs output (mem_of_getElem? hindex)
  have hset := partsLen_set hpart (split content).2
  have hcut := hsplit content
  have hlen := byteLen_le_partsLen hpart
  have hparts := houtput.parts
  have hle : (split content).1.byteLen ≤ output.account.bytes := by omega
  rw [OutputBudget.refund, wrappingSub_of_le hle houtput.range]
  have hkept : partsLen (output.parts.set part (split content).2) ≤
      output.account.bytes - (split content).1.byteLen := by
    omega
  have hrefund : output.account.bytes - (split content).1.byteLen + partsLen output.parts =
      output.account.bytes + partsLen (output.parts.set part (split content).2) := by
    omega
  exact .changed index output _ true hindex ⟨le_trans (Nat.sub_le _ _) houtput.bytes,
    lt_of_le_of_lt (Nat.sub_le _ _) houtput.range, hkept, houtput.limit, houtput.exceeded⟩ id
    (fun _ => hrefund) (fun h => (by cases h)) hfinish

theorem byteLen_pop (content : Text) :
    byteLen content.getLast?.toList + byteLen content.dropLast = content.byteLen := by
  cases hlast : content.getLast? with
  | none =>
    obtain rfl := getLast?_eq_none_iff.1 hlast
    rfl
  | some c =>
    have hcontent := dropLast_append_getLast? c hlast
    rw [Nat.add_comm, ← byteLen_append, toList_some, hcontent]

theorem move_steps {src : Nat} (hwithin : session.Within)
    (h : session.step (.move index part src) = some (next, accepted)) :
    session.Steps (.move index part src) next accepted := by
  simp only [step, bind_eq_bind, bind_eq_some_iff] at h
  obtain ⟨output, hindex, value, hsource, content, hpart, h⟩ := h
  by_cases hsame : part = src
  · simp [hsame] at h
  · simp only [hsame, if_false, Option.pure_def, Option.some.injEq, Prod.mk.injEq] at h
    obtain ⟨rfl, rfl⟩ := h
    refine parts_steps hwithin hindex ?_ id fun _ _ => by simp
    have hgrown := partsLen_set hpart (content ++ value)
    have hkept : (output.parts.set part (content ++ value))[src]? = some value := by
      rw [getElem?_set_ne hsame, hsource]
    have hmoved := partsLen_set hkept []
    have hempty : byteLen [] = 0 := rfl
    rw [byteLen_append] at hgrown
    omega

theorem plan_steps (result : Budgeted α) (charged : List Nat)
    (hsound : session.budget.Sound result charged.sum)
    (hmarked : ∀ next : Session, next.budget.exhausted = true → next.Marked op)
    (hfinish : ∀ index part, op ≠ .finish index part)
    (h : some (session.plan result charged) = some (next, accepted)) :
    session.Steps op next accepted := by
  have hsteps := Session.Steps.plan result charged hsound hmarked
    fun index part _ hfinished => absurd hfinished (hfinish index part)
  rwa [some.inj h] at hsteps

theorem drop_steps (hwithin : session.Within)
    (h : session.step (.drop index part) = some (next, accepted)) :
    session.Steps (.drop index part) next accepted := by
  simp only [step, map_eq_some_iff, Prod.mk.injEq] at h
  obtain ⟨output, hindex, rfl, rfl⟩ := h
  refine parts_steps hwithin hindex ?_ id fun _ _ => by simp
  cases hpart : output.parts[part]? with
  | none => rw [set_eq_of_length_le (by simpa using hpart)]
  | some content =>
    have hset := partsLen_set hpart []
    have hempty : byteLen [] = 0 := rfl
    omega

theorem finish_steps (hwithin : session.Within)
    (h : session.step (.finish index part) = some (next, accepted)) :
    session.Steps (.finish index part) next accepted := by
  simp only [Session.step, Option.bind_eq_bind, Option.bind_eq_some_iff, Option.pure_def] at h
  obtain ⟨output, hindex, content, hpart, h⟩ := h
  have houtput := hwithin.outputs output (mem_of_getElem? hindex)
  have hcharge : [content.byteLen].sum ≤ output.account.bytes := by
    simpa using le_trans (byteLen_le_partsLen hpart) houtput.parts
  have hsteps := @Session.Steps.plan _ (.finish index part) _
    (session.budget.finishOutput output.account) [content.byteLen]
    (finishOutput_sound houtput hcharge) (fun _ h => h) ?_
  · rwa [some.inj h] at hsteps
  · intro other _ found hsame hfound hexceeded
    obtain ⟨rfl, -⟩ : index = other ∧ _ := by simpa using hsame
    obtain rfl := some.inj (hindex.symm.trans hfound)
    obtain ⟨projected, hprojected⟩ := isSome_iff_exists.1 hexceeded
    have hnever := finishOutput_refused houtput hprojected
    cases hres : (session.budget.finishOutput output.account).1 with
    | ok v => exact absurd hres hnever
    | error what => exact ⟨what, rfl⟩

/-- Every step is one of these, if bytes are moved and not copied. -/
theorem step_steps (hwithin : session.Within) (hmoves : op.Moves)
    (h : session.step op = some (next, accepted)) :
    session.Steps op next accepted := by
  cases op with
  | checkNesting depth => exact plan_steps _ _ (checked_sound _ _) (fun _ h => h) (by simp) h
  | checkCollectionSize len =>
    exact plan_steps _ _ (checked_sound _ _) (fun _ h => h) (by simp) h
  | checkRange iterations =>
    exact plan_steps _ _ (checked_sound _ _) (fun _ h => h) (by simp) h
  | checkArtifactSize bytes =>
    exact plan_steps _ _ (checked_sound _ _) (fun _ h => h) (by simp) h
  | checkOutputSize bytes =>
    exact plan_steps _ _ (checkOutputSize_sound bytes) (fun _ h => h) (by simp) h
  | countIterations n =>
    exact plan_steps _ _ (countIterations_sound n) (fun _ h => h) (by simp) h
  | countGeneratedNodes n =>
    exact plan_steps _ _ (countGeneratedNodes_sound n) (fun _ h => h) (by simp) h
  | countOperations n =>
    exact plan_steps _ _ (countOperations_sound n) (fun _ h => h) (by simp) h
  | countRenderBytes bytes =>
    exact plan_steps _ _ (countRenderBytes_sound bytes) (fun _ h => h) (by simp) h
  | countArtifactBytes artifactLen added =>
    exact plan_steps _ [added] (by simpa using countArtifactBytes_sound artifactLen added)
      (fun _ h => h) (by simp) h
  | beginRenderFile =>
    exact plan_steps _ _ beginRenderFile_sound (fun _ h => h) (by simp) h
  | beginOutput =>
    simp only [step, some.injEq, Prod.mk.injEq] at h
    obtain ⟨rfl, rfl⟩ := h
    exact .begun rfl
  | newPart index =>
    simp only [step, map_eq_some_iff, Prod.mk.injEq] at h
    obtain ⟨output, hindex, rfl, rfl⟩ := h
    exact parts_steps hwithin hindex (by simp [partsLen, byteLen]) id fun _ _ => by simp
  | push index part v => exact push_steps hwithin h
  | appendAccounted index part v => exact hmoves.elim
  | move index part src => exact move_steps hwithin h
  | pop index part => exact cut_steps hwithin byteLen_pop (fun _ _ => by simp) h
  | removePrefix index part count =>
    refine cut_steps hwithin (fun content => ?_) (fun _ _ => by simp) h
    rw [← byteLen_append, take_append_drop]
  | drop index part => exact drop_steps hwithin h
  | finish index part => exact finish_steps hwithin h

/-! ## 5. Runs -/

theorem Session.Steps.limits_kept (h : session.Steps op next accepted) :
    next.budget.limits = session.budget.limits := by
  cases h with
  | plan result charged hsound =>
    unfold Session.plan
    cases result.1 <;> exact hsound.limits
  | begun hbegin => rfl
  | changed index output other accepted => rfl

theorem beginOutput_within : Output.Within ⟨budget.beginOutput, []⟩ budget.limits
    budget.totalBytes where
  bytes := Nat.zero_le _
  range := by simp [beginOutput]
  parts := Nat.zero_le _
  limit := by
    refine ⟨min_le_left _ _, ?_⟩
    simp only [beginOutput]
    omega
  exceeded _ h := by cases h

theorem Session.Steps.within (h : session.Steps op next accepted)
    (hwithin : session.Within) : next.Within := by
  cases h with
  | plan result charged hsound => exact plan_within hwithin hsound
  | begun hbegin =>
    refine ⟨hwithin.budget, fun output hmem => ?_, hwithin.accepted⟩
    rcases mem_append.1 hmem with hold | hnew
    · exact hwithin.outputs output hold
    · obtain rfl := mem_singleton.1 hnew
      exact beginOutput_within
  | changed index output other accepted hindex hother =>
    refine ⟨hwithin.budget, fun found hmem => ?_, hwithin.accepted⟩
    rcases mem_or_eq_of_mem_set hmem with hold | rfl
    · exact hwithin.outputs found hold
    · exact hother

theorem Session.Steps.guarded (h : session.Steps op next accepted) :
    session.Guarded op next accepted := by
  cases h with
  | plan result charged hsound hmarked => exact plan_guarded hsound hmarked
  | begun hbegin =>
    refine ⟨fun h => (by cases h), fun index before after hbefore hafter _ => ?_⟩
    rw [List.getElem?_append_left (List.getElem?_eq_some_iff.1 hbefore).1] at hafter
    obtain rfl := some.inj (hbefore.symm.trans hafter)
    rfl
  | changed index output other accepted hindex hother hexceeded hrefund hrejected =>
    have hlt := (List.getElem?_eq_some_iff.1 hindex).1
    refine ⟨fun hfalse => ?_, fun found before after hbefore hafter hless => ?_⟩
    · obtain ⟨hbytes, ⟨part, v, rfl⟩, hmarked⟩ := hrejected hfalse
      refine ⟨?_, other, by simp [setOutput, hlt], hmarked⟩
      simp only [counters, setOutput, map_set, hbytes, Prod.mk.injEq, true_and]
      have hbytes' : (session.outputs.map fun output => output.account.bytes)[index]? =
          some output.account.bytes := by
        rw [List.getElem?_map, hindex, map_some]
      obtain ⟨hlt', heq⟩ := List.getElem?_eq_some_iff.1 hbytes'
      conv_lhs => rw [← heq, set_getElem_self hlt']
    · by_cases hsame : index = found
      · subst hsame
        obtain rfl := some.inj (hindex.symm.trans hbefore)
        obtain rfl : other = after := by simpa [setOutput, hlt] using hafter
        exact hrefund hless
      · rw [setOutput, getElem?_set_ne hsame] at hafter
        obtain rfl := some.inj (hbefore.symm.trans hafter)
        rfl

/-- An append on the output was rejected. -/
def Session.Refused (session : Session) (index : Nat) : Prop :=
  ∃ output, session.outputs[index]? = some output ∧ output.account.exceeded.isSome = true

theorem Session.Steps.refused (h : session.Steps op next accepted)
    (hrefused : session.Refused index) : next.Refused index := by
  obtain ⟨output, hindex, hexceeded⟩ := hrefused
  cases h with
  | plan result charged hsound =>
    refine ⟨output, ?_, hexceeded⟩
    unfold Session.plan
    cases result.1 <;> exact hindex
  | begun hbegin =>
    refine ⟨output, ?_, hexceeded⟩
    rw [List.getElem?_append_left (List.getElem?_eq_some_iff.1 hindex).1, hindex]
  | changed changed found other accepted hchanged hother hkept =>
    by_cases hsame : changed = index
    · subst hsame
      obtain rfl := Option.some.inj (hindex.symm.trans hchanged)
      have hlt := (List.getElem?_eq_some_iff.1 hindex).1
      exact ⟨other, by simp [Session.setOutput, hlt], hkept hexceeded⟩
    · exact ⟨output, by rw [setOutput, getElem?_set_ne hsame, hindex], hexceeded⟩

theorem Session.Steps.not_finished (h : session.Steps (.finish index part) next accepted)
    (hrefused : session.Refused index) :
    accepted = false := by
  obtain ⟨output, hindex, hexceeded⟩ := hrefused
  generalize hop : Operation.finish index part = op at h
  cases h with
  | plan result charged hsound hmarked hfinish =>
    obtain ⟨what, hwhat⟩ := hfinish index part output hop.symm hindex hexceeded
    rw [Session.plan, hwhat]
  | begun hbegin => rw [hbegin] at hop; cases hop
  | changed changed found other accepted hchanged hother hkept hrefund hrejected hfinish =>
    exact absurd hop.symm (hfinish index part)

theorem start_within (limits : Limits) : (start limits).Within where
  budget := by simp [start, Budget.new, Budget.Within, Budget.counters]
  outputs _ h := absurd h not_mem_nil
  accepted := le_refl _

theorem run_keeps {ops : List Operation} {outcomes : List Bool} (hwithin : session.Within)
    (hmoves : ∀ op ∈ ops, op.Moves)
    (h : session.run ops = some (last, outcomes)) :
    last.Within ∧ last.budget.limits = session.budget.limits ∧
      (∀ index, session.Refused index → last.Refused index) ∧
        ∀ (i index part : Nat) (value : Text), ops[i]? = some (.push index part value) →
          outcomes[i]? = some false → last.Refused index := by
  induction ops generalizing session outcomes with
  | nil =>
    simp only [run, some.injEq, Prod.mk.injEq] at h
    obtain ⟨rfl, rfl⟩ := h
    exact ⟨hwithin, rfl, fun _ h => h, fun i _ _ _ h => by simp at h⟩
  | cons op rest ih =>
    simp only [Session.run, Option.bind_eq_bind, Option.bind_eq_some_iff, Option.pure_def,
      Option.some.injEq, Prod.exists, Prod.mk.injEq] at h
    obtain ⟨next, outcome, hstep, last, others, hrun, rfl, rfl⟩ := h
    have hsteps := step_steps hwithin (hmoves op mem_cons_self) hstep
    obtain ⟨hlast, hlimits, hkept, hrefused⟩ := ih (hsteps.within hwithin)
      (fun other hmem => hmoves other (mem_cons_of_mem _ hmem)) hrun
    refine ⟨hlast, hlimits.trans hsteps.limits_kept,
      fun index h => hkept index (hsteps.refused h), fun i index part value hpush hfalse => ?_⟩
    cases i with
    | zero =>
      obtain rfl : op = .push index part value := by simpa using hpush
      exact hkept index (hsteps.guarded.rejected (by simpa using hfalse)).2
    | succ i => exact hrefused i index part value (by simpa using hpush) (by simpa using hfalse)

/-- **Budgets are never exceeded.** While accounted bytes are moved and not copied, every counter
of a run stays within its limit. An operation that is rejected leaves all counters and marks the
plan, or its output; and that output does not finish. -/
theorem budgets_never_exceeded {limits : Limits} {operations : List Operation}
    {session : Session} {outcomes : List Bool}
    (hmoves : ∀ op ∈ operations, op.Moves)
    (h : (start limits).run operations = some (session, outcomes)) :
    session.Within ∧ session.accepted.sum ≤ limits.maxTotalBytes.toNat ∧
      ∀ op next accepted, op.Moves →
        session.step op = some (next, accepted) →
          session.Guarded op next accepted ∧
            ∀ index part, op = .finish index part →
              (∃ (i part : Nat) (value : Text), operations[i]? = some (Operation.push index part value) ∧
                outcomes[i]? = some false) → accepted = false := by
  obtain ⟨hwithin, hlimits, -, hrefused⟩ := run_keeps (start_within limits) hmoves h
  have hlimits' : session.budget.limits = limits := hlimits
  have htotal : session.budget.totalBytes ≤ session.budget.limits.maxTotalBytes.toNat :=
    hwithin.budget (_, _) (by simp [Budget.counters])
  refine ⟨hwithin, ?_, fun op next accepted hmoves hstep => ?_⟩
  · rw [← hlimits']
    exact le_trans hwithin.accepted htotal
  · have hsteps := step_steps hwithin hmoves hstep
    refine ⟨hsteps.guarded, fun index part hfinish hpushed => ?_⟩
    obtain ⟨i, part, value, hpush, hfalse⟩ := hpushed
    subst hfinish
    exact hsteps.not_finished (hrefused i index _ value hpush hfalse)

/-- A plan for artifacts of one byte. -/
def byteLimits : Limits := { Limits.default with maxArtifactBytes := 1 }

/-- A character is moved, popped and written again, and cut; of two more, one is too many. -/
def byteOperations : List Operation :=
  [.beginOutput, .newPart 0, .newPart 0, .push 0 0 ['a'], .move 0 1 0, .pop 0 1, .push 0 0 ['b'],
    .removePrefix 0 0 1, .push 0 0 ['c'], .push 0 0 ['d']]

/-- The last append is refused, and its output does not finish. -/
theorem budgets_never_exceeded_sample : ∃ session outcomes,
    (start byteLimits).run byteOperations = some (session, outcomes) ∧
      session.Within ∧ ∀ next accepted,
        session.step (.finish 0 0) = some (next, accepted) → accepted = false := by
  have hmoves : ∀ op ∈ byteOperations, op.Moves := by simp [byteOperations, Operation.Moves]
  refine ⟨_, _, rfl, (@budgets_never_exceeded byteLimits byteOperations _ _ hmoves rfl).1,
    fun next accepted hstep => ?_⟩
  exact ((@budgets_never_exceeded byteLimits byteOperations _ _ hmoves rfl).2.2 (.finish 0 0) next
    accepted trivial hstep).2 0 0 rfl ⟨9, 0, ['d'], rfl, rfl⟩

/-- A rejected append does not mark the plan; and a `pop` of a copy takes the account below
zero. -/
theorem rejected_append_leaves_plan :
    ((start byteLimits).run
      [.beginOutput, .newPart 0, .push 0 0 ['a'], .push 0 0 ['b']]).map
        (fun run => (run.2, run.1.budget.exhausted)) = some ([true, true, true, false], false) ∧
    ((start byteLimits).run
      [.beginOutput, .newPart 0, .appendAccounted 0 0 ['a'], .pop 0 0]).map
        (fun run => run.1.outputs.map fun output => (output.account.limit, output.account.bytes)) =
      some [(1, 2 ^ 64 - 1)] := by
  decide +kernel

end Malm.Authoring
