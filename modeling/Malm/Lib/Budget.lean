/-
Malm.Lib.Budget — checks that draw on a shared budget.

A metered check adds its cost to what was used before and fails where the sum passes the
limit, or for a reason of its own. A loop over metered checks succeeds in one order exactly
when it succeeds in every other (`Charges.foldlM`).
-/
import Malm.Lib.Checks

namespace Budget

open Checks List

variable {μ ε : Type} [AddCommMonoid μ] [PartialOrder μ]

/-- The check succeeds exactly when it is allowed and fits, and then adds its cost. -/
def Charges (limit : μ) (check : μ → Except ε μ) (allowed : Prop) (cost : μ) : Prop :=
  ∀ used used', used ≤ limit →
    (check used = .ok used' ↔ allowed ∧ used + cost ≤ limit ∧ used' = used + cost)

def Metered (limit : μ) (check : μ → Except ε μ) : Prop :=
  ∃ allowed cost, Charges limit check allowed cost

variable {limit : μ} {check : μ → Except ε μ} {allowed : Prop} {cost : μ}

theorem Charges.pure : Charges limit (fun used => (.ok used : Except ε μ)) True 0 := by
  intro used used' hused
  simp [hused, eq_comm]

theorem Charges.guard {first : Except ε Unit} (h : Charges limit check allowed cost) :
    Charges limit (fun used => first >>= fun _ => check used) (first = .ok () ∧ allowed) cost := by
  intro used used' hused
  rw [bind_unit_ok, h used used' hused, and_assoc]

theorem Metered.pure : Metered limit (fun used => (.ok used : Except ε μ)) := ⟨True, 0, .pure⟩

theorem Metered.guard {first : Except ε Unit} (h : Metered limit check) :
    Metered limit (fun used => first >>= fun _ => check used) := by
  obtain ⟨allowed, cost, h⟩ := h
  exact ⟨_, _, h.guard⟩

variable [CanonicallyOrderedAdd μ]

theorem Charges.seq {next : μ → Except ε μ} {allowed' : Prop} {cost' : μ}
    (h : Charges limit check allowed cost) (h' : Charges limit next allowed' cost') :
    Charges limit (fun used => check used >>= next) (allowed ∧ allowed') (cost + cost') := by
  intro used used' hused
  simp only [bind_ok]
  constructor
  · intro hok
    obtain ⟨mid, hcheck, hnext⟩ := hok
    obtain ⟨hallowed, hfits, rfl⟩ := (h used mid hused).1 hcheck
    obtain ⟨hallowed', hfits', rfl⟩ := (h' _ used' hfits).1 hnext
    rw [add_assoc] at hfits'
    exact ⟨⟨hallowed, hallowed'⟩, hfits', add_assoc used cost cost'⟩
  · intro hok
    obtain ⟨⟨hallowed, hallowed'⟩, hfits, rfl⟩ := hok
    rw [← add_assoc] at hfits ⊢
    have hfirst : used + cost ≤ limit := le_trans le_self_add hfits
    exact ⟨used + cost, (h used _ hused).2 ⟨hallowed, hfirst, rfl⟩,
      (h' _ _ hfirst).2 ⟨hallowed', hfits, rfl⟩⟩

theorem Charges.foldlM {β : Type} {step : μ → β → Except ε μ} {allowed : β → Prop} {cost : β → μ}
    {es : List β}
    (h : ∀ e ∈ es, Charges limit (fun used => step used e) (allowed e)
      (cost e)) :
    Charges limit (fun used => es.foldlM step used) (∀ e ∈ es, allowed e)
      (es.map cost).sum := by
  induction es with
  | nil =>
    intro used used' hused
    simp only [foldlM_nil, pure_ok]
    simp [hused, eq_comm]
  | cons e es ih =>
    obtain ⟨hfirst, hrest⟩ := forall_mem_cons.1 h
    have hseq := hfirst.seq (ih hrest)
    simp only [foldlM_cons, forall_mem_cons, map_cons, sum_cons]
    exact hseq

theorem Metered.seq {next : μ → Except ε μ} (h : Metered limit check) (h' : Metered limit next) :
    Metered limit (fun used => check used >>= next) := by
  obtain ⟨allowed, cost, h⟩ := h
  obtain ⟨allowed', cost', h'⟩ := h'
  exact ⟨_, _, h.seq h'⟩

theorem Metered.foldlM {β : Type} {step : μ → β → Except ε μ} {es : List β}
    (h : ∀ e ∈ es, Metered limit (fun used => step used e)) :
    Metered limit (fun used => es.foldlM step used) := by
  induction es with
  | nil => exact .pure
  | cons e es ih =>
    obtain ⟨hfirst, hrest⟩ := forall_mem_cons.1 h
    have hseq := hfirst.seq (ih hrest)
    simp only [foldlM_cons]
    exact hseq

end Budget
