/-
Malm.Lib.Failures — which error a chain of fail-closed checks ends with.

A failing block is walked from its first check on: either that check fails, with its own
error, or the rest of the block does. The last lemmas say that every error a block can end
with is of a kind.
-/
import Malm.Lib.Checks

namespace Checks

open List

variable {ε α β : Type} {P : ε → Prop}

/-! ## 1. Showing that a block fails -/

def FailsWith (P : ε → Prop) (x : Except ε α) : Prop := ∃ e, x = .error e ∧ P e

variable {x : Except ε α} {f : α → Except ε β} {c : Prop} {e : ε} {found : Option α}

theorem failsWith_bind (h : FailsWith P x ∨ ∃ a, x = .ok a ∧ FailsWith P (f a)) :
    FailsWith P (x >>= f) := by
  rcases h with ⟨e, rfl, hP⟩ | ⟨a, rfl, h⟩
  · exact ⟨e, rfl, hP⟩
  · exact h

theorem failsWith_reject [Decidable c] {f : Unit → Except ε β} (hfail : c → P e)
    (hpass : ¬ c → FailsWith P (f ())) : FailsWith P (reject c e >>= f) := by
  by_cases hc : c
  · exact failsWith_bind (Or.inl ⟨e, if_pos hc, hfail hc⟩)
  · exact failsWith_bind (Or.inr ⟨(), reject_ok.2 hc, hpass hc⟩)

theorem failsWith_rejectSome {e : α → ε} {f : Unit → Except ε β}
    (hfail : ∀ a, found = some a → P (e a)) (hpass : found = none → FailsWith P (f ())) :
    FailsWith P (rejectSome found e >>= f) := by
  cases found with
  | none => exact failsWith_bind (Or.inr ⟨(), rfl, hpass rfl⟩)
  | some a => exact failsWith_bind (Or.inl ⟨e a, rfl, hfail a rfl⟩)

/-! ## 2. Where a block has failed -/

theorem bind_error : (x >>= f) = .error e ↔ x = .error e ∨ ∃ a, x = .ok a ∧ f a = .error e := by
  cases x with
  | error e' => simp [error_bind]
  | ok a => simp [ok_bind]

theorem reject_error [Decidable c] {e' : ε} : reject c e = .error e' ↔ c ∧ e = e' := by
  by_cases hc : c <;> simp [reject, hc]

theorem rejectSome_error {e : α → ε} {e' : ε} :
    rejectSome found e = .error e' ↔ ∃ a, found = some a ∧ e a = e' := by
  cases found <;> simp [rejectSome]

theorem forM_error {f : α → Except ε Unit} {xs : List α} (h : xs.forM f = .error e) :
    ∃ x ∈ xs, f x = .error e := by
  induction xs with
  | nil => cases h
  | cons x xs ih =>
    have hcons : (x :: xs).forM f = (f x >>= fun _ => xs.forM f) := rfl
    rw [hcons, bind_error] at h
    rcases h with h | ⟨-, -, h⟩
    · exact ⟨x, mem_cons_self, h⟩
    · obtain ⟨y, hy, hf⟩ := ih h
      exact ⟨y, mem_cons_of_mem x hy, hf⟩

/-! ## 3. Which errors a block can end with -/

def OnlyFails (P : ε → Prop) (x : Except ε α) : Prop := ∀ e, x = .error e → P e

theorem onlyFails_ok (a : α) : OnlyFails P (.ok a : Except ε α) := by
  intro e h
  cases h

theorem onlyFails_error (h : P e) : OnlyFails P (.error e : Except ε α) := by
  intro e' he
  cases he
  exact h

theorem onlyFails_bind (hx : OnlyFails P x) (hf : ∀ a, x = .ok a → OnlyFails P (f a)) :
    OnlyFails P (x >>= f) := by
  intro e h
  rcases bind_error.1 h with hfirst | ⟨a, ha, hrest⟩
  · exact hx e hfirst
  · exact hf a ha e hrest

theorem onlyFails_reject [Decidable c] (h : c → P e) : OnlyFails P (reject c e) := by
  intro e' he
  obtain ⟨hc, rfl⟩ := reject_error.1 he
  exact h hc

theorem onlyFails_rejectSome {e : α → ε} (h : ∀ a, found = some a → P (e a)) :
    OnlyFails P (rejectSome found e) := by
  intro e' he
  obtain ⟨a, ha, rfl⟩ := rejectSome_error.1 he
  exact h a ha

theorem onlyFails_require (h : found = none → P e) : OnlyFails P (require found e) := by
  cases found with
  | none => exact onlyFails_error (h rfl)
  | some a => exact onlyFails_ok a

theorem onlyFails_mapError {ε' : Type} {x : Except ε' α} {f : ε' → ε}
    (h : OnlyFails (fun e => P (f e)) x) : OnlyFails P (x.mapError f) := by
  cases x with
  | error e => exact onlyFails_error (h e rfl)
  | ok a => exact onlyFails_ok a

theorem onlyFails_mapError_of_all {ε' : Type} {x : Except ε' α} {f : ε' → ε}
    (h : ∀ e, P (f e)) : OnlyFails P (x.mapError f) :=
  onlyFails_mapError fun e _ => h e

theorem onlyFails_forM {f : α → Except ε Unit} {xs : List α}
    (h : ∀ x ∈ xs, OnlyFails P (f x)) : OnlyFails P (xs.forM f) := by
  intro e he
  obtain ⟨x, hx, hf⟩ := forM_error he
  exact h x hx e hf

theorem onlyFails_foldlM {f : β → α → Except ε β} {keeps : β → Prop} :
    ∀ {xs : List α} {start : β}, keeps start →
      (∀ x ∈ xs, ∀ before, keeps before → OnlyFails P (f before x)) →
      (∀ x ∈ xs, ∀ before after, keeps before → f before x = .ok after → keeps after) →
      OnlyFails P (xs.foldlM f start)
  | [], start, _, _, _ => onlyFails_ok start
  | x :: xs, start, hstart, hfails, hkeeps => by
    rw [foldlM_cons]
    refine onlyFails_bind (hfails x mem_cons_self start hstart) fun mid hmiddle => ?_
    exact onlyFails_foldlM (hkeeps x mem_cons_self start mid hstart hmiddle)
      (fun y hy => hfails y (mem_cons_of_mem x hy))
      (fun y hy => hkeeps y (mem_cons_of_mem x hy))

theorem onlyFails_mapM :
    ∀ {xs : List α}, (∀ x ∈ xs, OnlyFails P (f x)) → OnlyFails P (xs.mapM f)
  | [], _ => onlyFails_ok []
  | x :: xs, h => by
    rw [mapM_cons]
    refine onlyFails_bind (h x mem_cons_self) fun v _ => ?_
    exact onlyFails_bind (onlyFails_mapM fun y hy => h y (mem_cons_of_mem x hy))
      fun vs _ => onlyFails_ok _

end Checks
