/-
Malm.Lib.Least — loops that keep the least candidate they meet.

Such a loop holds an `Option`: nothing yet, or the least candidate so far.
`IsLeastOf` says what it holds in terms of the candidates alone, so two
loops over the same candidates, in whatever order, hold the same
(`IsLeastOf.unique`).
-/
import Mathlib

namespace Least

variable {α : Type} [LinearOrder α] {p q : α → Prop} {found other : Option α}

/-- `found` is the least element with the property, if there is any. -/
def IsLeastOf (p : α → Prop) : Option α → Prop
  | none => ∀ a, ¬ p a
  | some least => p least ∧ ∀ a, p a → least ≤ a

def keep (found : Option α) (candidate : α) : Option α :=
  match found with
  | none => some candidate
  | some current => if candidate < current then some candidate else some current

theorem IsLeastOf.unique (h : IsLeastOf p found) (h' : IsLeastOf p other) : found = other := by
  cases found with
  | none =>
    cases other with
    | none => rfl
    | some least => exact absurd h'.1 (h least)
  | some least =>
    cases other with
    | none => exact absurd h.1 (h' least)
    | some least' => rw [le_antisymm (h.2 least' h'.1) (h'.2 least h.1)]

theorem IsLeastOf.congr (hpq : ∀ a, p a ↔ q a) (h : IsLeastOf p found) : IsLeastOf q found := by
  have : p = q := funext fun a => propext (hpq a)
  rwa [← this]

theorem IsLeastOf.eq_none_iff (h : IsLeastOf p found) : found = none ↔ ∀ a, ¬ p a := by
  cases found with
  | none => simpa [IsLeastOf] using h
  | some least => simpa using ⟨least, h.1⟩

theorem IsLeastOf.keep {cand : α} (h : IsLeastOf p found) :
    IsLeastOf (fun a => p a ∨ a = cand) (keep found cand) := by
  cases found with
  | none =>
    refine ⟨Or.inr rfl, ?_⟩
    intro a ha
    rcases ha with ha | rfl
    · exact absurd ha (h a)
    · exact le_rfl
  | some cur =>
    show IsLeastOf _ (if cand < cur then some cand else some cur)
    by_cases hlt : cand < cur
    · rw [if_pos hlt]
      refine ⟨Or.inr rfl, ?_⟩
      intro a ha
      rcases ha with ha | rfl
      · exact le_of_lt (lt_of_lt_of_le hlt (h.2 a ha))
      · exact le_rfl
    · rw [if_neg hlt]
      refine ⟨Or.inl h.1, ?_⟩
      intro a ha
      rcases ha with ha | rfl
      · exact h.2 a ha
      · exact not_lt.1 hlt

end Least
