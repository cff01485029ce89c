/-
Malm.Lib.Keyed — lists without a repeated key.

A scan for a key is then a lookup: it finds exactly the elements of the list,
whatever their order.
-/
import Mathlib

namespace Keyed

variable {α κ : Type} {key : α → κ} {list : List α} {element : α} {k : κ}

theorem find?_of_unique {test : α → Bool} (hmem : element ∈ list) (htest : test element = true)
    (hunique : ∀ other ∈ list, test other = true → other = element) :
    list.find? test = some element := by
  cases hfind : list.find? test with
  | none => exact absurd htest (List.find?_eq_none.1 hfind element hmem)
  | some found =>
    rw [hunique found (List.mem_of_find?_eq_some hfind) (List.find?_some hfind)]

variable [DecidableEq κ]

theorem find?_eq_some (hnodup : (list.map key).Nodup) :
    (list.find? fun other => key other = k) = some element ↔ element ∈ list ∧ key element = k := by
  constructor
  · intro hfind
    exact ⟨List.mem_of_find?_eq_some hfind, by simpa using List.find?_some hfind⟩
  · intro h
    obtain ⟨hmem, rfl⟩ := h
    refine find?_of_unique hmem (by simp) ?_
    intro other hother hkey
    exact List.inj_on_of_nodup_map hnodup hother hmem (by simpa using hkey)

end Keyed
