/-
Malm.Lib.Depends — checks that look at some entries of a table.

`DependsOn f keys` says that `f` gives the same on tables that agree on
`keys`. The lemmas follow the way a check is put together: a sequence depends
on what its steps depend on, a loop on what its rounds depend on.
-/
import Malm.Lib.Checks

variable {κ ν α β ε : Type} {keys : Set κ}

namespace DependsOn

theorem const (a : α) : DependsOn (fun _ : κ → ν => a) keys := fun _ _ _ => rfl

theorem bind {f : (κ → ν) → Except ε α} {g : α → (κ → ν) → Except ε β}
    (hf : DependsOn f keys) (hg : ∀ a, DependsOn (g a) keys) :
    DependsOn (fun table => f table >>= fun a => g a table) keys := by
  intro left right hagree
  show (f left >>= fun a => g a left) = (f right >>= fun a => g a right)
  rw [hf hagree]
  congr 1
  funext a
  exact hg a hagree

theorem forM {f : α → (κ → ν) → Except ε Unit} :
    ∀ {list : List α}, (∀ a ∈ list, DependsOn (f a) keys) →
      DependsOn (fun table => list.forM fun a => f a table) keys
  | [], _ => const _
  | a :: rest, h => by
    have hrest : DependsOn (fun table => rest.forM fun a => f a table) keys :=
      forM fun other hother => h other (List.mem_cons_of_mem a hother)
    exact bind (h a List.mem_cons_self) fun _ => hrest

theorem update_eq [DecidableEq κ] {f : (κ → ν) → α} (h : DependsOn f keys) {key : κ}
    (hkey : key ∉ keys) (table : κ → ν) (v : ν) :
    f (Function.update table key v) = f table := by
  refine h fun other hother => Function.update_of_ne ?_ v table
  intro heq
  rw [heq] at hother
  exact hkey hother

end DependsOn
