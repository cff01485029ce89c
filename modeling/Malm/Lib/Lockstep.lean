/-
Malm.Lib.Lockstep — two computations that fail together.

Two runs of one fail-closed program on related states are in lockstep
when both fail with the same error or both succeed with related results.
The rules follow the ways such programs are put together.
-/
import Malm.Lib.Checks

namespace Checks

open List

variable {ε α β γ δ : Type}

/-- Both fail with the same error, or both succeed and the results are related. -/
inductive Lockstep (r : α → β → Prop) : Except ε α → Except ε β → Prop
  | ok {a : α} {b : β} (related : r a b) : Lockstep r (.ok a) (.ok b)
  | error (e : ε) : Lockstep r (.error e) (.error e)

namespace Lockstep

variable {r : α → β → Prop} {x : Except ε α}

theorem bind {s : γ → δ → Prop} {y : Except ε β} {f : α → Except ε γ} {g : β → Except ε δ}
    (hx : Lockstep r x y) (hf : ∀ a b, r a b → Lockstep s (f a) (g b)) :
    Lockstep s (x >>= f) (y >>= g) := by
  cases hx with
  | ok related => exact hf _ _ related
  | error e => exact .error e

theorem bind_eq {s : γ → δ → Prop} {y : Except ε α} {f : α → Except ε γ} {g : α → Except ε δ}
    (hx : x = y) (hf : ∀ a, x = .ok a → Lockstep s (f a) (g a)) :
    Lockstep s (x >>= f) (y >>= g) := by
  subst hx
  cases hres : x with
  | error e => exact .error e
  | ok a => exact hf a hres

/-- What is related was computed. -/
theorem with_ok {y : Except ε β} (h : Lockstep r x y) :
    Lockstep (fun a b => x = .ok a ∧ r a b) x y := by
  cases h with
  | ok related => exact .ok ⟨rfl, related⟩
  | error e => exact .error e

theorem mapError {ε' : Type} {y : Except ε β} (f : ε → ε') (h : Lockstep r x y) :
    Lockstep r (x.mapError f) (y.mapError f) := by
  cases h with
  | ok related => exact .ok related
  | error e => exact .error (f e)

theorem foldlM {f : α → γ → Except ε α} {g : β → γ → Except ε β} :
    ∀ {items : List γ} {a : α} {b : β},
      (∀ item ∈ items, ∀ a b, r a b → Lockstep r (f a item) (g b item)) → r a b →
      Lockstep r (items.foldlM f a) (items.foldlM g b)
  | [], _, _, _, hrelated => .ok hrelated
  | item :: rest, a, b, hstep, hrelated => by
    rw [foldlM_cons, foldlM_cons]
    refine bind (hstep item mem_cons_self a b hrelated) fun a' b' hrelated' => ?_
    exact foldlM (fun item' hitem => hstep item' (mem_cons_of_mem _ hitem)) hrelated'

end Lockstep

theorem bind_congr_ok {x : Except ε α} {f g : α → Except ε β}
    (h : ∀ a, x = .ok a → f a = g a) : x >>= f = x >>= g := by
  cases hx : x with
  | error e => rfl
  | ok a => exact h a hx

/-! ## Programs that accept alike

Two programs with errors of their own accept alike when one succeeds exactly
where the other does, on states that correspond along a map. -/

section Alike

variable {ε' σ τ : Type} {image : σ → τ}

theorem foldlM_image {f : σ → α → Except ε σ} {g : τ → α → Except ε' τ} :
    ∀ {xs : List α},
      (∀ x ∈ xs, ∀ before after,
        g (image before) x = .ok after ↔ ∃ next, f before x = .ok next ∧ image next = after) →
      ∀ before after, xs.foldlM g (image before) = .ok after ↔
        ∃ next, xs.foldlM f before = .ok next ∧ image next = after
  | [], _, before, after => by
    simp only [foldlM_nil, pure_ok, exists_eq_left']
  | x :: xs, hstep, before, after => by
    have hrest := foldlM_image fun y hy => hstep y (mem_cons_of_mem _ hy)
    simp only [foldlM_cons, bind_ok, hstep x mem_cons_self]
    constructor
    · rintro ⟨_, ⟨mid, hmiddle, rfl⟩, htail⟩
      obtain ⟨next, hnext, rfl⟩ := (hrest mid after).1 htail
      exact ⟨next, ⟨mid, hmiddle, hnext⟩, rfl⟩
    · rintro ⟨next, ⟨mid, hmiddle, hnext⟩, rfl⟩
      exact ⟨image mid, ⟨mid, hmiddle, rfl⟩, (hrest mid _).2 ⟨next, hnext, rfl⟩⟩

theorem mapM_alike {f : α → Except ε β} {g : α → Except ε' β}
    (h : ∀ x y, f x = .ok y ↔ g x = .ok y) :
    ∀ {xs : List α} {ys : List β}, xs.mapM f = .ok ys ↔ xs.mapM g = .ok ys
  | [], ys => by simp only [mapM_nil, pure_ok]
  | x :: xs, ys => by
    have hrest : ∀ zs, xs.mapM f = .ok zs ↔ xs.mapM g = .ok zs := fun _ => mapM_alike h
    simp only [mapM_cons, bind_ok, pure_ok, h, hrest]

end Alike

end Checks
