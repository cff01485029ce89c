/-
Malm.Lib.Durable — programs over durable state that may stop between any
two of their steps.

A program changes a state in atomic steps. Its outcome records the result and every
state it left on its way, so the states a crash can leave behind are `crashStates`.
`Restarts p` closes a crash under running `p` again, any number of times.
-/
import Mathlib

namespace Durable

/-! ## 1. Programs -/

/-- What a run leaves: the states passed, the final state, and the result. -/
structure Outcome (σ ε α : Type) where
  passed : List σ
  state : σ
  result : Except ε α

def Program (σ ε α : Type) : Type := σ → Outcome σ ε α

namespace Program

variable {σ ε α β : Type}

/-- Return a value without touching the state. -/
def ret (a : α) : Program σ ε α := fun s => ⟨[], s, .ok a⟩

def fail (e : ε) : Program σ ε α := fun s => ⟨[], s, .error e⟩

def step (f : σ → σ) : Program σ ε Unit := fun s => ⟨[s], f s, .ok ()⟩

def read : Program σ ε σ := fun s => ⟨[], s, .ok s⟩

/-- Run `p`, then `q` on its result. An error of `p` skips `q`. -/
def bind (p : Program σ ε α) (q : α → Program σ ε β) : Program σ ε β := fun s =>
  match (p s).result with
  | .ok a =>
    ⟨(p s).passed ++ (q a (p s).state).passed, (q a (p s).state).state,
      (q a (p s).state).result⟩
  | .error e => ⟨(p s).passed, (p s).state, .error e⟩

instance : Monad (Program σ ε) where
  pure := ret
  bind := bind

def lift (result : Except ε α) : Program σ ε α := fun s => ⟨[], s, result⟩

def check (f : σ → Except ε α) : Program σ ε α := fun s => ⟨[], s, f s⟩

/-- The states a crash during `p` can leave behind. -/
def crashStates (p : Program σ ε α) (s : σ) : List σ := (p s).passed ++ [(p s).state]

/-! The runs of the constructors. `bind_run` is stated on the parts of the
first run, so that `simp` follows a program whose first run is known. -/

theorem pure_run (a : α) (s : σ) : (pure a : Program σ ε α) s = ⟨[], s, .ok a⟩ := rfl

theorem fail_run (e : ε) (s : σ) : (fail e : Program σ ε α) s = ⟨[], s, .error e⟩ := rfl

theorem step_run (f : σ → σ) (s : σ) : (step f : Program σ ε Unit) s = ⟨[s], f s, .ok ()⟩ := rfl

theorem read_run (s : σ) : (read : Program σ ε σ) s = ⟨[], s, .ok s⟩ := rfl

theorem lift_run (r : Except ε α) (s : σ) :
    (lift r : Program σ ε α) s = ⟨[], s, r⟩ := rfl

theorem check_run (f : σ → Except ε α) (s : σ) :
    (check f : Program σ ε α) s = ⟨[], s, f s⟩ := rfl

theorem bind_run (p : Program σ ε α) (q : α → Program σ ε β) (s : σ) :
    (p >>= q) s = match (p s).result with
      | .ok a =>
        ⟨(p s).passed ++ (q a (p s).state).passed, (q a (p s).state).state,
          (q a (p s).state).result⟩
      | .error e => ⟨(p s).passed, (p s).state, .error e⟩ := rfl

theorem mem_crashStates {p : Program σ ε α} {s t : σ} :
    t ∈ p.crashStates s ↔ t ∈ (p s).passed ∨ t = (p s).state := by
  simp [crashStates]

end Program

/-! ## 2. Restarted programs -/

variable {σ ε α : Type}

/-- The states left by runs of `p` from `s`, each stopped at one of its crash states. -/
inductive Restarts (p : Program σ ε α) (s : σ) : σ → Prop
  | none : Restarts p s s
  | again {t u : σ} : Restarts p s t → u ∈ p.crashStates t → Restarts p s u

/-- What every run of `p` keeps across a crash, any number of restarted
runs keep. -/
theorem Restarts.invariant {p : Program σ ε α} {I : σ → Prop} {s t : σ}
    (hstep : ∀ s, I s → ∀ u ∈ p.crashStates s, I u) (hs : I s) (h : Restarts p s t) : I t := by
  induction h with
  | none => exact hs
  | again _ hu ih => exact hstep _ ih _ hu

end Durable
