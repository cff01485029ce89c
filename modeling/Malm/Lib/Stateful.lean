/-
Malm.Lib.Stateful — programs over a state that may fail.

A specification says which states a program starts from, what holds of a value and a state
it ends with, and which errors it may end with; there is a rule for each way of putting
programs together.
-/
import Malm.Lib.Checks

abbrev Stateful (σ ε α : Type) := StateT σ (Except ε) α

namespace Stateful

variable {σ ε α β : Type}

/-! ## 1. Steps -/

def fail (e : ε) : Stateful σ ε α := fun _ => .error e

def lift (result : Except ε α) : Stateful σ ε α := fun s => result.map fun a => (a, s)

def look (question : σ → α) : Stateful σ ε α := fun s => .ok (question s, s)

def update (change : σ → σ) : Stateful σ ε Unit := fun s => .ok ((), change s)

theorem bind_apply (x : Stateful σ ε α) (f : α → Stateful σ ε β) (s : σ) :
    (x >>= f) s = x s >>= fun ended => f ended.1 ended.2 := rfl

variable {x : Stateful σ ε α} {f : α → Stateful σ ε β}

theorem bind_ok {s : σ} {ended : β × σ} :
    (x >>= f) s = .ok ended ↔ ∃ a s', x s = .ok (a, s') ∧ f a s' = .ok ended := by
  rw [bind_apply, Checks.bind_ok]
  constructor
  · rintro ⟨⟨a, s'⟩, hx, hf⟩
    exact ⟨a, s', hx, hf⟩
  · rintro ⟨a, s', hx, hf⟩
    exact ⟨(a, s'), hx, hf⟩

theorem bind_error {s : σ} {e : ε} :
    (x >>= f) s = .error e ↔ x s = .error e ∨ ∃ a s', x s = .ok (a, s') ∧ f a s' = .error e := by
  rw [bind_apply]
  rcases hrun : x s with failure | ⟨a, s'⟩
  · simp [Checks.error_bind]
  · simp [Checks.ok_bind]

theorem bind_of_error {s : σ} {e : ε} (h : x s = .error e) : (x >>= f) s = .error e :=
  bind_error.2 (.inl h)

/-! ## 2. Specifications -/

/-- From a state with the first property a run meets the second, or an allowed error. -/
def Meets (allowed : ε → Prop) (before : σ → Prop) (x : Stateful σ ε α) (after : α → σ → Prop) :
    Prop :=
  ∀ s, before s → (∀ e, x s = .error e → allowed e) ∧ ∀ a s', x s = .ok (a, s') → after a s'

namespace Meets

variable {allowed : ε → Prop} {before before' : σ → Prop} {after after' : α → σ → Prop}
  {mid : α → σ → Prop} {behind : β → σ → Prop} {x : Stateful σ ε α}

theorem pure {a : α} (h : ∀ s, before s → after a s) :
    Meets allowed before (Pure.pure a) after := by
  intro s hs
  refine ⟨fun e he => ?_, fun b s' hok => ?_⟩
  · cases he
  · cases hok
    exact h s hs

theorem bind {f : α → Stateful σ ε β} (hx : Meets allowed before x mid)
    (hf : ∀ a, Meets allowed (mid a) (f a) behind) : Meets allowed before (x >>= f) behind := by
  intro s hs
  obtain ⟨herror, hok⟩ := hx s hs
  refine ⟨fun e he => ?_, fun b s' hb => ?_⟩
  · rcases bind_error.1 he with hfirst | ⟨a, s', hfirst, hnext⟩
    · exact herror e hfirst
    · exact (hf a s' (hok a s' hfirst)).1 e hnext
  · obtain ⟨a, s'', hfirst, hnext⟩ := bind_ok.1 hb
    exact (hf a s'' (hok a s'' hfirst)).2 b s' hnext

theorem fail {e : ε} (h : ∀ s, before s → allowed e) :
    Meets allowed before (fail e : Stateful σ ε α) after := by
  intro s hs
  refine ⟨fun e' he => ?_, fun a s' hok => ?_⟩
  · cases he
    exact h s hs
  · cases hok

theorem lift {r : Except ε α} (herror : ∀ e, r = .error e → allowed e)
    (hok : ∀ a, r = .ok a → ∀ s, before s → after a s) :
    Meets allowed before (lift r) after := by
  intro s hs
  cases r with
  | error e =>
    refine ⟨fun e' he => ?_, fun a s' hrun => ?_⟩
    · cases he
      exact herror e rfl
    · cases hrun
  | ok a =>
    refine ⟨fun e he => ?_, fun b s' hrun => ?_⟩
    · cases he
    · cases hrun
      exact hok a rfl s hs

theorem update {change : σ → σ} {after : Unit → σ → Prop}
    (h : ∀ s, before s → after () (change s)) :
    Meets allowed before (update change) after := by
  intro s hs
  refine ⟨fun e he => ?_, fun a s' hrun => ?_⟩
  · cases he
  · cases hrun
    exact h s hs

theorem ite {cond : Prop} [Decidable cond] {y : Stateful σ ε α}
    (hx : cond → Meets allowed before x after)
    (hy : ¬ cond → Meets allowed before y after) :
    Meets allowed before (if cond then x else y) after := by
  split
  · exact hx ‹_›
  · exact hy ‹_›

theorem weaken (h : Meets allowed before x after) (hbefore : ∀ s, before' s → before s)
    (hafter : ∀ a s, after a s → after' a s) : Meets allowed before' x after' := by
  intro s hs
  obtain ⟨herror, hok⟩ := h s (hbefore s hs)
  exact ⟨herror, fun a s' hrun => hafter a s' (hok a s' hrun)⟩

theorem at_each (h : ∀ start, before start → Meets allowed (· = start) x after) :
    Meets allowed before x after :=
  fun s hs => h s hs s rfl

theorem given {fact : Prop} (h : fact → Meets allowed before x after) :
    Meets allowed (fun s => fact ∧ before s) x after :=
  fun s hs => h hs.1 s hs.2

theorem forM {γ : Type} {body : γ → Stateful σ ε Unit} {keeps : σ → Prop} :
    ∀ {items : List γ}, (∀ item ∈ items, Meets allowed keeps (body item) fun _ => keeps) →
      Meets allowed keeps (items.forM body) fun _ => keeps
  | [], _ => pure fun _ hs => hs
  | first :: _, h =>
    bind (h first List.mem_cons_self) fun _ =>
      forM fun item hitem => h item (List.mem_cons_of_mem first hitem)

/-! ## 3. From one state -/

section From

variable {s s' : σ} {f : α → Stateful σ ε β}

theorem step {a : α} (hx : x s = .ok (a, s')) (hf : Meets allowed (· = s') (f a) behind) :
    Meets allowed (· = s) (x >>= f) behind := by
  rintro start rfl
  have hrun : (x >>= f) start = f a s' := by rw [bind_apply, hx]; rfl
  rw [hrun]
  exact hf s' rfl

theorem look_step {question : σ → α} (hf : Meets allowed (· = s) (f (question s)) behind) :
    Meets allowed (· = s) (look question >>= f) behind :=
  step rfl hf

theorem update_step {change : σ → σ} {g : Unit → Stateful σ ε β}
    (hg : Meets allowed (· = change s) (g ()) behind) :
    Meets allowed (· = s) (Stateful.update change >>= g) behind :=
  step rfl hg

theorem lift_step {r : Except ε α} (herror : ∀ e, r = .error e → allowed e)
    (hf : ∀ a, r = .ok a → Meets allowed (· = s) (f a) behind) :
    Meets allowed (· = s) (Stateful.lift r >>= f) behind := by
  cases r with
  | error e =>
    intro start _
    refine ⟨fun e' he => ?_, fun b s' hok => ?_⟩
    · cases he
      exact herror e rfl
    · cases hok
  | ok a => exact step rfl (hf a rfl)

end From

end Meets

end Stateful
