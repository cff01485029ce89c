/-
Malm.Lib.Routines — routines that keep their state when they fail.

Such a routine maps a state to an outcome and a state. Two kinds of facts are proved
about them: what holds of the state afterwards, whether the routine failed or not, and
that a routine ends like another one that runs on other states, unless it gives up.
Both follow the routine step by step.
-/
import Malm.Lib.Checks

abbrev Routine (ε σ α : Type) := ExceptT ε (StateM σ) α

namespace Routine

variable {ε ε' σ τ α β γ δ : Type}

variable {s s' : σ}

/-! ## 1. Steps -/

/-- A step that leaves the state alone. -/
def lift (result : Except ε α) : Routine ε σ α := fun s => (result, s)

def look (question : σ → α) : Routine ε σ α := fun s => (.ok (question s), s)

variable {x : Routine ε σ α} {f : α → Routine ε σ β}

theorem bind_of_ok {a : α} (h : x s = (.ok a, s')) : (x >>= f) s = f a s' := by
  show StateT.bind x (ExceptT.bindCont f) s = _
  rw [StateT.bind, h]
  rfl

theorem bind_of_error {e : ε} (h : x s = (.error e, s')) :
    (x >>= f) s = (.error e, s') := by
  show StateT.bind x (ExceptT.bindCont f) s = _
  rw [StateT.bind, h]
  rfl

theorem look_bind {question : σ → α} (s : σ) :
    (look question >>= f) s = f (question s) s := rfl

theorem bind_map {g : α → β} {result : Except ε α} (h : x s = (result, s')) :
    (x >>= fun a => pure (g a)) s = (result.map g, s') := by
  cases result with
  | error e => exact bind_of_error h
  | ok a => exact bind_of_ok h

/-! ## 2. What holds afterwards -/

/-- The first property before gives the second after, also for a run that fails. -/
def Ensures (before after : σ → Prop) (x : Routine ε σ α) : Prop :=
  ∀ s, before s → after (x s).2

namespace Ensures

variable {p q r : σ → Prop}

theorem pure (h : ∀ s, p s → q s) (a : α) : Ensures p q (Pure.pure a : Routine ε σ α) :=
  h

theorem lift (h : ∀ s, p s → q s) (result : Except ε α) :
    Ensures p q (lift result : Routine ε σ α) :=
  h

theorem look (h : ∀ s, p s → q s) (question : σ → α) :
    Ensures p q (look question : Routine ε σ α) :=
  h

theorem bind (hmiddle : ∀ s, q s → r s) (hx : Ensures p q x) (hf : ∀ a, Ensures q r (f a)) :
    Ensures p r (x >>= f) := by
  intro s hs
  have hafter := hx s hs
  rcases hrun : x s with ⟨e | a, s'⟩
  · rw [bind_of_error hrun]
    rw [hrun] at hafter
    exact hmiddle s' hafter
  · rw [bind_of_ok hrun]
    rw [hrun] at hafter
    exact hf a s' hafter

theorem keep (hx : Ensures p p x) (hf : ∀ a, Ensures p p (f a)) : Ensures p p (x >>= f) :=
  bind (fun _ hs => hs) hx hf

theorem ite {cond : Prop} [Decidable cond] {y : Routine ε σ α} (hx : Ensures p q x)
    (hy : Ensures p q y) : Ensures p q (if cond then x else y) := by
  split
  · exact hx
  · exact hy

end Ensures

/-! ## 3. Routines that end alike -/

/-- How outcomes are compared: given-up runs, errors, and the states of failed runs. -/
structure Comparison (ε ε' σ τ : Type) where
  gaveUp : ε → σ → Prop
  sameError : ε → ε' → Prop
  failed : σ → τ → Prop

variable {c : Comparison ε ε' σ τ}

/-- The first run has given up, or both have ended alike. -/
inductive Ends (c : Comparison ε ε' σ τ) (after : α → β → σ → τ → Prop) :
    Except ε α × σ → Except ε' β × τ → Prop
  | gaveUp {e : ε} {s : σ} {run : Except ε' β × τ} (h : c.gaveUp e s) :
      Ends c after (.error e, s) run
  | ok {a : α} {b : β} {s : σ} {t : τ} (h : after a b s t) : Ends c after (.ok a, s) (.ok b, t)
  | error {e : ε} {e' : ε'} {s : σ} {t : τ} (herror : c.sameError e e') (hstate : c.failed s t) :
      Ends c after (.error e, s) (.error e', t)

theorem Ends.map {mid : α → β → σ → τ → Prop} {after : γ → δ → σ → τ → Prop} {f : α → γ}
    {g : β → δ} {result : Except ε α} {result' : Except ε' β} {t : τ}
    (h : Ends c mid (result, s) (result', t)) (hmap : ∀ a b, mid a b s t → after (f a) (g b) s t) :
    Ends c after (result.map f, s) (result'.map g, t) := by
  cases h with
  | gaveUp h => exact .gaveUp h
  | ok h => exact .ok (hmap _ _ h)
  | error herror hstate => exact .error herror hstate

/-- Runs from related states end alike. -/
def Simulates (c : Comparison ε ε' σ τ) (before : σ → τ → Prop) (after : α → β → σ → τ → Prop)
    (x : Routine ε σ α) (y : Routine ε' τ β) : Prop :=
  ∀ s t, before s t → Ends c after (x s) (y t)

namespace Simulates

variable {before : σ → τ → Prop} {mid : α → β → σ → τ → Prop} {after : γ → δ → σ → τ → Prop}

theorem pure {a : α} {b : β} (h : ∀ s t, before s t → mid a b s t) :
    Simulates c before mid (Pure.pure a : Routine ε σ α) (Pure.pure b : Routine ε' τ β) := by
  intro s t hst
  exact .ok (h s t hst)

theorem bind {y : Routine ε' τ β} {f : α → Routine ε σ γ} {g : β → Routine ε' τ δ}
    (hx : Simulates c before mid x y) (hf : ∀ a b, Simulates c (mid a b) after (f a) (g b)) :
    Simulates c before after (x >>= f) (y >>= g) := by
  intro s t hst
  have hends := hx s t hst
  rcases hrun : x s with ⟨e | a, s'⟩
  · rw [bind_of_error hrun]
    rw [hrun] at hends
    rcases hother : y t with ⟨e' | b, t'⟩
    · rw [bind_of_error hother]
      rw [hother] at hends
      cases hends with
      | gaveUp h => exact .gaveUp h
      | error herror hstate => exact .error herror hstate
    · rw [hother] at hends
      cases hends with
      | gaveUp h => exact .gaveUp h
  · rw [bind_of_ok hrun]
    rw [hrun] at hends
    rcases hother : y t with ⟨e' | b, t'⟩
    · rw [hother] at hends
      cases hends
    · rw [bind_of_ok hother]
      rw [hother] at hends
      cases hends with
      | ok h => exact hf a b s' t' h

theorem bind_eq {during : α → σ → τ → Prop} {y : Routine ε' τ α} {f : α → Routine ε σ γ}
    {g : α → Routine ε' τ δ} (hx : Simulates c before (fun a b s t => a = b ∧ during a s t) x y)
    (hf : ∀ a, Simulates c (during a) after (f a) (g a)) :
    Simulates c before after (x >>= f) (y >>= g) := by
  refine bind hx fun a b s t hst => ?_
  obtain ⟨rfl, hduring⟩ := hst
  exact hf a s t hduring

theorem ite {cond : Prop} [Decidable cond] {x' : Routine ε σ α} {y y' : Routine ε' τ β}
    (hthen : Simulates c before mid x y) (helse : Simulates c before mid x' y') :
    Simulates c before mid (if cond then x else x') (if cond then y else y') := by
  split
  · exact hthen
  · exact helse

theorem look {question : σ → α} {question' : τ → α}
    (hanswer : ∀ s t, before s t → question s = question' t) :
    Simulates c before (fun a b s t => a = b ∧ before s t)
      (look question : Routine ε σ α) (look question' : Routine ε' τ α) := by
  intro s t hst
  exact .ok ⟨hanswer s t hst, hst⟩

end Simulates

end Routine
