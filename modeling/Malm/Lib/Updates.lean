/-
Malm.Lib.Updates — partial updates of a state that commute.

An update is a function `σ → Option σ`, and a run stops at the first that fails. A
run of pairwise commuting updates does not depend on their order (`run_perm`).
Updates of parts of a state are written through a `Focus`, and those of independent
parts commute (`Focus.lift_commute_of_independent`).
-/
import Mathlib

namespace Updates

open List Option

variable {σ α β ι : Type}

/-! ## 1. Runs -/

def run (apply : ι → σ → Option σ) (updates : List ι) (s : σ) : Option σ :=
  updates.foldlM (fun s update => apply update s) s

@[simp] theorem run_nil (apply : ι → σ → Option σ) (s : σ) : run apply [] s = some s := rfl

@[simp] theorem run_cons (apply : ι → σ → Option σ) (first : ι) (rest : List ι) (s : σ) :
    run apply (first :: rest) s = (apply first s).bind (run apply rest) := rfl

theorem run_append (apply : ι → σ → Option σ) (front behind : List ι) (s : σ) :
    run apply (front ++ behind) s = (run apply front s).bind (run apply behind) := by
  rw [run, foldlM_append]
  rfl

/-! ## 2. Commuting updates -/

/-- Both orders succeed on the same states, and end in the same one. -/
def Commute (f g : σ → Option σ) : Prop := ∀ s, (f s).bind g = (g s).bind f

theorem Commute.symm {f g : σ → Option σ} (h : Commute f g) : Commute g f :=
  fun s => (h s).symm

variable {apply : ι → σ → Option σ}

theorem Commute.run_right {f : σ → Option σ} :
    ∀ {updates : List ι}, (∀ update ∈ updates, Commute f (apply update)) →
      Commute f (run apply updates)
  | [], _, s => by
    cases hf : f s <;> simp [hf]
  | first :: rest, h, s => by
    have hfirst : Commute f (apply first) := h first mem_cons_self
    have hrest : Commute f (run apply rest) :=
      Commute.run_right fun update hupdate => h update (mem_cons_of_mem _ hupdate)
    calc (f s).bind (run apply (first :: rest))
        = ((f s).bind (apply first)).bind (run apply rest) := by
          cases f s <;> simp
      _ = ((apply first s).bind f).bind (run apply rest) := by rw [hfirst s]
      _ = (apply first s).bind fun t => (f t).bind (run apply rest) := bind_assoc _ _ _
      _ = (apply first s).bind fun t => (run apply rest t).bind f := by
          congr 1
          funext t
          exact hrest t
      _ = (run apply (first :: rest) s).bind f := by
          rw [run_cons, bind_assoc]

theorem Commute.run_run {left right : List ι}
    (h : ∀ a ∈ left, ∀ b ∈ right, Commute (apply a) (apply b)) :
    Commute (run apply left) (run apply right) :=
  Commute.run_right fun b hb =>
    (Commute.run_right fun a ha => (h a ha b hb).symm).symm

theorem run_perm {left right : List ι} (hperm : left.Perm right)
    (h : ∀ a ∈ left, ∀ b ∈ left, Commute (apply a) (apply b)) (s : σ) :
    run apply left s = run apply right s := by
  induction hperm generalizing s with
  | nil => rfl
  | cons first hrest ih =>
    rw [run_cons, run_cons]
    congr 1
    funext t
    exact ih (fun a ha b hb =>
      h a (mem_cons_of_mem _ ha) b (mem_cons_of_mem _ hb)) t
  | swap first snd rest =>
    have hswap := h snd mem_cons_self first (mem_cons_of_mem _ mem_cons_self) s
    rw [run_cons, run_cons]
    calc (apply snd s).bind (run apply (first :: rest))
        = ((apply snd s).bind (apply first)).bind (run apply rest) :=
          (bind_assoc _ _ _).symm
      _ = ((apply first s).bind (apply snd)).bind (run apply rest) := by rw [hswap]
      _ = (apply first s).bind (run apply (snd :: rest)) := bind_assoc _ _ _
  | trans hleft hright ihleft ihright =>
    rw [ihleft h s]
    exact ihright (fun a ha b hb => h a (hleft.mem_iff.2 ha) b (hleft.mem_iff.2 hb)) s

/-! ## 3. Parts of a state -/

structure Focus (σ α : Type) where
  get : σ → α
  set : α → σ → σ
  get_set : ∀ a s, get (set a s) = a
  set_set : ∀ a b s, set a (set b s) = set a s

namespace Focus

def lift (focus : Focus σ α) (f : α → Option α) (s : σ) : Option σ :=
  (f (focus.get s)).map fun a => focus.set a s

theorem lift_commute {focus : Focus σ α} {f g : α → Option α} (h : Commute f g) :
    Commute (focus.lift f) (focus.lift g) := by
  have htwice : ∀ (f g : α → Option α) (s : σ), (focus.lift f s).bind (focus.lift g) =
      ((f (focus.get s)).bind g).map fun a => focus.set a s := by
    intro f g s
    cases hf : f (focus.get s) with
    | none => simp [lift, hf]
    | some a =>
      cases hg : g a with
      | none => simp [lift, hf, hg, focus.get_set]
      | some b => simp [lift, hf, hg, focus.get_set, focus.set_set]
  intro s
  rw [htwice, htwice, h]

/-- Two parts of a state without overlap. -/
structure Independent (first : Focus σ α) (second : Focus σ β) : Prop where
  get_first : ∀ b s, first.get (second.set b s) = first.get s
  get_second : ∀ a s, second.get (first.set a s) = second.get s
  set_comm : ∀ a b s, first.set a (second.set b s) = second.set b (first.set a s)

theorem lift_commute_of_independent {first : Focus σ α} {snd : Focus σ β}
    (h : Independent first snd) (f : α → Option α) (g : β → Option β) :
    Commute (first.lift f) (snd.lift g) := by
  intro s
  cases hf : f (first.get s) with
  | none =>
    cases hg : g (snd.get s) <;> simp [lift, hf, hg, h.get_first]
  | some a =>
    cases hg : g (snd.get s) with
    | none => simp [lift, hf, hg, h.get_second]
    | some b => simp [lift, hf, hg, h.get_first, h.get_second, h.set_comm]

end Focus

end Updates
