/-
Malm.Lib.Scan — read-only checkers that collect findings instead of stopping.

A scan is a state transformer whose state holds the findings so far; a failure is
never taken back. `Emits` describes what a scan does when it has not failed at its
end, so a proof about a clean report never follows an error branch. `sound` says
that the notes a state may keep agree with the findings.
-/
import Mathlib

namespace Scan

open List

/-- How a scan's state is read: findings, failure, and the agreement of its notes. -/
structure Ledger (σ φ : Type) where
  findings : σ → List φ
  failed : σ → Prop
  sound : σ → Prop

variable {σ φ α β : Type} (ledger : Ledger σ φ)

structure Outcome (state after : σ) (emitted : List φ) : Prop where
  before : ¬ ledger.failed state
  findings : ledger.findings after = ledger.findings state ++ emitted

/-- **A scan that does not fail** returns a value and appends findings related by `post`. -/
structure Emits (scan : StateM σ α) (post : α → List φ → Prop) : Prop where
  sound : ∀ state, ledger.sound state → ledger.sound (scan.run state).2
  clean : ∀ state, ledger.sound state → ¬ ledger.failed (scan.run state).2 →
    ∃ emitted, Outcome ledger state (scan.run state).2 emitted ∧
      post (scan.run state).1 emitted

variable {ledger}

/-! ## 1. Rules -/

theorem Emits.mono {scan : StateM σ α} {post weaker : α → List φ → Prop}
    (h : Emits ledger scan post) (himp : ∀ v emitted, post v emitted → weaker v emitted) :
    Emits ledger scan weaker := by
  refine ⟨h.sound, ?_⟩
  intro s hsound hclean
  obtain ⟨emitted, houtcome, hpost⟩ := h.clean s hsound hclean
  exact ⟨emitted, houtcome, himp _ _ hpost⟩

theorem emits_pure (v : α) :
    Emits ledger (pure v) fun r emitted => r = v ∧ emitted = [] := by
  refine ⟨fun _ h => h, ?_⟩
  intro s _ hclean
  exact ⟨[], ⟨hclean, (append_nil _).symm⟩, rfl, rfl⟩

theorem Emits.bind {scan : StateM σ α} {next : α → StateM σ β} {first : α → List φ → Prop}
    {snd : α → β → List φ → Prop} (hscan : Emits ledger scan first)
    (hnext : ∀ v, Emits ledger (next v) (snd v)) :
    Emits ledger (scan >>= next) fun r emitted => ∃ v begun rest,
      first v begun ∧ snd v r rest ∧ emitted = begun ++ rest := by
  refine ⟨fun s h => (hnext _).sound _ (hscan.sound s h), ?_⟩
  intro s hsound hclean
  obtain ⟨rest, hrest, hsecond⟩ := (hnext _).clean _ (hscan.sound s hsound) hclean
  obtain ⟨begun, hbegun, hfirst⟩ := hscan.clean s hsound hrest.before
  refine ⟨begun ++ rest, ⟨hbegun.before, ?_⟩, _, begun, rest, hfirst, hsecond, rfl⟩
  rw [← append_assoc, ← hbegun.findings]
  exact hrest.findings

theorem Emits.ite {c : Prop} {inst : Decidable c} {yes no : StateM σ α} {whenYes whenNo : α → List φ → Prop}
    (hyes : Emits ledger yes whenYes) (hno : Emits ledger no whenNo) :
    Emits ledger (if c then yes else no) fun r emitted =>
      c ∧ whenYes r emitted ∨ ¬ c ∧ whenNo r emitted := by
  by_cases h : c
  · rw [if_pos h]
    exact hyes.mono fun _ _ hpost => Or.inl ⟨h, hpost⟩
  · rw [if_neg h]
    exact hno.mono fun _ _ hpost => Or.inr ⟨h, hpost⟩

theorem emits_modify {change : σ → σ}
    (hfindings : ∀ s, ledger.findings (change s) = ledger.findings s)
    (hfailed : ∀ s, ledger.failed (change s) ↔ ledger.failed s)
    (hsound : ∀ s, ledger.sound s → ledger.sound (change s)) :
    Emits ledger (modify change) fun _ emitted => emitted = [] := by
  refine ⟨hsound, ?_⟩
  intro s _ hclean
  refine ⟨[], ⟨?_, ?_⟩, rfl⟩
  · exact fun hfailed' => hclean ((hfailed s).2 hfailed')
  · rw [append_nil]
    exact hfindings s

/-! ## 2. Loops -/

/-- A loop that threads a value keeps an invariant that every step keeps. -/
theorem emits_foldlM {step : β → α → StateM σ β} {post : β → α → β → List φ → Prop}
    (hstep : ∀ v e, Emits ledger (step v e) (post v e))
    (inv : List α → β → List φ → Prop)
    (hinv : ∀ done v emitted e next more, inv done v emitted →
      post v e next more → inv (done ++ [e]) next (emitted ++ more)) :
    ∀ (es : List α) (v : β), Emits ledger (es.foldlM step v)
      fun r more => ∀ done emitted, inv done v emitted →
        inv (done ++ es) r (emitted ++ more)
  | [], v => by
    rw [foldlM_nil]
    refine (emits_pure v).mono ?_
    rintro r more ⟨rfl, rfl⟩ done emitted hstart
    rw [append_nil, append_nil]
    exact hstart
  | e :: es, v => by
    rw [foldlM_cons]
    refine ((hstep v e).bind fun next => emits_foldlM hstep inv hinv es next).mono ?_
    rintro r more ⟨next, begun, rest, hpost, hrest, rfl⟩ done emitted hstart
    have hall := hrest _ _ (hinv _ _ _ _ _ _ hstart hpost)
    rw [append_assoc, append_assoc] at hall
    exact hall

theorem emits_forM {step : α → StateM σ Unit} {post : α → List φ → Prop}
    (hstep : ∀ e, Emits ledger (step e) fun _ emitted => post e emitted)
    (inv : List α → List φ → Prop)
    (hinv : ∀ done emitted e more, inv done emitted → post e more →
      inv (done ++ [e]) (emitted ++ more)) :
    ∀ es : List α, Emits ledger (es.forM step) fun _ more => ∀ done emitted,
      inv done emitted → inv (done ++ es) (emitted ++ more)
  | [] => by
    refine (@emits_pure σ φ Unit ledger ()).mono ?_
    rintro - more ⟨-, rfl⟩ done emitted hstart
    rw [append_nil, append_nil]
    exact hstart
  | e :: es => by
    refine ((hstep e).bind fun _ => emits_forM hstep inv hinv es).mono ?_
    rintro - more ⟨-, begun, rest, hpost, hrest, rfl⟩ done emitted hstart
    have hall := hrest _ _ (hinv _ _ _ _ hstart hpost)
    rw [append_assoc, append_assoc] at hall
    exact hall

theorem emits_checks {step : α → StateM σ Unit} {fact : α → Prop}
    (hstep : ∀ e, Emits ledger (step e) fun _ emitted => fact e ∧ emitted = [])
    (es : List α) : Emits ledger (es.forM step) fun _ emitted =>
      (∀ e ∈ es, fact e) ∧ emitted = [] := by
  refine (emits_forM hstep
    (fun done emitted => (∀ e ∈ done, fact e) ∧ emitted = []) ?_ es).mono ?_
  · rintro done _ e _ ⟨hdone, rfl⟩ ⟨hfact, rfl⟩
    refine ⟨?_, rfl⟩
    intro other hother
    rcases mem_append.1 hother with hother | hother
    · exact hdone other hother
    · exact mem_singleton.1 hother ▸ hfact
  · rintro - emitted h
    exact h [] [] ⟨by simp, rfl⟩

end Scan
