/-
Malm.Lib.Transducer — scanners that read one character at a time.

A character takes the state of a scanner to another one, closes what is scanned,
or is refused; `feed` closes nothing and `scan` runs up to the closing character.
An escaper writes each character so that the scanner is back in its state
afterwards, and the scanner then reads what was escaped (`scan_flatMap`).
-/
import Malm.Lib.Bytes

namespace Transducer

open Option List

/-- What one character does to a scanner. -/
inductive Move (σ α : Type) where
  | go (state : σ) (written : List α)
  | close (written : List α)
  | refuse

variable {σ α τ : Type} (step : σ → Char → Move σ α)

/-- A run over a text inside of what is scanned. -/
def feed : σ → List Char → Option (σ × List α)
  | state, [] => some (state, [])
  | state, character :: rest =>
    match step state character with
    | .go next written => (feed next rest).map fun after => (after.1, written ++ after.2)
    | _ => none

/-- A run up to the closing character: what was written, and the text behind it. -/
def scan : σ → List Char → Option (List α × List Char)
  | _, [] => none
  | state, character :: rest =>
    match step state character with
    | .go next written => (scan next rest).map fun found => (written ++ found.1, found.2)
    | .close written => some (written, rest)
    | .refuse => none

variable {step}

/-! ## 1. Runs one after the other -/

@[simp] theorem feed_nil (state : σ) : feed step state [] = some (state, []) := rfl

variable {state next : σ} {written : List α} {rest text : List Char}

theorem feed_cons {c : Char} (h : step state c = .go next written) :
    feed step state (c :: rest) =
      (feed step next rest).map fun after => (after.1, written ++ after.2) := by
  rw [feed, h]

theorem feed_append {after : σ} {first snd : List Char} {more : List α}
    (hfirst : feed step state first = some (next, written))
    (hsecond : feed step next snd = some (after, more)) :
    feed step state (first ++ snd) = some (after, written ++ more) := by
  induction first generalizing state written with
  | nil =>
    obtain ⟨rfl, rfl⟩ : state = next ∧ ([] : List α) = written := by simpa using hfirst
    simpa using hsecond
  | cons c rest ih =>
    rw [cons_append, feed]
    rw [feed] at hfirst
    cases hstep : step state c with
    | go mid output =>
      simp only [hstep, map_eq_some_iff, Prod.exists, Prod.mk.injEq] at hfirst
      obtain ⟨last, between, hrest, rfl, rfl⟩ := hfirst
      simp [ih hrest]
    | close output => simp [hstep] at hfirst
    | refuse => simp [hstep] at hfirst

theorem feed_flatMap {escape : Char → List Char} {meaning : Char → List α}
    (h : ∀ c ∈ text, feed step state (escape c) = some (state, meaning c)) :
    feed step state (text.flatMap escape) = some (state, text.flatMap meaning) := by
  induction text with
  | nil => rfl
  | cons c rest ih =>
    have hfirst := h c (by simp)
    have hrest := ih fun other hother => h other (by simp [hother])
    exact feed_append hfirst hrest

theorem scan_append (h : feed step state text = some (next, written)) :
    scan step state (text ++ rest) =
      (scan step next rest).map fun found => (written ++ found.1, found.2) := by
  induction text generalizing state written with
  | nil =>
    obtain ⟨rfl, rfl⟩ : state = next ∧ ([] : List α) = written := by simpa using h
    simp
  | cons c tail ih =>
    rw [cons_append, scan]
    rw [feed] at h
    cases hstep : step state c with
    | go mid output =>
      simp only [hstep, map_eq_some_iff, Prod.exists, Prod.mk.injEq] at h
      obtain ⟨last, between, hrest, rfl, rfl⟩ := h
      simp [ih hrest, Function.comp_def]
    | close output => simp [hstep] at h
    | refuse => simp [hstep] at h

/-- **Escaped and closed, a text is read to its end**, and to no further. -/
theorem scan_flatMap {escape : Char → List Char} {meaning : Char → List α} {quote : Char}
    (h : ∀ c ∈ text, feed step state (escape c) = some (state, meaning c))
    (hclose : step state quote = .close []) :
    scan step state (text.flatMap escape ++ quote :: rest) = some (text.flatMap meaning, rest) := by
  rw [scan_append (feed_flatMap h), scan, hclose]
  simp

theorem scan_eq_some (h : scan step state text = some (written, rest)) :
    ∃ body quote last before closing, text = body ++ quote :: rest ∧
      feed step state body = some (last, before) ∧ step last quote = .close closing ∧
        written = before ++ closing := by
  induction text generalizing state written with
  | nil => simp [scan] at h
  | cons c tail ih =>
    rw [scan] at h
    cases hstep : step state c with
    | go mid output =>
      simp only [hstep, map_eq_some_iff, Prod.exists, Prod.mk.injEq] at h
      obtain ⟨found, after, hscan, houtput, rfl⟩ := h
      obtain ⟨body, quote, last, before, closing, rfl, hfeed, hclose, hwritten⟩ := ih hscan
      refine ⟨c :: body, quote, last, output ++ before, closing, rfl, ?_, hclose, ?_⟩
      · rw [feed_cons hstep, hfeed]
        rfl
      · rw [← houtput, hwritten, append_assoc]
    | close closing =>
      simp only [hstep, some.injEq, Prod.mk.injEq] at h
      obtain ⟨rfl, rfl⟩ := h
      exact ⟨[], c, state, [], closing, rfl, rfl, hstep, rfl⟩
    | refuse => simp [hstep] at h

end Transducer
