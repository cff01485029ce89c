/-
Malm.Config.DiagnosticTheorems — every failure of evaluation can be reported
(`malm-config/src/rich_eval.rs`).

A report cuts the message and the notes to the diagnostic limits and gives them a code
of its own, so the constructors that it expects to succeed do.
-/
import Malm.Config.Diagnostics

namespace Malm.Config

open Pack Checks List

/-! ## 1. Texts within a limit -/

theorem keepBytes_byteLen : ∀ (limit : Nat) (v : Text),
    (keepBytes limit v).byteLen ≤ limit
  | _, [] => Nat.zero_le _
  | limit, character :: rest => by
    rw [keepBytes]
    split
    · next hfits =>
      have hrest := keepBytes_byteLen (limit - character.utf8Size) rest
      simp only [Text.byteLen, map_cons, sum_cons] at hrest ⊢
      omega
    · exact Nat.zero_le _

theorem boundedDiagnosticText_byteLen {v : Text} {limit : Nat} :
    (boundedDiagnosticText v limit).byteLen ≤ limit := by
  unfold boundedDiagnosticText
  split
  · assumption
  · split
    · next hsuffix =>
      have hkept := keepBytes_byteLen (limit - truncatedSuffix.byteLen) v
      rw [Text.byteLen_append]
      omega
    · rw [append_nil]
      exact keepBytes_byteLen limit v

/-- The kept notes are no more than before, each and together within their limits. -/
theorem boundNotes_limits : ∀ (rem : Nat) (notes : List Text),
    (boundNotes rem notes).length ≤ notes.length ∧
      ((boundNotes rem notes).map Text.byteLen).sum ≤ rem ∧
      ∀ note ∈ boundNotes rem notes, note.byteLen ≤ maxRichDiagnosticBytes
  | _, [] => ⟨le_refl _, Nat.zero_le _, fun note hnote => absurd hnote not_mem_nil⟩
  | rem, note :: rest => by
    rw [boundNotes]
    split
    · exact ⟨Nat.zero_le _, Nat.zero_le _, fun note hnote => absurd hnote not_mem_nil⟩
    · have hbound := @boundedDiagnosticText_byteLen note (min maxRichDiagnosticBytes rem)
      obtain ⟨hlen, hsum, hall⟩ := boundNotes_limits (rem -
        (boundedDiagnosticText note (min maxRichDiagnosticBytes rem)).byteLen) rest
      refine ⟨Nat.succ_le_succ hlen, ?_, ?_⟩
      · simp only [map_cons, sum_cons]
        omega
      · intro other hother
        rcases mem_cons.1 hother with rfl | hother
        · exact hbound.trans (min_le_left _ _)
        · exact hall other hother

theorem checkDiagnostic_bounded (message : Text) (notes : List Text) :
    checkDiagnostic (boundedDiagnosticText message maxRichDiagnosticBytes)
      (boundNotes (maxRichTotalDiagnosticBytes -
          (boundedDiagnosticText message maxRichDiagnosticBytes).byteLen)
        (notes.take maxRichDiagnosticNotes)) = .ok () := by
  have hmessage := @boundedDiagnosticText_byteLen message maxRichDiagnosticBytes
  obtain ⟨hlen, hsum, hall⟩ := boundNotes_limits (maxRichTotalDiagnosticBytes -
    (boundedDiagnosticText message maxRichDiagnosticBytes).byteLen)
    (notes.take maxRichDiagnosticNotes)
  have htaken : (notes.take maxRichDiagnosticNotes).length ≤ maxRichDiagnosticNotes :=
    length_take_le _ _
  have htotal : maxRichDiagnosticBytes ≤ maxRichTotalDiagnosticBytes := by decide
  simp only [checkDiagnostic, checkRichLimit, bind_ok, exists_unit, reject_ok, forM_ok, not_lt]
  exact ⟨hmessage, hlen.trans htaken, hall, by omega⟩

/-! ## 2. Codes -/

theorem PreflightError.code_valid (error : PreflightError) :
    validateRichName error.code.toList = .ok () := by
  cases error <;> simp only [PreflightError.code] <;> decide +kernel

theorem EvaluationLimit.code_valid (limit : EvaluationLimit) :
    validateRichName limit.code.toList = .ok () := by
  cases limit <;> simp only [EvaluationLimit.code] <;> decide +kernel

theorem IncludeError.code_valid {error : IncludeError}
    (h : (EvaluationError.resolution error).Reported) :
    validateRichName error.code.toList = .ok () := by
  cases error with
  | preflight error => exact error.code_valid
  | uncaptured id => exact h.elim
  | _ =>
    simp only [IncludeError.code]
    decide +kernel

theorem PatchError.code_valid (error : PatchError) :
    validateRichName error.code.toList = .ok () := by
  cases error <;> simp only [PatchError.code] <;> decide +kernel

theorem EvaluationError.code_valid {error : EvaluationError} (h : error.Reported) :
    validateRichName error.code.toList = .ok () := by
  cases error with
  | resolution error => exact IncludeError.code_valid h
  | limitExceeded limit location => exact limit.code_valid
  | invalidPatch error location => exact error.code_valid
  | _ =>
    simp only [EvaluationError.code]
    decide +kernel

/-! ## 3. Reports -/

theorem canonicalDiagnostics_singleton (reported : RichDiagnostic) :
    canonicalDiagnostics [reported] = .ok [reported] := by
  have hvalid := reported.valid
  simp only [checkDiagnostic, checkRichLimit, bind_ok, exists_unit, reject_ok] at hvalid
  obtain ⟨-, -, -, htotal⟩ := hvalid
  simp only [canonicalDiagnostics, checkTransformLimit, checkRichLimit, bind_ok, exists_unit,
    mapError_ok, reject_ok, map_singleton, sum_singleton, length_singleton]
  exact ⟨by decide, htotal, rfl, rfl⟩

/-- **Reports.** Every failure has one diagnostic, however long its texts are. -/
theorem reportOne_reports (texts : DiagnosticTexts) {error : EvaluationError}
    (h : error.Reported) : ∃ reported, reportOne texts error = some [reported] := by
  have hcode := EvaluationError.code_valid h
  have hchecked := checkDiagnostic_bounded (texts.message error) (texts.notes error)
  refine ⟨⟨.error, ⟨error.code.toList, hcode⟩, _, error.primary.map .source, _, hchecked⟩, ?_⟩
  unfold reportOne diagnostic newRichName newRichDiagnostic
  rw [dif_pos hcode]
  simp only [Option.bind_eq_bind, Option.bind_some]
  rw [dif_pos hchecked, Option.bind_some, canonicalDiagnostics_singleton]
  rfl

end Malm.Config
