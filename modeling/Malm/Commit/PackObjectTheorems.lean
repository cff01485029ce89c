/-
Malm.Commit.PackObjectTheorems — the two readers of pack objects agree.

The loop of `validate` accepts exactly the encodings of files that fit (`readMembers_ok`),
like the pack reader. The two path grammars are one (`validPath_iff`), and bytes of paths
compare as the paths do.
-/
import Malm.Commit.PackObject
import Malm.Pack.ObjectTheorems

namespace Malm.Commit.PackObject

open Commit Bytes List
open Malm.Pack.Object (PackFile PackPath Fits Canonical encodeFile encodeEntries)

/-! ## 1. Paths -/

theorem validSegment_iff {seg : Text} :
    validSegment seg = true ↔ Pack.Object.validateSegment seg = .ok () := by
  have hlimit : maxPathSegmentBytes = Pack.Object.maxPathSegmentBytes := rfl
  simp only [validSegment, Pack.Object.validateSegment, Pack.reservedSegment, refusedSegment,
    hlimit, Checks.bind_ok, Checks.exists_unit, Checks.reject_ok, Bool.not_eq_true', Bool.or_eq_false_iff, Bool.or_eq_true, not_or,
    decide_eq_false_iff_not, decide_eq_true_eq, isEmpty_eq_false_iff, ne_eq]
  tauto

theorem validText_iff {path : Text} (hne : path ≠ [])
    (hlen : path.byteLen ≤ maxPackPathBytes) :
    validText path = true ↔ Pack.Object.validatePackPath path = .ok () := by
  have hlimit : path.byteLen ≤ Pack.maxPackPathBytes := hlen
  have hsegs : (maxPackPathSegments = Pack.maxPackPathSegments) := rfl
  rw [Pack.Object.validatePackPath_ok, validText]
  split
  · rename_i hrefused
    simp only [Bool.false_eq_true, false_iff]
    rintro ⟨-, -, hroot, hslash, hcontrol, -⟩
    rcases hrefused with h | h | h
    · exact hroot h
    · exact hslash h
    · exact hcontrol h
  · rename_i hshape
    simp only [not_or] at hshape
    obtain ⟨hroot, hslash, hcontrol⟩ := hshape
    simp only [Bool.and_eq_true, all_eq_true, validSegment_iff, decide_eq_true_eq, hsegs]
    constructor
    · rintro ⟨hall, hcount⟩
      exact ⟨hne, hlimit, hroot, hslash, hcontrol, hcount, hall⟩
    · rintro ⟨-, -, -, -, -, hcount, hall⟩
      exact ⟨hall, hcount⟩

theorem utf8_ne_nil {path : Text} : utf8 path ≠ [] ↔ path ≠ [] := by
  constructor
  · rintro hbytes rfl
    exact hbytes rfl
  · intro hpath hbytes
    exact hpath (utf8_injective hbytes)

theorem validPath_iff {bytes : List UInt8} (hne : bytes ≠ [])
    (hlen : bytes.length ≤ maxPackPathBytes) :
    validPath bytes = true ↔ ∃ path : PackPath, bytes = utf8 path.val := by
  unfold validPath
  split
  · rename_i hdecode
    simp only [Bool.false_eq_true, false_iff]
    rintro ⟨path, rfl⟩
    rw [fromUtf8_utf8] at hdecode
    cases hdecode
  · rename_i path hdecode
    obtain rfl := fromUtf8_eq_some.1 hdecode
    rw [Text.utf8_byteLen] at hlen
    rw [validText_iff (utf8_ne_nil.1 hne) hlen]
    constructor
    · intro hvalid
      exact ⟨⟨path, hvalid⟩, rfl⟩
    · rintro ⟨found, hfound⟩
      rw [utf8_injective hfound]
      exact found.property

/-! ## 2. Members -/

theorem require_ok {cond : Prop} [Decidable cond] {bytes rest : List UInt8} :
    require cond bytes = .ok ((), rest) ↔ cond ∧ bytes = rest := by
  rw [require, check_ok, Checks.reject_ok, not_not]

section Members

variable {bytes rest : List UInt8} {file : PackFile} {files : List PackFile}

/-- The bytes of the path before, of a state. -/
def previousBytes (previous : Option Text) : List UInt8 := (previous.map utf8).getD []

variable {previous : Option Text}

theorem after_previous_iff {path : Text} (hprev : ∀ last ∈ previous, last ≠ []) :
    ¬ (previousBytes previous ≠ [] ∧ utf8 path ≤ previousBytes previous) ↔
      ∀ last ∈ previous, last < path := by
  cases previous with
  | none => simp [previousBytes]
  | some last =>
    have hlast := utf8_ne_nil.2 (hprev last rfl)
    have hbytes : previousBytes (some last) = utf8 last := rfl
    rw [hbytes]
    simp only [hlast, not_false_eq_true, true_and, ne_eq, List.not_le, utf8_lt_iff,
      Option.mem_def, Option.some.injEq, forall_eq']

theorem manifest_iff {path : Text} :
    utf8 path = utf8 "malm-pack.kdl".toList ↔ path = Pack.packManifestFile :=
  utf8_injective.eq_iff

def stateAfter (state : LoopState) (file : PackFile) : LoopState where
  previous := utf8 file.path.val
  totalBytes := state.totalBytes + file.bytes.length
  foundManifest := state.foundManifest || utf8 file.path.val = utf8 "malm-pack.kdl".toList

theorem readMember_ok {s next : LoopState} (hprev : ∀ last ∈ previous, last ≠ [])
    (hstate : s.previous = previousBytes previous) :
    readMember s bytes = .ok (next, rest) ↔
      ∃ file : PackFile, ((∀ last ∈ previous, last < file.path.val) ∧
        file.bytes.length ≤ Pack.maxPackFileBytes ∧
        s.totalBytes + file.bytes.length ≤ Pack.maxPackTreeBytes) ∧
        stateAfter s file = next ∧ bytes = encodeFile file ++ rest := by
  simp only [readMember, read_bind_ok, number_ok, take_ok, require_ok, read_pure_ok, Checks.exists_unit,
    hstate, not_lt]
  constructor
  · rintro ⟨pathLen, after, ⟨-, rfl⟩, _, ⟨hlen, rfl⟩, value, _, ⟨rfl, rfl⟩, _, ⟨hless, rfl⟩, _,
      ⟨hvalid, rfl⟩, fileLen, _, ⟨-, rfl⟩, _, ⟨htree, rfl⟩, _, ⟨hlimit, rfl⟩, data, _,
      ⟨rfl, rfl⟩, rfl, rfl⟩
    rw [not_or, List.length_eq_zero_iff, not_lt] at hlen
    obtain ⟨path, rfl⟩ := (validPath_iff hlen.1 hlen.2).1 hvalid
    exact ⟨⟨path, data⟩, ⟨(after_previous_iff hprev).1 hless, hlimit, htree⟩, rfl,
      by simp [encodeFile, withLength]⟩
  · rintro ⟨file, ⟨hless, hlimit, htree⟩, rfl, rfl⟩
    obtain ⟨hne, hpath⟩ := file.path.byteLen_bounds
    rw [← Text.utf8_byteLen] at hpath
    have hbytes := utf8_ne_nil.2 hne
    refine ⟨(utf8 file.path.val).length, utf8 file.path.val ++ (withLength file.bytes ++ rest),
      ⟨hpath.trans_lt (by decide), by simp [encodeFile, withLength]⟩, _, ⟨?_, rfl⟩,
      utf8 file.path.val, _, ⟨rfl, rfl⟩, _, ⟨(after_previous_iff hprev).2 hless, rfl⟩, _,
      ⟨(validPath_iff hbytes hpath).2 ⟨file.path, rfl⟩, rfl⟩, file.bytes.length,
      file.bytes ++ rest, ⟨hlimit.trans_lt (by decide), by simp [withLength]⟩, _, ⟨htree, rfl⟩, _,
      ⟨hlimit, rfl⟩, file.bytes, rest, ⟨rfl, rfl⟩, rfl, rfl⟩
    rw [not_or, List.length_eq_zero_iff, not_lt]
    exact ⟨hbytes, hpath⟩

theorem readMembers_ok {count : Nat} {s final : LoopState}
    (hprev : ∀ last ∈ previous, last ≠ []) (hstate : s.previous = previousBytes previous) :
    readMembers count s bytes = .ok (final, rest) ↔
      ∃ files : List PackFile, files.length = count ∧ Fits previous s.totalBytes files ∧
        files.foldl stateAfter s = final ∧ bytes = files.flatMap encodeFile ++ rest := by
  induction count generalizing previous s bytes with
  | zero =>
    rw [readMembers, read_pure_ok]
    constructor
    · rintro ⟨rfl, rfl⟩
      exact ⟨[], rfl, trivial, rfl, rfl⟩
    · rintro ⟨files, hlen, -, hfinal, hbytes⟩
      obtain rfl := List.length_eq_zero_iff.1 hlen
      exact ⟨hfinal, hbytes⟩
  | succ count ih =>
    simp only [readMembers, read_bind_ok, readMember_ok hprev hstate]
    have hne : ∀ file : PackFile, ∀ last ∈ some file.path.val, last ≠ [] := by
      rintro file last hmem rfl
      exact file.path.byteLen_bounds.1 (Option.some.inj hmem)
    constructor
    · rintro ⟨next, middle, ⟨file, ⟨hless, hlimit, htree⟩, rfl, rfl⟩, hrest⟩
      obtain ⟨files, rfl, hfits, hfinal, rfl⟩ := (ih (hne file) rfl).1 hrest
      exact ⟨file :: files, rfl, ⟨hless, hlimit, htree, hfits⟩, hfinal, by simp⟩
    · rintro ⟨files, hlen, hfits, hfinal, rfl⟩
      cases files with
      | nil => cases hlen
      | cons file files =>
        obtain ⟨hless, hlimit, htree, hfits⟩ := hfits
        refine ⟨_, _, ⟨file, ⟨hless, hlimit, htree⟩, rfl, ?_⟩,
          (ih (hne file) rfl).2 ⟨files, Nat.succ.inj hlen, hfits, hfinal, rfl⟩⟩
        rw [List.flatMap_cons, List.append_assoc]

theorem foldl_foundManifest (files : List PackFile) (s : LoopState) :
    (files.foldl stateAfter s).foundManifest = true ↔
      s.foundManifest = true ∨ ∃ file ∈ files, file.path.val = Pack.packManifestFile := by
  induction files generalizing s with
  | nil => simp
  | cons file files ih =>
    rw [foldl_cons, ih]
    simp only [stateAfter, Bool.or_eq_true, decide_eq_true_eq, manifest_iff, or_assoc,
      exists_mem_cons_iff]

theorem readEnvelope_ok : (∃ rest, readEnvelope bytes = .ok ((), rest)) ↔
    ∃ files, Canonical files ∧ bytes = encodeEntries files := by
  have hmembers : ∀ {count : Nat} {final : LoopState} {bytes rest : List UInt8},
      readMembers count ⟨[], 0, false⟩ bytes = .ok (final, rest) ↔
        ∃ files : List PackFile, files.length = count ∧ Fits none 0 files ∧
          files.foldl stateAfter ⟨[], 0, false⟩ = final ∧
          bytes = files.flatMap encodeFile ++ rest :=
    readMembers_ok (by simp) rfl
  simp only [readEnvelope, read_bind_ok, literal_ok, constant_ok (by decide : encodingVersion < 256 ^ 2),
    number_ok, require_ok, hmembers, finish_ok,
    Checks.exists_unit, not_lt]
  constructor
  · rintro ⟨rest, _, rfl, _, rfl, count, _, ⟨-, rfl⟩, _, ⟨hcount, rfl⟩, final, _,
      ⟨files, rfl, hfits, rfl, rfl⟩, _, ⟨hfound, rfl⟩, rfl, rfl⟩
    have hmanif := (foldl_foundManifest files _).1 hfound
    exact ⟨files, ⟨hcount, hfits, by simpa using hmanif⟩, by simp [encodeEntries, domain,
      Pack.Object.packContentDomain, encodingVersion, Pack.Object.encodingVersion]⟩
  · rintro ⟨files, hcanonical, rfl⟩
    have hfound := (foldl_foundManifest files ⟨[], 0, false⟩).2 (Or.inr hcanonical.manifest)
    refine ⟨[], _, ?_, _, rfl, files.length, files.flatMap encodeFile,
      ⟨hcanonical.count.trans_lt (by decide), rfl⟩, _, ⟨hcanonical.count, rfl⟩, _, [],
      ⟨files, rfl, hcanonical.fits, rfl, by simp⟩, _, ⟨hfound, rfl⟩, rfl, rfl⟩
    simp [encodeEntries, domain, Pack.Object.packContentDomain, encodingVersion,
      Pack.Object.encodingVersion]

end Members

/-! ## 3. The readers -/

/-- **The pack object readers agree** on all bytes under every digest. -/
theorem validate_iff_readPackObject (sha256 : List UInt8 → Digest) (bytes : List UInt8)
    (expected : Digest) :
    validate sha256 bytes expected = true ↔
      ∃ files, Pack.Object.readPackObject sha256 expected bytes = .ok files := by
  simp only [Pack.Object.readPackObject_ok]
  have henvelope := @readEnvelope_ok bytes
  unfold validate
  split
  · rename_i hrefused
    simp only [Bool.false_eq_true, false_iff]
    rintro ⟨files, hcanonical, rfl, hdigest⟩
    rcases hrefused with hlong | hother
    · exact absurd (Pack.Object.encodeEntries_length_le hcanonical) (not_le.2 hlong)
    · exact hother hdigest
  · rename_i haccepted
    simp only [not_or, not_not] at haccepted
    rw [Except.isOk, Checks.toBool_eq_true, Prod.exists, Checks.exists_unit, henvelope]
    constructor
    · rintro ⟨files, hcanonical, hbytes⟩
      exact ⟨files, hcanonical, hbytes, haccepted.2⟩
    · rintro ⟨files, hcanonical, hbytes, -⟩
      exact ⟨files, hcanonical, hbytes⟩

end Malm.Commit.PackObject
