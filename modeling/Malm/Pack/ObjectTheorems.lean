/-
Malm.Pack.ObjectTheorems — the pack object round trip.

Files that fit follow each other in path order within the limits (`Fits`). The writer
succeeds on the lists that sorting makes canonical, and the reader accepts exactly the
encodings of canonical lists.
-/
import Malm.Pack.Object

namespace Malm.Pack.Object

open Pack Commit Bytes Checks List

/-! ## 1. Canonical lists -/

theorem PackPath.new_ok {value : Text} {path : PackPath} :
    PackPath.new value = .ok path ↔ path.val = value := by
  unfold PackPath.new
  split
  · rename_i hvalid
    rw [Except.ok.injEq, ← Subtype.val_inj, eq_comm]
  · rename_i reason hinvalid
    constructor
    · intro h
      cases h
    · rintro rfl
      rw [path.property] at hinvalid
      cases hinvalid

theorem validatePackPath_ok {v : Text} : validatePackPath v = .ok () ↔
    v ≠ [] ∧ v.byteLen ≤ maxPackPathBytes ∧ v.head? ≠ some '/' ∧ '\\' ∉ v ∧
      ¬ v.any Text.isControl = true ∧ v.segments.length ≤ maxPackPathSegments ∧
      ∀ seg ∈ v.segments, validateSegment seg = .ok () := by
  simp only [validatePackPath, bind_ok, exists_unit, reject_ok, forM_ok, not_lt, ne_eq]

theorem PackPath.byteLen_bounds (path : PackPath) :
    path.val ≠ [] ∧ path.val.byteLen ≤ maxPackPathBytes := by
  obtain ⟨hne, hlimit, -⟩ := validatePackPath_ok.1 path.property
  exact ⟨hne, hlimit⟩

/-- Files in path order and within the limits. -/
def Fits : Option Text → Nat → List PackFile → Prop
  | _, _, [] => True
  | previous, total, file :: files =>
    (∀ last ∈ previous, last < file.path.val) ∧ file.bytes.length ≤ maxPackFileBytes ∧
      total + file.bytes.length ≤ maxPackTreeBytes ∧
      Fits (some file.path.val) (total + file.bytes.length) files

variable {files : List PackFile}

theorem fits_iff {prev : Option Text} {total : Nat} (htotal : total ≤ maxPackTreeBytes) :
    Fits prev total files ↔
      (∀ last ∈ prev, ∀ file ∈ files, last < file.path.val) ∧
      (files.Pairwise fun left right => left.path.val < right.path.val) ∧
      (∀ file ∈ files, file.bytes.length ≤ maxPackFileBytes) ∧
      total + (files.map fun file => file.bytes.length).sum ≤ maxPackTreeBytes := by
  induction files generalizing prev total with
  | nil => simp [Fits, htotal]
  | cons file files ih =>
    rw [Fits, pairwise_cons, forall_mem_cons, map_cons, sum_cons, ← Nat.add_assoc]
    constructor
    · rintro ⟨hlast, hlimit, htree, hfits⟩
      obtain ⟨hfile, hpairwise, hlimits, hsum⟩ := (ih htree).1 hfits
      refine ⟨?_, ⟨hfile _ rfl, hpairwise⟩, ⟨hlimit, hlimits⟩, hsum⟩
      intro last hmem
      have hless := hlast last hmem
      exact forall_mem_cons.2
        ⟨hless, fun other hother => lt_trans hless (hfile _ rfl other hother)⟩
    · rintro ⟨hlast, ⟨hfile, hpairwise⟩, ⟨hlimit, hlimits⟩, hsum⟩
      have htree : total + file.bytes.length ≤ maxPackTreeBytes := by omega
      refine ⟨fun last hmem => hlast last hmem file (by simp), hlimit, htree, (ih htree).2 ?_⟩
      refine ⟨?_, hpairwise, hlimits, hsum⟩
      intro last hmem
      obtain rfl := Option.some.inj hmem
      exact hfile

/-- What a pack object holds. -/
structure Canonical (files : List PackFile) : Prop where
  count : files.length ≤ maxPackTreeEntries
  fits : Fits none 0 files
  manifest : ∃ file ∈ files, file.path.val = packManifestFile

theorem Canonical.pairwise (h : Canonical files) :
    files.Pairwise fun left right => left.path.val < right.path.val :=
  ((fits_iff (Nat.zero_le _)).1 h.fits).2.1

/-! ## 2. The writer -/

theorem sortFiles_perm (files : List PackFile) : (sortFiles files).Perm files :=
  perm_insertionSort _ files

theorem sortFiles_sorted (files : List PackFile) :
    (sortFiles files).Pairwise fun left right => left.path.val ≤ right.path.val :=
  pairwise_insertionSort _ files

theorem sortFiles_of_canonical (h : Canonical files) : sortFiles files = files :=
  (h.pairwise.imp fun hless => le_of_lt hless).insertionSort_eq

theorem checkEntries_ok (s : EntryState)
    (hsorted : files.Pairwise fun left right => left.path.val ≤ right.path.val)
    (hprev : ∀ last ∈ s.previous, ∀ file ∈ files, last.val ≤ file.path.val) :
    (∃ final, files.foldlM checkEntry s = .ok final ∧ ¬ final.foundManifest = false) ↔
      Fits (s.previous.map Subtype.val) s.total files ∧
        (s.foundManifest = true ∨ ∃ file ∈ files, file.path.val = packManifestFile) := by
  induction files generalizing s with
  | nil => simp [Fits, pure_eq]
  | cons file files ih =>
    obtain ⟨hfile, hsorted⟩ := pairwise_cons.1 hsorted
    have hnew : (¬ s.previous = some file.path) ↔
        ∀ last ∈ s.previous.map Subtype.val, last < file.path.val := by
      cases hstate : s.previous with
      | none => simp
      | some last =>
        have hle := hprev last hstate file (by simp)
        simp only [Option.some.injEq, Option.map_some, Option.mem_def, forall_eq']
        constructor
        · intro hdiffer
          exact lt_of_le_of_ne hle fun heq => hdiffer (Subtype.ext heq)
        · rintro hless rfl
          exact lt_irrefl _ hless
    simp only [List.foldlM_cons, checkEntry, bind_ok, exists_unit, reject_ok,
      pure_ok, not_lt, Fits, hnew]
    constructor
    · rintro ⟨final, ⟨next, ⟨hless, hlimit, htree, rfl⟩, hrest⟩, hfound⟩
      obtain ⟨hfits, hmanif⟩ := (ih _ hsorted (by simpa using hfile)).1 ⟨final, hrest, hfound⟩
      refine ⟨⟨hless, hlimit, htree, hfits⟩, ?_⟩
      simpa [or_assoc] using hmanif
    · rintro ⟨⟨hless, hlimit, htree, hfits⟩, hmanif⟩
      obtain ⟨final, hrest, hfound⟩ := (ih ⟨some file.path, s.total + file.bytes.length,
        s.foundManifest || decide (file.path.val = packManifestFile)⟩ hsorted
        (by simpa using hfile)).2 ⟨hfits, by simpa [or_assoc] using hmanif⟩
      exact ⟨final, ⟨_, ⟨hless, hlimit, htree, rfl⟩, hrest⟩, hfound⟩

theorem validatedPackEntries_ok {entries : List PackFile} :
    validatedPackEntries files = .ok entries ↔ sortFiles files = entries ∧ Canonical entries := by
  have hloop := checkEntries_ok ⟨none, 0, false⟩ (sortFiles_sorted files) (by simp)
  have hlen := (sortFiles_perm files).length_eq
  simp only [validatedPackEntries, bind_ok, exists_unit, reject_ok, pure_ok, not_lt]
  constructor
  · rintro ⟨hcount, final, hfold, hfound, rfl⟩
    obtain ⟨hfits, hmanif⟩ := hloop.1 ⟨final, hfold, hfound⟩
    exact ⟨rfl, ⟨hlen.le.trans hcount, hfits, by simpa using hmanif⟩⟩
  · rintro ⟨rfl, hcanonical⟩
    obtain ⟨final, hfold, hfound⟩ := hloop.2 ⟨hcanonical.fits, Or.inr hcanonical.manifest⟩
    exact ⟨hlen ▸ hcanonical.count, final, hfold, hfound, rfl⟩

/-- The lists that the writer accepts, in any order. -/
structure Writable (files : List PackFile) : Prop where
  paths : (files.map fun file => file.path.val).Nodup
  manifest : ∃ file ∈ files, file.path.val = packManifestFile
  count : files.length ≤ maxPackTreeEntries
  fileBytes : ∀ file ∈ files, file.bytes.length ≤ maxPackFileBytes
  treeBytes : (files.map fun file => file.bytes.length).sum ≤ maxPackTreeBytes

/-- Sorting makes canonical what is unique, has a manifest and is within the limits. -/
theorem canonical_sortFiles : Canonical (sortFiles files) ↔ Writable files := by
  have hperm := sortFiles_perm files
  have hpaths := (hperm.map fun file => file.path.val).nodup_iff
  have hsum := (hperm.map fun file => file.bytes.length).sum_eq
  constructor
  · intro h
    obtain ⟨-, hpairwise, hlimits, htree⟩ := (fits_iff (Nat.zero_le _)).1 h.fits
    rw [Nat.zero_add, hsum] at htree
    refine ⟨?_, ?_, hperm.length_eq ▸ h.count, ?_, htree⟩
    · rw [← hpaths]
      exact pairwise_map.2 (hpairwise.imp fun hless => ne_of_lt hless)
    · obtain ⟨file, hmem, hfile⟩ := h.manifest
      exact ⟨file, hperm.mem_iff.1 hmem, hfile⟩
    · intro file hmem
      exact hlimits file (hperm.mem_iff.2 hmem)
  · intro h
    refine ⟨hperm.length_eq ▸ h.count, (fits_iff (Nat.zero_le _)).2 ⟨by simp, ?_, ?_, ?_⟩, ?_⟩
    · have hnodup := pairwise_map.1 (hpaths.2 h.paths)
      exact (List.Pairwise.and (sortFiles_sorted files) hnodup).imp fun hboth =>
        lt_of_le_of_ne hboth.1 hboth.2
    · intro file hmem
      exact h.fileBytes file (hperm.mem_iff.1 hmem)
    · rw [Nat.zero_add, hsum]
      exact h.treeBytes
    · obtain ⟨file, hmem, hfile⟩ := h.manifest
      exact ⟨file, hperm.mem_iff.2 hmem, hfile⟩

section Objects

variable {sha256 : List UInt8 → Digest} {files : List PackFile} {expected : Digest}
  {bytes rest : List UInt8}

theorem packContentDigest_ok :
    packContentDigest sha256 files = .ok expected ↔
      Canonical (sortFiles files) ∧ sha256 (encodeEntries (sortFiles files)) = expected := by
  simp only [packContentDigest, bind_ok, pure_ok, validatedPackEntries_ok]
  constructor
  · rintro ⟨es, ⟨rfl, hcanonical⟩, rfl⟩
    exact ⟨hcanonical, rfl⟩
  · rintro ⟨hcanonical, rfl⟩
    exact ⟨_, ⟨rfl, hcanonical⟩, rfl⟩

theorem writePackObject_ok :
    writePackObject sha256 files = .ok (bytes, expected) ↔
      Canonical (sortFiles files) ∧ encodeEntries (sortFiles files) = bytes ∧
        sha256 bytes = expected := by
  simp only [writePackObject, bind_ok, pure_ok, validatedPackEntries_ok, Prod.mk.injEq]
  constructor
  · rintro ⟨es, ⟨rfl, hcanonical⟩, rfl, rfl⟩
    exact ⟨hcanonical, rfl, rfl⟩
  · rintro ⟨hcanonical, rfl, rfl⟩
    exact ⟨_, ⟨rfl, hcanonical⟩, rfl, rfl⟩

/-! ## 3. The reader -/

theorem encodeFile_length (file : PackFile) : (encodeFile file).length =
    8 + file.path.val.byteLen + (8 + file.bytes.length) := by
  simp only [encodeFile, length_append, withLength_length, Text.utf8_byteLen]

theorem fileBytes_length_le (files : List PackFile) : (files.flatMap encodeFile).length ≤
    (files.map fun file => file.bytes.length).sum + files.length * (16 + 1024) := by
  induction files with
  | nil => simp
  | cons file files ih =>
    have hpath : file.path.val.byteLen ≤ 1024 := file.path.byteLen_bounds.2
    rw [flatMap_cons, length_append, encodeFile_length, map_cons, sum_cons,
      length_cons, Nat.succ_mul]
    omega

theorem encodeEntries_length_le (h : Canonical files) :
    (encodeEntries files).length ≤ maxPackObjectBytes := by
  have hdomain : packContentDomain.length = 18 := by decide
  have hfiles := fileBytes_length_le files
  have htree : 0 + (files.map fun file => file.bytes.length).sum ≤ maxPackTreeBytes :=
    ((fits_iff (Nat.zero_le _)).1 h.fits).2.2.2
  have hcount : files.length * (16 + 1024) ≤ maxPackTreeEntries * (16 + 1024) :=
    Nat.mul_le_mul_right _ h.count
  simp only [encodeEntries, length_append, bigEndian_length, hdomain]
  unfold maxPackTreeBytes at htree
  unfold maxPackTreeEntries at hcount
  unfold maxPackObjectBytes
  omega

section Reader

variable {total : Nat}

theorem withinLimit_ok : withinLimit total bytes = .ok ((), rest) ↔
    total - bytes.length ≤ maxPackObjectBytes ∧ bytes = rest := by
  simp only [withinLimit, bind_ok, exists_unit, reject_ok, pure_ok, Prod.mk.injEq, true_and, not_lt]

section

variable (htotal : total ≤ maxPackObjectBytes)
include htotal

theorem readExact_ok {count : Nat} {v : List UInt8} :
    readExact total count bytes = .ok (v, rest) ↔
      v.length = count ∧ bytes = v ++ rest := by
  simp only [readExact, read_bind_ok, take_ok, withinLimit_ok, read_pure_ok, exists_unit]
  constructor
  · rintro ⟨found, middle, ⟨hlen, rfl⟩, last, ⟨-, rfl⟩, rfl, rfl⟩
    exact ⟨hlen, rfl⟩
  · rintro ⟨hlen, rfl⟩
    exact ⟨v, rest, ⟨hlen, rfl⟩, rest, ⟨(Nat.sub_le _ _).trans htotal, rfl⟩, rfl, rfl⟩

theorem readNumber_ok {width v : Nat} :
    readNumber total width bytes = .ok (v, rest) ↔
      v < 256 ^ width ∧ bytes = bigEndian width v ++ rest := by
  simp only [readNumber, read_bind_ok, readExact_ok htotal, read_pure_ok]
  constructor
  · rintro ⟨found, middle, ⟨rfl, rfl⟩, rfl, rfl⟩
    exact ⟨ofBigEndian_lt found, by rw [bigEndian_ofBigEndian]⟩
  · rintro ⟨hvalue, rfl⟩
    exact ⟨_, _, ⟨bigEndian_length width v, rfl⟩, ofBigEndian_bigEndian hvalue, rfl⟩

theorem readFile_ok {s next : ReadState} {file : PackFile} :
    readFile total s bytes = .ok ((file, next), rest) ↔
      ((∀ last ∈ s.previous.map Subtype.val, last < file.path.val) ∧
        file.bytes.length ≤ maxPackFileBytes ∧
        s.total + file.bytes.length ≤ maxPackTreeBytes) ∧
      (⟨some file.path, s.total + file.bytes.length⟩ : ReadState) = next ∧
      bytes = encodeFile file ++ rest := by
  have horder : ∀ path : PackPath,
      (s.previous.any fun prev => decide (path.val ≤ prev.val)) = true ↔
        ¬ ∀ last ∈ s.previous.map Subtype.val, last < path.val := by
    intro path
    cases s.previous <;> simp
  simp only [readFile, read_bind_ok, readNumber_ok htotal, readExact_ok htotal, check_ok,
    exists_unit, reject_ok, require_ok, mapError_ok,
    fromUtf8_eq_some, PackPath.new_ok, read_pure_ok, horder, not_not, not_lt, not_or, Prod.mk.injEq]
  constructor
  · rintro ⟨pathLen, after, ⟨-, rfl⟩, _, ⟨⟨-, -⟩, rfl⟩, pathBytes, _, ⟨rfl, rfl⟩, text, _,
      ⟨rfl, rfl⟩, path, _, ⟨rfl, rfl⟩, _, ⟨hless, rfl⟩, fileLen, _, ⟨-, rfl⟩, _, ⟨hlimit, rfl⟩, _,
      ⟨htree, rfl⟩, contents, _, ⟨rfl, rfl⟩, ⟨rfl, rfl⟩, rfl⟩
    exact ⟨⟨hless, hlimit, htree⟩, rfl, by simp [encodeFile, withLength]⟩
  · rintro ⟨⟨hless, hlimit, htree⟩, rfl, rfl⟩
    obtain ⟨hne, hpath⟩ := file.path.byteLen_bounds
    rw [← Text.utf8_byteLen] at hpath
    have hpos : (utf8 file.path.val).length ≠ 0 := by
      intro hzero
      exact hne (utf8_injective (length_eq_zero_iff.1 hzero))
    exact ⟨(utf8 file.path.val).length, utf8 file.path.val ++ (withLength file.bytes ++ rest),
      ⟨hpath.trans_lt (by decide), by simp [encodeFile, withLength]⟩, _, ⟨⟨hpos, hpath⟩, rfl⟩,
      utf8 file.path.val, _, ⟨rfl, rfl⟩, file.path.val, _, ⟨rfl, rfl⟩, file.path, _, ⟨rfl, rfl⟩, _,
      ⟨hless, rfl⟩, file.bytes.length, file.bytes ++ rest,
      ⟨hlimit.trans_lt (by decide), by simp [withLength]⟩, _, ⟨hlimit, rfl⟩, _, ⟨htree, rfl⟩,
      file.bytes, rest, ⟨rfl, rfl⟩, ⟨rfl, rfl⟩, rfl⟩

theorem readFiles_ok {count : Nat} {s : ReadState} :
    readFiles total count s bytes = .ok (files, rest) ↔
      files.length = count ∧ Fits (s.previous.map Subtype.val) s.total files ∧
        bytes = files.flatMap encodeFile ++ rest := by
  induction count generalizing s bytes files with
  | zero =>
    rw [readFiles, read_pure_ok, length_eq_zero_iff]
    constructor
    · rintro ⟨rfl, rfl⟩
      exact ⟨rfl, trivial, rfl⟩
    · rintro ⟨rfl, -, rfl⟩
      exact ⟨rfl, rfl⟩
  | succ count ih =>
    simp only [readFiles, read_bind_ok, read_pure_ok]
    constructor
    · rintro ⟨⟨file, next⟩, middle, hfile, others, last, hothers, rfl, rfl⟩
      obtain ⟨⟨hless, hlimit, htree⟩, rfl, rfl⟩ := (readFile_ok htotal).1 hfile
      obtain ⟨rfl, hfits, rfl⟩ := ih.1 hothers
      exact ⟨rfl, ⟨hless, hlimit, htree, hfits⟩, by simp⟩
    · rintro ⟨hlen, hfits, rfl⟩
      cases files with
      | nil => cases hlen
      | cons file others =>
        obtain ⟨hless, hlimit, htree, hfits⟩ := hfits
        refine ⟨(file, _), _, (readFile_ok htotal).2 ⟨⟨hless, hlimit, htree⟩, rfl, ?_⟩, others, rest,
          ih.2 ⟨Nat.succ.inj hlen, hfits, rfl⟩, rfl, rfl⟩
        rw [flatMap_cons, append_assoc]

theorem readEntries_ok :
    readEntries total bytes = .ok (files, rest) ↔
      (files.length ≤ maxPackTreeEntries ∧ Fits none 0 files) ∧ bytes = encodeEntries files ∧
        rest = [] := by
  simp only [readEntries, read_bind_ok, readNumber_ok htotal, readExact_ok htotal, check_ok,
    exists_unit, reject_ok, readFiles_ok htotal, finish_ok, withinLimit_ok, read_pure_ok,
    not_not, not_lt]
  constructor
  · rintro ⟨domain, _, ⟨-, rfl⟩, _, ⟨rfl, rfl⟩, version, _, ⟨-, rfl⟩, _, ⟨rfl, rfl⟩, count, _,
      ⟨-, rfl⟩, _, ⟨hcount, rfl⟩, found, _, ⟨rfl, hfits, rfl⟩, _, ⟨rfl, rfl⟩, _, ⟨-, rfl⟩, rfl, rfl⟩
    exact ⟨⟨hcount, hfits⟩, by simp [encodeEntries], rfl⟩
  · rintro ⟨⟨hcount, hfits⟩, rfl, rfl⟩
    exact ⟨packContentDomain, _, ⟨rfl, by simp only [encodeEntries, append_assoc]⟩, _,
      ⟨rfl, rfl⟩, encodingVersion, _, ⟨by decide, rfl⟩, _, ⟨rfl, rfl⟩, files.length,
      files.flatMap encodeFile, ⟨hcount.trans_lt (by decide), rfl⟩, _, ⟨hcount, rfl⟩, files, [], ⟨rfl, hfits, by simp⟩, [],
      ⟨rfl, rfl⟩, [], ⟨(Nat.sub_le _ _).trans htotal, rfl⟩, rfl, rfl⟩

end

theorem total_le_of_readEntries (h : readEntries bytes.length bytes = .ok (files, rest)) :
    bytes.length ≤ maxPackObjectBytes := by
  simp only [readEntries, read_bind_ok, finish_ok, withinLimit_ok, exists_unit] at h
  obtain ⟨_, _, _, _, _, _, _, _, _, _, _, _, _, _, _, _, _, _, _, ⟨rfl, rfl⟩, _, ⟨hlimit, -⟩, -⟩ := h
  simpa using hlimit

/-- **A pack object reader accepts exactly the encodings of canonical lists.** -/
theorem readPackObject_ok :
    readPackObject sha256 expected bytes = .ok files ↔
      Canonical files ∧ bytes = encodeEntries files ∧ sha256 bytes = expected := by
  simp only [readPackObject, bind_ok, exists_unit, reject_ok, pure_ok,
    mapError_ok, Prod.exists, not_not, packContentDigest_ok]
  constructor
  · rintro ⟨found, rest, hread, hdigest, logical, ⟨hcanonical, -⟩, -, -, rfl⟩
    obtain ⟨⟨hcount, hfits⟩, hbytes, -⟩ := (readEntries_ok (total_le_of_readEntries hread)).1 hread
    obtain ⟨file, hmem, hmanif⟩ := hcanonical.manifest
    exact ⟨⟨hcount, hfits, file, (sortFiles_perm found).mem_iff.1 hmem, hmanif⟩, hbytes, hdigest⟩
  · rintro ⟨hcanonical, rfl, hdigest⟩
    have hlimit := encodeEntries_length_le hcanonical
    have hsorted := sortFiles_of_canonical hcanonical
    refine ⟨files, [], (readEntries_ok hlimit).2 ⟨⟨hcanonical.count, hcanonical.fits⟩, rfl, rfl⟩,
      hdigest, expected, ?_, rfl, ?_, rfl⟩
    · rw [hsorted]
      exact ⟨hcanonical, hdigest⟩
    · intro hmiss
      obtain ⟨file, hmem, hmanif⟩ := hcanonical.manifest
      exact hmiss file hmem hmanif

end Reader

end Objects

/-! ## 4. The round trip -/

theorem sortFiles_eq_of_perm {files others : List PackFile} (hcanonical : Canonical (sortFiles files))
    (hperm : files.Perm others) : sortFiles files = sortFiles others := by
  have hsorted : (sortFiles files).Perm (sortFiles others) :=
    (sortFiles_perm files).trans (hperm.trans (sortFiles_perm others).symm)
  refine hsorted.eq_of_pairwise ?_ (sortFiles_sorted files) (sortFiles_sorted others)
  intro left right hleft hright hle hge
  -- Two files of a canonical list with one path are one file.
  have hpaths := (canonical_sortFiles.1 hcanonical).paths
  have hpath : left.path.val = right.path.val := le_antisymm hle hge
  exact inj_on_of_nodup_map hpaths ((sortFiles_perm files).mem_iff.1 hleft)
    (hperm.mem_iff.2 ((sortFiles_perm others).mem_iff.1 hright)) hpath

/-- **The pack object round trip.** The writer accepts the lists with unique paths and a manifest
within the limits, in any order; its bytes read back as the sorted files under their digest, and
what a reader accepts is written again as the same bytes. -/
theorem packObject_roundTrip (sha256 : List UInt8 → Digest) :
    (∀ files, (∃ written, writePackObject sha256 files = .ok written) ↔ Writable files) ∧
      (∀ files bytes digest, writePackObject sha256 files = .ok (bytes, digest) →
        readPackObject sha256 digest bytes = .ok (sortFiles files) ∧
          (sortFiles files).Perm files ∧
          ((sortFiles files).Pairwise fun left right => left.path.val < right.path.val) ∧
          packContentDigest sha256 files = .ok digest) ∧
      (∀ files others written, files.Perm others → writePackObject sha256 files = .ok written →
        writePackObject sha256 others = .ok written) ∧
      (∀ expected bytes files, readPackObject sha256 expected bytes = .ok files →
        writePackObject sha256 files = .ok (bytes, expected)) := by
  refine ⟨?_, ?_, ?_, ?_⟩
  · intro files
    rw [← canonical_sortFiles]
    constructor
    · rintro ⟨⟨bytes, digest⟩, hwrite⟩
      exact (writePackObject_ok.1 hwrite).1
    · intro hcanonical
      exact ⟨(_, _), writePackObject_ok.2 ⟨hcanonical, rfl, rfl⟩⟩
  · intro files bytes digest hwrite
    obtain ⟨hcanonical, rfl, hdigest⟩ := writePackObject_ok.1 hwrite
    exact ⟨readPackObject_ok.2 ⟨hcanonical, rfl, hdigest⟩, sortFiles_perm files,
      hcanonical.pairwise, packContentDigest_ok.2 ⟨hcanonical, hdigest⟩⟩
  · rintro files others ⟨bytes, digest⟩ hperm hwrite
    obtain ⟨hcanonical, hbytes, hdigest⟩ := writePackObject_ok.1 hwrite
    have hsame := sortFiles_eq_of_perm hcanonical hperm
    rw [hsame] at hcanonical hbytes
    exact writePackObject_ok.2 ⟨hcanonical, hbytes, hdigest⟩
  · intro expected bytes files hread
    obtain ⟨hcanonical, rfl, hdigest⟩ := readPackObject_ok.1 hread
    have hsorted := sortFiles_of_canonical hcanonical
    rw [writePackObject_ok, hsorted]
    exact ⟨hcanonical, rfl, hdigest⟩

end Malm.Pack.Object
