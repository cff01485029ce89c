/-
Malm.Tree.CodecTheorems — the canonical tree format round trip.

Each decoder accepts exactly the encodings (`decodeFileObject_ok`,
`decodeSymlinkObject_ok`, `decodeTreeObject_ok`). The size limit that a decoder checks
first holds of every encoding.
-/
import Malm.Tree.Codec

namespace Malm.Tree

open Pack Bytes Checks List Option Nat TreeObject

variable {d : ObjectDigest}

variable {mode rootMode : BitVec 32}

variable {bytes data rest : List UInt8}

/-! ## 1. Fields -/

theorem digestText_length (d : ObjectDigest) : (digestText d.val).length = 71 := by
  have hdigits : (digits 16 d.val.value).length ≤ 64 :=
    (digits_length_le_iff (by decide) d.val.value).2 d.property
  have htag : digestTag.length = 7 := rfl
  simp only [digestText, hexDigits, length_append, length_reverse, length_map,
    length_replicate, htag]
  omega

theorem digestText_ascii (d : Digest) :
    ∀ c ∈ digestText d, c.utf8Size = 1 := by
  have hdigit : ∀ digit < 16, (hexDigit digit).utf8Size = 1 := by decide
  have htag : ∀ c ∈ digestTag, c.utf8Size = 1 := by
    rw [digestTag_eq]
    simp only [forall_mem_cons]
    exact ⟨rfl, rfl, rfl, rfl, rfl, rfl, rfl, by simp⟩
  exact forall_mem_digestText htag hdigit d

theorem utf8_ascii_length {text : Text} (h : ∀ c ∈ text, c.utf8Size = 1) :
    (utf8 text).length = text.length := by
  rw [utf8_length, map_congr_left h, map_const', sum_replicate, smul_eq_mul, mul_one]

theorem utf8_digestText_length (d : ObjectDigest) :
    (utf8 (digestText d.val)).length = 71 := by
  rw [utf8_ascii_length (digestText_ascii d.val), digestText_length]

theorem digestOf_eq_some {text : Text} :
    digestOf text = some d ↔ text = digestText d.val := by
  simp only [digestOf, bind_eq_some_iff, parseDigest_eq_some]
  constructor
  · rintro ⟨found, rfl, hfound⟩
    split at hfound
    · obtain rfl := some.inj hfound
      rfl
    · cases hfound
  · rintro rfl
    exact ⟨d.val, rfl, by rw [dif_pos d.property]⟩

section Fields

variable {object : ObjectKind}

theorem readText_ok {maximum : Nat} {tooLong : String} {v : List UInt8}
    (hmaximum : maximum < 256 ^ 8) :
    readText object maximum tooLong bytes = .ok (v, rest) ↔
      v.length ≤ maximum ∧ bytes = withLength v ++ rest :=
  sized_ok hmaximum

theorem readDigest_ok :
    readDigest object bytes = .ok (d, rest) ↔
      bytes = encodeText (digestText d.val) ++ rest := by
  simp only [readDigest, read_bind_ok, check_ok, exists_unit, reject_ok,
    require_ok, fromUtf8_eq_some, digestOf_eq_some, not_not,
    readText_ok (by decide : digestTextBytes < 256 ^ 8)]
  constructor
  · rintro ⟨v, middle, ⟨-, rfl⟩, -, ⟨-, rfl⟩, text, -, ⟨rfl, rfl⟩, rfl, rfl⟩
    rfl
  · rintro rfl
    have hlen := utf8_digestText_length d
    exact ⟨_, rest, ⟨hlen.le, rfl⟩, rest, ⟨hlen, rfl⟩, _, rest, ⟨rfl, rfl⟩, rfl, rfl⟩

theorem readMode_ok :
    readMode object bytes = .ok (mode, rest) ↔ bytes = bigEndian 4 mode.toNat ++ rest :=
  bits_ok

end Fields

/-! ## 2. Files -/

@[simp] theorem fileObjectBytes_length (data : List UInt8) :
    (fileObjectBytes data).length = 17 + 2 + 8 + data.length := by
  have hdomain : fileDomain.length = 17 := by decide
  simp only [fileObjectBytes, encoderNew, length_append, bigEndian_length, hdomain]

theorem encodeFileObject_ok :
    encodeFileObject data = .ok bytes ↔
      data.length ≤ maxTreeFileBytes ∧ bytes = fileObjectBytes data := by
  simp only [encodeFileObject, bind_ok, exists_unit, reject_ok, pure_ok, not_lt]
  rw [eq_comm (a := bytes)]

/-- **A file decoder accepts exactly the encodings.** -/
theorem decodeFileObject_ok :
    decodeFileObject bytes = .ok data ↔
      data.length ≤ maxTreeFileBytes ∧ bytes = fileObjectBytes data := by
  simp only [decodeFileObject, preflightSize, readFileObject, readDomain, readVersion, readNumber,
    readEnd, bind_ok, exists_unit, reject_ok, pure_ok, Prod.exists,
    read_bind_ok, check_ok, literal_ok, number_ok, take_ok, finish_ok, read_pure_ok, not_lt,
    constant_ok (by decide : treeObjectEncodingVersion < 256 ^ 2)]
  constructor
  · rintro ⟨-, found, final, ⟨after, rfl, middle, rfl, length, body, ⟨-, rfl⟩, -, ⟨hlimit, rfl⟩,
      value, tail, ⟨rfl, rfl⟩, last, ⟨rfl, rfl⟩, rfl, rfl⟩, rfl⟩
    exact ⟨hlimit, by simp [fileObjectBytes, encoderNew]⟩
  · rintro ⟨hlimit, rfl⟩
    refine ⟨?_, data, [], ⟨_, ?_, _, rfl, data.length, data,
      ⟨hlimit.trans_lt (by decide), rfl⟩, data, ⟨hlimit, rfl⟩, data, [],
      ⟨rfl, by simp⟩, [], ⟨rfl, rfl⟩, rfl, rfl⟩, rfl⟩
    · rw [fileObjectBytes_length]
      exact Nat.add_le_add_left hlimit _
    · simp [fileObjectBytes, encoderNew]

/-! ## 3. Symlinks -/

theorem validateSymlinkTarget_ok {t : Text} : validateSymlinkTarget t = .ok () ↔
    t ≠ [] ∧ t.byteLen ≤ maxSymlinkTargetBytes ∧ ¬ t.any Text.isControl = true := by
  simp only [validateSymlinkTarget, bind_ok, exists_unit, reject_ok, not_lt, ne_eq]

theorem SymlinkObject.byteLen_le (object : SymlinkObject) :
    object.val.byteLen ≤ maxSymlinkTargetBytes :=
  (validateSymlinkTarget_ok.1 object.property).2.1

theorem encodeSymlinkObject_length (object : SymlinkObject) :
    (encodeSymlinkObject object).length = 20 + 2 + 8 + object.val.byteLen := by
  have hdomain : symlinkDomain.length = 20 := by decide
  simp only [encodeSymlinkObject, encoderNew, encodeText, length_append, bigEndian_length,
    withLength_length, hdomain, Text.utf8_byteLen, add_assoc]

theorem readSymlinkObject_ok {object : SymlinkObject} :
    readSymlinkObject bytes = .ok (object, rest) ↔
      bytes = encodeSymlinkObject object ∧ rest = [] := by
  simp only [readSymlinkObject, readDomain, readVersion, readEnd, SymlinkObject.new,
    exists_unit, require_ok, mapError_ok, read_bind_ok, check_ok, literal_ok,
    finish_ok, read_pure_ok, fromUtf8_eq_some, validated_ok,
    constant_ok (by decide : treeObjectEncodingVersion < 256 ^ 2),
    readText_ok (by decide : maxSymlinkTargetBytes < 256 ^ 8)]
  constructor
  · rintro ⟨after, rfl, middle, rfl, bytes, tail, ⟨-, rfl⟩, target, -, ⟨rfl, rfl⟩, found, -,
      ⟨rfl, rfl⟩, last, ⟨rfl, rfl⟩, rfl, rfl⟩
    exact ⟨by simp [encodeSymlinkObject, encoderNew, encodeText], rfl⟩
  · rintro ⟨rfl, rfl⟩
    have hlen : (utf8 object.val).length ≤ maxSymlinkTargetBytes := by
      rw [Text.utf8_byteLen]
      exact object.byteLen_le
    exact ⟨_, by rw [encodeSymlinkObject, encoderNew, append_assoc], _, rfl,
      utf8 object.val, [], ⟨hlen, by simp [encodeText]⟩, object.val, [], ⟨rfl, rfl⟩,
      object, [], ⟨rfl, rfl⟩, [], ⟨rfl, rfl⟩, rfl, rfl⟩

/-- **A symlink decoder accepts exactly the encodings.** -/
theorem decodeSymlinkObject_ok {object : SymlinkObject} :
    decodeSymlinkObject bytes = .ok object ↔ bytes = encodeSymlinkObject object := by
  simp only [decodeSymlinkObject, preflightSize, checkCanonical, bind_ok, exists_unit, reject_ok,
    pure_ok, Prod.exists, readSymlinkObject_ok, not_lt, not_not]
  constructor
  · rintro ⟨-, found, final, ⟨rfl, rfl⟩, -, rfl⟩
    rfl
  · rintro rfl
    refine ⟨?_, object, [], ⟨rfl, rfl⟩, rfl, rfl⟩
    rw [encodeSymlinkObject_length]
    exact Nat.add_le_add_left object.byteLen_le _

/-! ## 4. Entries -/

variable {sha256 : List UInt8 → Digest} {entries : List TreeEntry}

section Entries

variable {entry : TreeEntry}

theorem validatePathSegment_ok {v : Text} : validatePathSegment v = .ok () ↔
    v ≠ [] ∧ v.byteLen ≤ maxTreeSegmentBytes ∧ ¬ (v = ['.'] ∨ v = ['.', '.']) ∧
      '/' ∉ v ∧ '\\' ∉ v ∧ ¬ v.any Text.isControl = true := by
  simp only [validatePathSegment, bind_ok, exists_unit, reject_ok, not_lt, ne_eq]

theorem TreePathSegment.byteLen_le (name : TreePathSegment) :
    name.val.byteLen ≤ maxTreeSegmentBytes :=
  (validatePathSegment_ok.1 name.property).2.1

theorem readEntryKind_ok {name : TreePathSegment} {tag : Nat} :
    readEntryKind sha256 name tag mode d bytes = .ok (entry, rest) ↔
      (entry.name = name ∧ entry.kind.tag = tag ∧ entry.mode = mode ∧
        entry.kind.digest = d) ∧ validateEntry sha256 entry = .ok () ∧
        bytes = entry.kind.lengthBytes ++ rest := by
  obtain ⟨found, foundMode, kind⟩ := entry
  unfold readEntryKind
  split
  · rename_i hfile
    subst hfile
    simp only [read_bind_ok, readNumber, number_ok, check_ok, TreeEntry.file, mapError_ok,
      bind_ok, exists_unit, pure_ok]
    constructor
    · rintro ⟨byteLen, middle, ⟨-, rfl⟩, ⟨hvalid, heq⟩, rfl⟩
      cases heq
      exact ⟨⟨rfl, rfl, rfl, rfl⟩, hvalid, rfl⟩
    · rintro ⟨⟨rfl, htag, rfl, rfl⟩, hvalid, rfl⟩
      cases kind with
      | file d byteLen =>
        have hlimit : byteLen ≤ maxTreeFileBytes := by
          simp only [validateEntry, bind_ok, exists_unit, reject_ok, not_lt] at hvalid
          exact hvalid.2.1
        exact ⟨byteLen, rest, ⟨hlimit.trans_lt (by decide), rfl⟩, ⟨hvalid, rfl⟩, rfl⟩
      | directory d => cases htag
      | safeRelativeSymlink d => cases htag
  · split
    · rename_i hdir
      subst hdir
      simp only [check_ok, TreeEntry.directory, mapError_ok, bind_ok, exists_unit, pure_ok]
      constructor
      · rintro ⟨⟨hvalid, heq⟩, rfl⟩
        cases heq
        exact ⟨⟨rfl, rfl, rfl, rfl⟩, hvalid, rfl⟩
      · rintro ⟨⟨rfl, htag, rfl, rfl⟩, hvalid, rfl⟩
        cases kind with
        | file d byteLen => cases htag
        | directory d => exact ⟨⟨hvalid, rfl⟩, rfl⟩
        | safeRelativeSymlink d => cases htag
    · rename_i hnotFile hnotDirectory
      have hsymlink : validateEntry sha256 ⟨found, foundMode, kind⟩ = .ok () →
          kind.tag = safeRelativeSymlinkTag → foundMode = normalizedSymlinkMode := by
        intro hvalid htag
        cases kind with
        | file d byteLen => cases htag
        | directory d => cases htag
        | safeRelativeSymlink d => exact not_not.1 (reject_ok.1 hvalid)
      split
      · rename_i hlink
        obtain ⟨rfl, rfl⟩ := hlink
        rw [read_pure_ok]
        constructor
        · rintro ⟨heq, rfl⟩
          cases heq
          exact ⟨⟨rfl, rfl, rfl, rfl⟩, reject_ok.2 (not_not.2 rfl), rfl⟩
        · rintro ⟨⟨rfl, htag, rfl, rfl⟩, hvalid, rfl⟩
          cases kind with
          | file d byteLen => cases htag
          | directory d => cases htag
          | safeRelativeSymlink d => exact ⟨rfl, rfl⟩
      · rename_i hnotLink
        split
        · rename_i htag
          rw [check_ok]
          constructor
          · rintro ⟨⟨⟩, -⟩
          · rintro ⟨⟨-, htag', rfl, -⟩, hvalid, -⟩
            exact absurd ⟨htag, hsymlink hvalid (htag'.trans htag)⟩ hnotLink
        · rename_i hunknown
          rw [check_ok]
          constructor
          · rintro ⟨⟨⟩, -⟩
          · rintro ⟨⟨-, htag, -, -⟩, -, -⟩
            cases kind with
            | file d byteLen => exact absurd htag.symm hnotFile
            | directory d => exact absurd htag.symm hnotDirectory
            | safeRelativeSymlink d => exact absurd htag.symm hunknown

theorem TreeEntryKind.tag_lt (kind : TreeEntryKind) : kind.tag < 256 ^ 1 := by
  cases kind with
  | file d byteLen =>
    show 0 < 256 ^ 1
    decide
  | directory d =>
    show 1 < 256 ^ 1
    decide
  | safeRelativeSymlink d =>
    show 2 < 256 ^ 1
    decide

variable {prev : Option TreePathSegment}

theorem readEntry_ok :
    readEntry sha256 prev bytes = .ok (entry, rest) ↔
      validateEntry sha256 entry = .ok () ∧ (∀ name ∈ prev, name.val < entry.name.val) ∧
        bytes = encodeEntry entry ++ rest := by
  have horder : ∀ name : TreePathSegment,
      (prev.any fun prev => name.val ≤ prev.val) = true ↔
        ¬ ∀ last ∈ prev, last.val < name.val := by
    intro name
    cases prev <;> simp
  simp only [readEntry, TreePathSegment.new, read_bind_ok, check_ok, exists_unit,
    require_ok, mapError_ok, reject_ok, fromUtf8_eq_some, validated_ok,
    horder, not_not, readNumber, number_ok, readMode_ok, readDigest_ok, readEntryKind_ok,
    readText_ok (by decide : maxTreeSegmentBytes < 256 ^ 8)]
  constructor
  · rintro ⟨v, after, ⟨-, rfl⟩, text, -, ⟨rfl, rfl⟩, name, -, ⟨rfl, rfl⟩, -, ⟨hprev, rfl⟩,
      tag, middle, ⟨-, rfl⟩, mode, next, rfl, d, last, rfl, ⟨rfl, rfl, rfl, rfl⟩, hvalid, rfl⟩
    exact ⟨hvalid, hprev, by simp [encodeEntry, encodeText]⟩
  · rintro ⟨hvalid, hprev, rfl⟩
    have hlen : (utf8 entry.name.val).length ≤ maxTreeSegmentBytes := by
      rw [Text.utf8_byteLen]
      exact entry.name.byteLen_le
    refine ⟨_, _, ⟨hlen, ?_⟩, _, _, ⟨rfl, rfl⟩, entry.name, _, ⟨rfl, rfl⟩, _, ⟨hprev, rfl⟩,
      entry.kind.tag, _, ⟨entry.kind.tag_lt, rfl⟩, entry.mode, _, rfl, entry.kind.digest, _, rfl,
      ⟨rfl, rfl, rfl, rfl⟩, hvalid, rfl⟩
    simp [encodeEntry, encodeText]

/-- The names after a previous one are strictly ascending. -/
def Ascending (previous : Option TreePathSegment) (entries : List TreeEntry) : Prop :=
  (previous.toList.map Subtype.val ++ entries.map fun entry => entry.name.val).IsChain (· < ·)

theorem ascending_cons :
    Ascending prev (entry :: entries) ↔
      (∀ name ∈ prev, name.val < entry.name.val) ∧ Ascending (some entry.name) entries := by
  cases prev <;> simp [Ascending]

theorem readEntries_ok {count : Nat} :
    readEntries sha256 count prev bytes = .ok (entries, rest) ↔
      entries.length = count ∧ (∀ entry ∈ entries, validateEntry sha256 entry = .ok ()) ∧
        Ascending prev entries ∧ bytes = entries.flatMap encodeEntry ++ rest := by
  induction count generalizing prev bytes entries with
  | zero =>
    rw [readEntries, read_pure_ok, length_eq_zero_iff]
    constructor
    · rintro ⟨rfl, rfl⟩
      refine ⟨rfl, by simp, ?_, rfl⟩
      cases prev <;> simp [Ascending]
    · rintro ⟨rfl, -, -, rfl⟩
      exact ⟨rfl, rfl⟩
  | succ count ih =>
    simp only [readEntries, read_bind_ok, readEntry_ok, read_pure_ok]
    constructor
    · rintro ⟨first, middle, ⟨hvalid, hprev, rfl⟩, others, last, hread, rfl, rfl⟩
      obtain ⟨rfl, hothers, hascending, rfl⟩ := ih.1 hread
      exact ⟨rfl, forall_mem_cons.2 ⟨hvalid, hothers⟩,
        ascending_cons.2 ⟨hprev, hascending⟩, by simp⟩
    · rintro ⟨hlen, hvalid, hascending, rfl⟩
      cases entries with
      | nil => cases hlen
      | cons first others =>
        obtain ⟨hfirst, hothers⟩ := forall_mem_cons.1 hvalid
        obtain ⟨hprev, hascending⟩ := ascending_cons.1 hascending
        exact ⟨first, _, ⟨hfirst, hprev, by simp⟩, others, rest,
          ih.2 ⟨succ.inj hlen, hothers, hascending, rfl⟩, rfl, rfl⟩

theorem encodeEntry_length (entry : TreeEntry) : (encodeEntry entry).length =
    8 + entry.name.val.byteLen + 1 + 4 + (8 + 71) + entry.kind.lengthBytes.length := by
  simp only [encodeEntry, encodeText, length_append, withLength_length, bigEndian_length,
    Text.utf8_byteLen, utf8_digestText_length entry.kind.digest, add_assoc]

theorem lengthBytes_length_le (kind : TreeEntryKind) : kind.lengthBytes.length ≤ 8 := by
  cases kind <;> simp [TreeEntryKind.lengthBytes]

theorem encodeEntry_length_le (entry : TreeEntry) :
    (encodeEntry entry).length ≤ 8 + maxTreeSegmentBytes + 1 + 4 + 8 + 71 + 8 := by
  have hname := entry.name.byteLen_le
  have hlen := lengthBytes_length_le entry.kind
  rw [encodeEntry_length]
  omega

theorem entryBytes_length_le (entries : List TreeEntry) :
    (entries.flatMap encodeEntry).length ≤
      entries.length * (8 + maxTreeSegmentBytes + 1 + 4 + 8 + 71 + 8) := by
  induction entries with
  | nil => simp
  | cons entry entries ih =>
    have hentry := encodeEntry_length_le entry
    rw [flatMap_cons, length_append, length_cons, succ_mul]
    omega

end Entries

/-! ## 5. Trees -/

section Trees

theorem ascending_of_sorted
    (hsorted : entries.Pairwise fun left right => left.name.val ≤ right.name.val)
    (hdist : duplicateName entries = none) : Ascending none entries := by
  show (entries.map fun entry => entry.name.val).IsChain (· < ·)
  induction entries using duplicateName.induct with
  | case1 first snd rest hsame => simp [duplicateName, hsame] at hdist
  | case2 first snd rest hdiffer ih =>
    rw [duplicateName, if_neg hdiffer] at hdist
    obtain ⟨hfirst, hrest⟩ := pairwise_cons.1 hsorted
    have hle : first.name.val ≤ snd.name.val := hfirst snd (by simp)
    have hne : first.name.val ≠ snd.name.val := fun heq => hdiffer (Subtype.ext heq)
    exact isChain_cons_cons.2 ⟨lt_of_le_of_ne hle hne, ih hrest hdist⟩
  | case3 entries hshort =>
    cases entries with
    | nil => simp
    | cons first rest =>
      cases rest with
      | nil => simp
      | cons snd rest => exact absurd rfl (hshort first snd rest)

theorem sortEntries_of_ascending (h : Ascending none entries) : sortEntries entries = entries := by
  have hchain : (entries.map fun entry => entry.name.val).IsChain (· < ·) := h
  have hpairwise := pairwise_map.1 hchain.pairwise
  exact sortEntries_of_sorted (hpairwise.imp fun hlt => le_of_lt hlt)

theorem checkTree_ok : checkTree sha256 rootMode entries = .ok () ↔
    validateDirectoryMode .rootDirectory rootMode = .ok () ∧ entries.length ≤ maxTreeEntries ∧
      (∀ entry ∈ entries, validateEntry sha256 entry = .ok ()) ∧
      duplicateName (sortEntries entries) = none ∧
      validateFileLengths (sortEntries entries) = .ok () := by
  simp only [checkTree, bind_ok, exists_unit, forM_ok, reject_ok, rejectSome_ok, not_lt]

variable {object : TreeObject sha256}

theorem TreeObject.new_ok :
    new sha256 rootMode entries = .ok object ↔
      checkTree sha256 rootMode entries = .ok () ∧ object.rootMode = rootMode ∧
        object.entries = sortEntries entries := by
  unfold new
  split
  · rename_i hvalid
    rw [Except.ok.injEq]
    constructor
    · rintro rfl
      exact ⟨hvalid, rfl, rfl⟩
    · rintro ⟨-, hmode, hentries⟩
      exact ext hmode.symm hentries.symm
  · rename_i hinvalid
    simp [hinvalid]

theorem TreeObject.ascending (object : TreeObject sha256) : Ascending none object.entries := by
  have hsorted := sortEntries_sorted object.entries
  have hdist := (checkTree_ok.1 object.valid).2.2.2.1
  rw [object.sorted] at hsorted hdist
  exact ascending_of_sorted hsorted hdist

theorem encodeTreeObject_length_le (object : TreeObject sha256) :
    (encodeTreeObject object).length ≤ maxTreeObjectBytes := by
  have hdomain : treeDomain.length = 17 := by decide
  have hcount := (checkTree_ok.1 object.valid).2.1
  have hentries := entryBytes_length_le object.entries
  simp only [encodeTreeObject, treeBytes, encoderNew, length_append, bigEndian_length, hdomain]
  exact Nat.add_le_add_left (hentries.trans (Nat.mul_le_mul_right _ hcount)) _

theorem readTreeObject_encode (object : TreeObject sha256) :
    readTreeObject sha256 (encodeTreeObject object) = .ok (object, []) := by
  obtain ⟨-, hcount, hvalid, -, -⟩ := checkTree_ok.1 object.valid
  have hentries : readEntries sha256 object.entries.length none
      (object.entries.flatMap encodeEntry) = .ok (object.entries, []) :=
    readEntries_ok.2 ⟨rfl, hvalid, object.ascending, by simp⟩
  have hnew : new sha256 object.rootMode object.entries = .ok object :=
    new_ok.2 ⟨object.valid, rfl, object.sorted.symm⟩
  simp only [readTreeObject, readDomain, readVersion, readEnd, readNumber, read_bind_ok, literal_ok,
    constant_ok (by decide : treeObjectEncodingVersion < 256 ^ 2), readMode_ok, number_ok,
    check_ok, finish_ok, exists_unit, reject_ok, mapError_ok, not_lt]
  refine ⟨_, ?_, _, rfl, object.rootMode, _, rfl, object.entries.length,
    object.entries.flatMap encodeEntry, ⟨hcount.trans_lt (by decide), rfl⟩, _, ⟨hcount, rfl⟩,
    object.entries, [], hentries, [], ⟨rfl, rfl⟩, hnew, rfl⟩
  simp only [encodeTreeObject, treeBytes, encoderNew, append_assoc]

theorem readTreeObject_eq (h : readTreeObject sha256 bytes = .ok (object, [])) :
    bytes = encodeTreeObject object := by
  simp only [readTreeObject, readDomain, readVersion, readEnd, readNumber, read_bind_ok, literal_ok,
    constant_ok (by decide : treeObjectEncodingVersion < 256 ^ 2), readMode_ok, number_ok,
    check_ok, finish_ok, exists_unit, reject_ok, mapError_ok, not_lt] at h
  obtain ⟨after, rfl, middle, rfl, rootMode, body, rfl, count, text, ⟨-, rfl⟩, _, ⟨-, rfl⟩,
    entries, last, hentries, tail, ⟨rfl, rfl⟩, hnew, -⟩ := h
  obtain ⟨-, rfl, hsorted⟩ := new_ok.1 hnew
  obtain ⟨rfl, -, hascending, rfl⟩ := readEntries_ok.1 hentries
  rw [sortEntries_of_ascending hascending] at hsorted
  simp only [encodeTreeObject, treeBytes, encoderNew, hsorted, append_assoc, append_nil]

/-- **A tree decoder accepts exactly the encodings.** -/
theorem decodeTreeObject_ok :
    decodeTreeObject sha256 bytes = .ok object ↔ bytes = encodeTreeObject object := by
  simp only [decodeTreeObject, preflightSize, checkCanonical, bind_ok,
    exists_unit, reject_ok, pure_ok, Prod.exists, not_lt, not_not]
  constructor
  · rintro ⟨-, found, rest, -, hcanon, rfl⟩
    exact hcanon.symm
  · rintro rfl
    exact ⟨encodeTreeObject_length_le object, object, [], readTreeObject_encode object, rfl, rfl⟩

end Trees

/-! ## 6. The three kinds -/

/-- What is constructible is what has an encoding, and the only bytes that decode to it. -/
structure RoundTrip {ε α : Type} (constructible : α → Prop) (encode : α → Except ε (List UInt8))
    (decode : List UInt8 → Except ε α) (limit : Nat) : Prop where
  encodes : ∀ object, constructible object →
    ∃ bytes, encode object = .ok bytes ∧ bytes.length ≤ limit ∧ decode bytes = .ok object
  decodes : ∀ bytes object, decode bytes = .ok object →
    constructible object ∧ encode object = .ok bytes

def accepts (sha256 : List UInt8 → Digest) (bytes : List UInt8) : ObjectKind → Bool
  | .file => (decodeFileObject bytes).toBool
  | .symlink => (decodeSymlinkObject bytes).toBool
  | .tree => (decodeTreeObject sha256 bytes).toBool

/-- The first byte in which the domains differ. -/
def ObjectKind.letter : ObjectKind → UInt8
  | .file => 102
  | .symlink => 115
  | .tree => 116

theorem ObjectKind.letter_injective : Function.Injective ObjectKind.letter := by
  intro left right h
  cases left <;> cases right <;> first | rfl | simp [ObjectKind.letter] at h

theorem encoderNew_letter {domain : List UInt8} {letter : UInt8} (h : domain[5]? = some letter) :
    (encoderNew domain ++ rest)[5]? = some letter := by
  have hlen : 5 < domain.length := (List.getElem?_eq_some_iff.1 h).1
  rw [encoderNew, append_assoc, List.getElem?_append_left hlen, h]

theorem accepts_letter {sha256 : List UInt8 → Digest} {kind : ObjectKind}
    (h : accepts sha256 bytes kind = true) : bytes[5]? = some kind.letter := by
  cases kind with
  | file =>
    obtain ⟨data, hdecode⟩ := toBool_eq_true.1 h
    obtain ⟨-, rfl⟩ := decodeFileObject_ok.1 hdecode
    rw [fileObjectBytes, append_assoc]
    exact encoderNew_letter (by decide)
  | symlink =>
    obtain ⟨object, hdecode⟩ := toBool_eq_true.1 h
    rw [decodeSymlinkObject_ok.1 hdecode]
    exact encoderNew_letter (by decide)
  | tree =>
    obtain ⟨object, hdecode⟩ := toBool_eq_true.1 h
    rw [decodeTreeObject_ok.1 hdecode, encodeTreeObject, treeBytes, append_assoc, append_assoc]
    exact encoderNew_letter (by decide)

theorem fileObject_roundTrip : RoundTrip (fun data => data.length ≤ maxTreeFileBytes)
    encodeFileObject decodeFileObject maxFileObjectBytes where
  encodes := by
    intro data hlimit
    refine ⟨_, encodeFileObject_ok.2 ⟨hlimit, rfl⟩, ?_, decodeFileObject_ok.2 ⟨hlimit, rfl⟩⟩
    rw [fileObjectBytes_length]
    exact Nat.add_le_add_left hlimit _
  decodes := by
    intro bytes data hdecode
    have hlimit := (decodeFileObject_ok.1 hdecode).1
    exact ⟨hlimit, encodeFileObject_ok.2 (decodeFileObject_ok.1 hdecode)⟩

theorem symlinkObject_roundTrip : RoundTrip (fun _ => True)
    (fun object => .ok (encodeSymlinkObject object)) decodeSymlinkObject
    maxSymlinkObjectBytes where
  encodes := by
    intro object _
    refine ⟨_, rfl, ?_, decodeSymlinkObject_ok.2 rfl⟩
    rw [encodeSymlinkObject_length]
    exact Nat.add_le_add_left object.byteLen_le _
  decodes := by
    intro bytes object hdecode
    rw [decodeSymlinkObject_ok.1 hdecode]
    exact ⟨trivial, rfl⟩

theorem treeObject_roundTrip (sha256 : List UInt8 → Digest) : RoundTrip (fun _ => True)
    (fun object => .ok (encodeTreeObject object)) (decodeTreeObject sha256)
    maxTreeObjectBytes where
  encodes := by
    intro object _
    exact ⟨_, rfl, encodeTreeObject_length_le object, decodeTreeObject_ok.2 rfl⟩
  decodes := by
    intro bytes object hdecode
    rw [decodeTreeObject_ok.1 hdecode]
    exact ⟨trivial, rfl⟩

/-- **The canonical tree format round trip**, for each kind of object; no bytes are of two
kinds. -/
theorem canonicalFormat_roundTrip (sha256 : List UInt8 → Digest) :
    RoundTrip (fun data => data.length ≤ maxTreeFileBytes)
        encodeFileObject decodeFileObject maxFileObjectBytes ∧
      RoundTrip (fun _ => True) (fun object => .ok (encodeSymlinkObject object))
        decodeSymlinkObject maxSymlinkObjectBytes ∧
      RoundTrip (fun _ => True) (fun object => .ok (encodeTreeObject object))
        (decodeTreeObject sha256) maxTreeObjectBytes ∧
      ∀ bytes, ∀ left right : ObjectKind, accepts sha256 bytes left = true →
        accepts sha256 bytes right = true → left = right := by
  refine ⟨fileObject_roundTrip, symlinkObject_roundTrip, treeObject_roundTrip sha256, ?_⟩
  intro bytes left right hleft hright
  have hletters := (accepts_letter hleft).symm.trans (accepts_letter hright)
  exact ObjectKind.letter_injective (some.inj hletters)

end Malm.Tree
