/-
Malm.Commit.WireTheorems — the committer and the tree crate decode alike.

What the committer reads corresponds to what the tree crate reads (`entryOf`), and the
totals its loop carries are those that `validate_file_lengths` computes afterwards
(`stateOf`).
-/
import Malm.Commit.Wire
import Malm.Tree.CodecTheorems

namespace Malm.Commit.Wire

open Commit Bytes Checks List

variable {mode : BitVec 32}

/-! ## 1. Values and fields -/

def kindOf : Tree.TreeEntryKind → TreeEntryKind
  | .file digest byteLen => .file digest.val byteLen
  | .directory digest => .directory digest.val
  | .safeRelativeSymlink digest => .symlink digest.val

def entryOf (entry : Tree.TreeEntry) : TreeEntry :=
  ⟨entry.name.val, entry.mode, kindOf entry.kind⟩

def treeOf {sha256 : List UInt8 → Digest} (object : Tree.TreeObject sha256) : TreeObject :=
  ⟨object.rootMode, object.entries.map entryOf⟩

/-- The bytes and the lengths of `validate_file_lengths`. -/
abbrev Totals := Nat × List (Tree.ObjectDigest × Nat)

def stateOf (previous : Option Tree.TreePathSegment) (totals : Totals) : TreeDecodeState :=
  ⟨previous.map Subtype.val, totals.1, totals.2.map fun entry => (entry.1.val, entry.2)⟩

section Fields

variable {bytes rest : List UInt8}

theorem readText_ok {maximum : Nat} {role : String} {v : List UInt8}
    (hmaximum : maximum < 256 ^ 8) :
    readText maximum role bytes = .ok (v, rest) ↔
      v.length ≤ maximum ∧ bytes = withLength v ++ rest :=
  sized_ok hmaximum

theorem readMode_ok :
    readMode bytes = .ok (mode, rest) ↔ bytes = bigEndian 4 mode.toNat ++ rest :=
  bits_ok

theorem readDigest_ok (obj : Tree.ObjectKind) {digest : Tree.ObjectDigest} :
    readDigest bytes = .ok (digest, rest) ↔ Tree.readDigest obj bytes = .ok (digest, rest) := by
  simp only [readDigest, Tree.readDigest, read_bind_ok, check_ok, exists_unit,
    reject_ok, require_ok, readText_ok (by decide : 71 < 256 ^ 8),
    Tree.readText_ok (by decide : Tree.digestTextBytes < 256 ^ 8)]
  exact Iff.rfl

theorem validateSegment_ok {v : Text} :
    validateSegment v = .ok () ↔ Tree.validatePathSegment v = .ok () := by
  simp only [validateSegment, Tree.validatePathSegment_ok, reject_ok, not_or, not_lt,
    List.isEmpty_iff, Tree.maxTreeSegmentBytes, and_assoc, ne_eq]

theorem validateDirectoryMode_ok (kind : Tree.TreeNodeKind) :
    validateDirectoryMode mode = .ok () ↔ Tree.validateDirectoryMode kind mode = .ok () := by
  simp only [validateDirectoryMode, Tree.validateDirectoryMode, reject_ok]

theorem validateFileMode_ok :
    validateFileMode mode = .ok () ↔ Tree.validateFileMode mode = .ok () := by
  simp only [validateFileMode, Tree.validateFileMode, reject_ok]

end Fields

/-! ## 2. Files and symlinks -/

section Decoders

variable {sha256 : List UInt8 → Digest} {expected : Digest} {bytes rest : List UInt8}

theorem readFile_ok {data : List UInt8} :
    (∃ rest, readFile bytes = .ok (data, rest)) ↔
      Tree.decodeFileObject bytes = .ok data := by
  rw [Tree.decodeFileObject_ok]
  simp only [readFile, readDomain, readVersion, readNumber, readEnd, read_bind_ok, check_ok, literal_ok,
    number_ok, take_ok, finish_ok, read_pure_ok, exists_unit, reject_ok, not_lt,
    constant_ok (by decide : version < 256 ^ 2)]
  constructor
  · rintro ⟨final, after, rfl, middle, rfl, length, body, ⟨-, rfl⟩, -, ⟨hlimit, rfl⟩, value, tail,
      ⟨rfl, rfl⟩, last, ⟨rfl, rfl⟩, rfl, rfl⟩
    exact ⟨hlimit, by simp [Tree.fileObjectBytes, Tree.encoderNew, Tree.fileDomain, fileDomain,
      version, Tree.treeObjectEncodingVersion]⟩
  · rintro ⟨hlimit, rfl⟩
    refine ⟨[], _, ?_, _, rfl, data.length, data, ⟨hlimit.trans_lt (by decide), rfl⟩,
      data, ⟨hlimit, rfl⟩, data, [], ⟨rfl, by simp⟩, [], ⟨rfl, rfl⟩, rfl, rfl⟩
    simp [Tree.fileObjectBytes, Tree.encoderNew, Tree.fileDomain, fileDomain, version,
      Tree.treeObjectEncodingVersion]

theorem decodeVerified_ok {α : Type} {obj : Tree.ObjectKind}
    {decode : List UInt8 → Except Tree.ObjectReadError α} {value : α} :
    Tree.decodeVerified sha256 obj decode expected bytes = .ok value ↔
      sha256 bytes = expected ∧ decode bytes = .ok value := by
  simp only [Tree.decodeVerified, Tree.verifyDigest, bind_ok, exists_unit,
    reject_ok, pure_ok, not_not]
  constructor
  · rintro ⟨found, hdecode, hdigest, rfl⟩
    exact ⟨hdigest, hdecode⟩
  · rintro ⟨hdigest, hdecode⟩
    exact ⟨value, hdecode, hdigest, rfl⟩

theorem verifyDigest_ok {actual : Digest} :
    verifyDigest expected actual = .ok () ↔ actual = expected := by
  simp only [verifyDigest, reject_ok, not_not]

theorem decodeFile_ok {data : List UInt8} :
    decodeFile sha256 expected bytes = .ok data ↔
      Tree.decodeVerifiedFileObject sha256 expected bytes = .ok data := by
  simp only [decodeFile, Tree.decodeVerifiedFileObject, decodeVerified_ok, bind_ok,
    exists_unit, verifyDigest_ok, ← readFile_ok, Prod.exists, pure_ok]
  constructor
  · rintro ⟨hdigest, found, rest, hread, rfl⟩
    exact ⟨hdigest, rest, hread⟩
  · rintro ⟨hdigest, rest, hread⟩
    exact ⟨hdigest, data, rest, hread, rfl⟩

theorem readSymlink_ok {target : Text} :
    (∃ rest, readSymlink bytes = .ok (target, rest)) ↔
      ∃ obj, Tree.decodeSymlinkObject bytes = .ok obj ∧ obj.val = target := by
  simp only [Tree.decodeSymlinkObject_ok, readSymlink, readDomain, readVersion, readEnd, read_bind_ok,
    check_ok, literal_ok, finish_ok, read_pure_ok, fromUtf8_eq_some, exists_unit,
    reject_ok, require_ok, constant_ok (by decide : version < 256 ^ 2),
    readText_ok (by decide : maxSymlinkBytes < 256 ^ 8)]
  constructor
  · rintro ⟨final, after, rfl, middle, rfl, value, tail, ⟨hlimit, rfl⟩, found, -, ⟨rfl, rfl⟩, -,
      ⟨hshape, rfl⟩, last, ⟨rfl, rfl⟩, rfl, rfl⟩
    rw [Text.utf8_byteLen] at hlimit
    rw [not_or, List.isEmpty_iff] at hshape
    refine ⟨⟨found, Tree.validateSymlinkTarget_ok.2 ⟨hshape.1, hlimit, hshape.2⟩⟩, ?_, rfl⟩
    simp [Tree.encodeSymlinkObject, Tree.encoderNew, Tree.encodeText, Tree.symlinkDomain,
      symlinkDomain, version, Tree.treeObjectEncodingVersion]
  · rintro ⟨obj, rfl, rfl⟩
    obtain ⟨hne, hlimit, hcontrol⟩ := Tree.validateSymlinkTarget_ok.1 obj.property
    refine ⟨[], _, ?_, _, rfl, utf8 obj.val, [], ⟨?_, rfl⟩, obj.val, [], ⟨rfl, rfl⟩, [],
      ⟨?_, rfl⟩, [], ⟨rfl, rfl⟩, rfl, rfl⟩
    · simp [Tree.encodeSymlinkObject, Tree.encoderNew, Tree.encodeText, Tree.symlinkDomain,
        symlinkDomain, version, Tree.treeObjectEncodingVersion]
    · rw [Text.utf8_byteLen]
      exact hlimit
    · rw [not_or, List.isEmpty_iff]
      exact ⟨hne, hcontrol⟩

theorem decodeSymlink_ok {target : Text} :
    decodeSymlink sha256 expected bytes = .ok target ↔
      ∃ obj, Tree.decodeVerifiedSymlinkObject sha256 expected bytes = .ok obj ∧
        obj.val = target := by
  simp only [decodeSymlink, Tree.decodeVerifiedSymlinkObject, decodeVerified_ok, bind_ok,
    exists_unit, verifyDigest_ok, Prod.exists, pure_ok]
  constructor
  · rintro ⟨hdigest, found, rest, hread, rfl⟩
    obtain ⟨obj, hdecode, hvalue⟩ := readSymlink_ok.1 ⟨rest, hread⟩
    exact ⟨obj, ⟨hdigest, hdecode⟩, hvalue⟩
  · rintro ⟨obj, ⟨hdigest, hdecode⟩, hvalue⟩
    obtain ⟨rest, hread⟩ := readSymlink_ok.2 ⟨obj, hdecode, hvalue⟩
    exact ⟨hdigest, target, rest, hread, rfl⟩

/-! ## 3. Entries -/

theorem lookup_stateOf (lengths : List (Tree.ObjectDigest × Nat)) (digest : Tree.ObjectDigest) :
    (lengths.map fun e => (e.1.val, e.2)).lookup digest.val = lengths.lookup digest := by
  induction lengths with
  | nil => rfl
  | cons first lengths ih =>
    obtain ⟨found, length⟩ := first
    by_cases hsame : digest = found
    · subst hsame
      simp
    · have hdiffer : digest.val ≠ found.val := fun heq => hsame (Subtype.ext heq)
      rw [map_cons, lookup_cons, lookup_cons, beq_false_of_ne hdiffer, beq_false_of_ne hsame]
      exact ih

variable {next : TreeDecodeState} {byteLen : Nat} {totals : Totals} {digest : Tree.ObjectDigest}
  {prev : Option Tree.TreePathSegment}

theorem addFile_stateOf (name : Tree.TreePathSegment) (mode : BitVec 32) :
    addFile sha256 (stateOf prev totals) digest.val byteLen = .ok next ↔
      byteLen ≤ maxTreeFileBytes ∧ ¬ (byteLen = 0 ∧ digest.val ≠ sha256 Tree.emptyFileObject) ∧
        ∃ totals', Tree.validateFileLength totals ⟨name, mode, .file digest byteLen⟩ =
          .ok totals' ∧ stateOf prev totals' = next := by
  have hempty : emptyFileDigest sha256 = sha256 Tree.emptyFileObject := rfl
  have hconf : ¬ (totals.2.lookup digest).any (fun first => decide (first ≠ byteLen)) = true ↔
      (totals.2.lookup digest).filter (fun first => decide (first ≠ byteLen)) = none := by
    cases totals.2.lookup digest <;> simp
  simp only [addFile, Tree.validateFileLength, bind_ok, exists_unit, reject_ok,
    rejectSome_ok, pure_ok, not_lt]
  simp only [stateOf, lookup_stateOf, hempty, hconf]
  constructor
  · rintro ⟨hlimit, htotal, hlengths, hidentity, rfl⟩
    exact ⟨hlimit, hidentity, _, ⟨htotal, hlengths, rfl⟩, by simp⟩
  · rintro ⟨hlimit, hidentity, totals', ⟨htotal, hlengths, rfl⟩, rfl⟩
    exact ⟨hlimit, htotal, hlengths, hidentity, by simp⟩

theorem readKind_ok (name : Tree.TreePathSegment) {tag : Nat} {kind : TreeEntryKind} :
    readKind sha256 (stateOf (some name) totals) tag mode digest.val bytes =
        .ok ((kind, next), rest) ↔
      ∃ e totals', Tree.readEntryKind sha256 name tag mode digest bytes = .ok (e, rest) ∧
        Tree.validateFileLength totals e = .ok totals' ∧
        kindOf e.kind = kind ∧ stateOf (some name) totals' = next := by
  unfold readKind Tree.readEntryKind
  by_cases hfile : tag = 0
  · have hfileTag : tag = Tree.fileTag := hfile
    simp only [if_pos hfile, if_pos hfileTag, read_bind_ok, check_ok, read_pure_ok, readNumber,
      Tree.readNumber, number_ok, exists_unit, mapError_ok, bind_ok,
      pure_ok, reject_ok, Tree.TreeEntry.file, Tree.validateEntry,
      validateFileMode_ok, addFile_stateOf name mode, Prod.mk.injEq, not_lt]
    constructor
    · rintro ⟨-, ⟨hmode, rfl⟩, byteLen, middle, ⟨hwidth, rfl⟩, state, tail,
        ⟨⟨hlimit, hidentity, totals', htotals, rfl⟩, rfl⟩, ⟨rfl, rfl⟩, rfl⟩
      exact ⟨_, totals', ⟨byteLen, middle, ⟨hwidth, rfl⟩, ⟨⟨hmode, hlimit, hidentity⟩, rfl⟩, rfl⟩,
        htotals, rfl, rfl⟩
    · rintro ⟨e, totals', ⟨byteLen, middle, ⟨hwidth, rfl⟩,
        ⟨⟨hmode, hlimit, hidentity⟩, rfl⟩, rfl⟩, htotals, rfl, rfl⟩
      exact ⟨_, ⟨hmode, rfl⟩, byteLen, middle, ⟨hwidth, rfl⟩, _, _,
        ⟨⟨hlimit, hidentity, totals', htotals, rfl⟩, rfl⟩, ⟨rfl, rfl⟩, rfl⟩
  · have hfileTag : ¬ tag = Tree.fileTag := hfile
    rw [if_neg hfile, if_neg hfileTag]
    by_cases hdir : tag = 1
    · have hdirectoryTag : tag = Tree.directoryTag := hdir
      simp only [if_pos hdir, if_pos hdirectoryTag, read_bind_ok, check_ok, read_pure_ok,
        exists_unit, mapError_ok, bind_ok, pure_ok, Tree.TreeEntry.directory, Tree.validateEntry,
        validateDirectoryMode_ok .directory, Prod.mk.injEq]
      constructor
      · rintro ⟨-, ⟨hmode, rfl⟩, ⟨rfl, rfl⟩, rfl⟩
        exact ⟨_, totals, ⟨⟨hmode, rfl⟩, rfl⟩, rfl, rfl, rfl⟩
      · rintro ⟨e, totals', ⟨⟨hmode, rfl⟩, rfl⟩, htotals, rfl, rfl⟩
        cases htotals
        exact ⟨_, ⟨hmode, rfl⟩, ⟨rfl, rfl⟩, rfl⟩
    · have hdirectoryTag : ¬ tag = Tree.directoryTag := hdir
      rw [if_neg hdir, if_neg hdirectoryTag]
      by_cases hlink : tag = 2 ∧ mode = 0o777#32
      · have hlinkTag : tag = Tree.safeRelativeSymlinkTag ∧ mode = Tree.normalizedSymlinkMode :=
          hlink
        rw [if_pos hlink, if_pos hlinkTag]
        simp only [read_pure_ok, Prod.mk.injEq]
        constructor
        · rintro ⟨⟨rfl, rfl⟩, rfl⟩
          exact ⟨_, totals, ⟨rfl, rfl⟩, rfl, rfl, rfl⟩
        · rintro ⟨e, totals', ⟨rfl, rfl⟩, htotals, rfl, rfl⟩
          cases htotals
          exact ⟨⟨rfl, rfl⟩, rfl⟩
      · have hlinkTag :
            ¬ (tag = Tree.safeRelativeSymlinkTag ∧ mode = Tree.normalizedSymlinkMode) := hlink
        rw [if_neg hlink, if_neg hlinkTag]
        by_cases htag : tag = 2
        · have htagTag : tag = Tree.safeRelativeSymlinkTag := htag
          simp [if_pos htag, if_pos htagTag, check_ok]
        · have htagTag : ¬ tag = Tree.safeRelativeSymlinkTag := htag
          simp [if_neg htag, if_neg htagTag, check_ok]

theorem readEntry_ok {e : TreeEntry} :
    readEntry sha256 (stateOf prev totals) bytes = .ok ((e, next), rest) ↔
      ∃ found totals', Tree.readEntry sha256 prev bytes = .ok (found, rest) ∧
        Tree.validateFileLength totals found = .ok totals' ∧
        entryOf found = e ∧ stateOf (some found.name) totals' = next := by
  have horder : ∀ name : Tree.TreePathSegment,
      ((prev.map Subtype.val).any fun last => decide (name.val ≤ last)) =
        prev.any fun last => decide (name.val ≤ last.val) := by
    intro name
    cases prev <;> rfl
  simp only [readEntry, Tree.readEntry, Tree.TreePathSegment.new, read_bind_ok, check_ok, read_pure_ok,
    exists_unit, require_ok, mapError_ok, reject_ok,
    Tree.validated_ok, readNumber, Tree.readNumber, number_ok, readMode_ok, Tree.readMode_ok,
    readDigest_ok .tree, readText_ok (by decide : 255 < 256 ^ 8),
    Tree.readText_ok (by decide : Tree.maxTreeSegmentBytes < 256 ^ 8)]
  constructor
  · rintro ⟨v, _, htext, name, _, ⟨hname, rfl⟩, _, ⟨hseg, rfl⟩, _, ⟨hprev, rfl⟩,
      tag, middle, htag, mode, rest', hmode, digest, tail, hdigest, ⟨kind, s⟩, last, hkind,
      heq, rfl⟩
    obtain ⟨rfl, rfl⟩ := Prod.mk.inj heq
    have hvalid := validateSegment_ok.1 hseg
    obtain ⟨found, totals', hread, htotals, rfl, rfl⟩ := (readKind_ok ⟨name, hvalid⟩).1 hkind
    obtain ⟨⟨hfoundName, -, hfoundMode, -⟩, -, -⟩ := Tree.readEntryKind_ok.1 hread
    refine ⟨found, totals', ⟨v, _, htext, name, _, ⟨hname, rfl⟩, ⟨name, hvalid⟩, _,
      ⟨rfl, rfl⟩, _, ⟨?_, rfl⟩, tag, middle, htag, mode, rest', hmode, digest, tail, hdigest,
      hread⟩, htotals, ?_, ?_⟩
    · rw [← horder ⟨name, hvalid⟩]
      exact hprev
    · rw [entryOf, hfoundName, hfoundMode]
    · rw [hfoundName]
  · rintro ⟨found, totals', ⟨v, _, htext, text, _, ⟨htext', rfl⟩, name, _, ⟨rfl, rfl⟩, _,
      ⟨hprev, rfl⟩, tag, middle, htag, mode, rest', hmode, digest, tail, hdigest, hread⟩,
      htotals, rfl, rfl⟩
    obtain ⟨⟨rfl, -, rfl, -⟩, -, -⟩ := Tree.readEntryKind_ok.1 hread
    rw [← horder found.name] at hprev
    exact ⟨v, _, htext, found.name.val, _, ⟨htext', rfl⟩, _,
      ⟨validateSegment_ok.2 found.name.property, rfl⟩, _, ⟨hprev, rfl⟩, tag, middle, htag,
      found.mode, rest', hmode, digest, tail, hdigest, (kindOf found.kind, _), rest,
      (readKind_ok found.name).2 ⟨found, totals', hread, htotals, rfl, rfl⟩, rfl, rfl⟩

theorem readEntries_ok {count : Nat} {entries : List TreeEntry} :
    readEntries sha256 count (stateOf prev totals) bytes = .ok (entries, rest) ↔
      ∃ found final, Tree.readEntries sha256 count prev bytes = .ok (found, rest) ∧
        found.foldlM Tree.validateFileLength totals = .ok final ∧
        found.map entryOf = entries := by
  induction count generalizing prev totals bytes entries with
  | zero =>
    simp only [readEntries, Tree.readEntries, read_pure_ok]
    constructor
    · rintro ⟨rfl, rfl⟩
      exact ⟨[], totals, ⟨rfl, rfl⟩, rfl, rfl⟩
    · rintro ⟨found, final, ⟨rfl, rfl⟩, -, rfl⟩
      exact ⟨rfl, rfl⟩
  | succ count ih =>
    simp only [readEntries, Tree.readEntries, read_bind_ok, read_pure_ok]
    constructor
    · rintro ⟨⟨e, next⟩, mid, hentry, others, last, hothers, rfl, rfl⟩
      obtain ⟨first, totals', hfirst, hlen, rfl, rfl⟩ := readEntry_ok.1 hentry
      obtain ⟨found, final, hfound, hlengths, rfl⟩ := ih.1 hothers
      refine ⟨first :: found, final, ⟨first, mid, hfirst, found, last, hfound, rfl, rfl⟩, ?_, rfl⟩
      rw [List.foldlM_cons, hlen, ok_bind, hlengths]
    · rintro ⟨all, final, ⟨first, mid, hfirst, found, last, hfound, rfl, rfl⟩, hlengths, rfl⟩
      rw [List.foldlM_cons, bind_ok] at hlengths
      obtain ⟨totals', hlen, hlengths⟩ := hlengths
      exact ⟨(entryOf first, _), mid, readEntry_ok.2 ⟨first, totals', hfirst, hlen, rfl, rfl⟩,
        found.map entryOf, last, ih.2 ⟨found, final, hfound, hlengths, rfl⟩, rfl, rfl⟩

/-! ## 4. Trees -/

theorem duplicateName_of_ascending {es : List Tree.TreeEntry}
    (h : Tree.Ascending none es) : Tree.duplicateName es = none := by
  have hchain : (es.map fun e => e.name.val).IsChain (· < ·) := h
  clear h
  induction es using Tree.duplicateName.induct with
  | case1 first snd rest hsame =>
    have hlt : first.name.val < snd.name.val := (isChain_cons_cons.1 hchain).1
    rw [hsame] at hlt
    exact absurd hlt (lt_irrefl _)
  | case2 first snd rest hdiffer ih =>
    rw [Tree.duplicateName, if_neg hdiffer]
    exact ih (isChain_cons_cons.1 hchain).2
  | case3 es hshort => simp [Tree.duplicateName]

theorem readTree_ok {tree : TreeObject} :
    (∃ rest, readTree sha256 bytes = .ok (tree, rest)) ↔
      ∃ obj : Tree.TreeObject sha256, Tree.readTreeObject sha256 bytes = .ok (obj, []) ∧
        treeOf obj = tree := by
  have hstate : (⟨none, 0, []⟩ : TreeDecodeState) = stateOf none (0, []) := rfl
  simp only [readTree, Tree.readTreeObject, readDomain, readVersion, readEnd, Tree.readDomain,
    Tree.readVersion, Tree.readEnd, readNumber, Tree.readNumber, read_bind_ok, literal_ok, number_ok,
    check_ok, finish_ok, read_pure_ok, readMode_ok, Tree.readMode_ok, exists_unit,
    reject_ok, mapError_ok, not_lt, hstate, readEntries_ok,
    constant_ok (by decide : version < 256 ^ 2),
    constant_ok (by decide : Tree.treeObjectEncodingVersion < 256 ^ 2),
    validateDirectoryMode_ok .rootDirectory]
  constructor
  · rintro ⟨final, after, rfl, middle, rfl, mode, body, rfl, -, ⟨hmode, rfl⟩, count, text,
      ⟨hwidth, rfl⟩, _, ⟨hcount, rfl⟩, es, last, ⟨found, totals, hread, hlengths, rfl⟩, tail,
      ⟨rfl, rfl⟩, rfl, rfl⟩
    obtain ⟨rfl, hvalid, hascending, rfl⟩ := Tree.readEntries_ok.1 hread
    have hsorted := Tree.sortEntries_of_ascending hascending
    have hcheck : Tree.checkTree sha256 mode found = .ok () := by
      rw [Tree.checkTree_ok, hsorted]
      refine ⟨hmode, hcount, hvalid, duplicateName_of_ascending hascending, ?_⟩
      rw [Tree.validateFileLengths, hlengths]
      rfl
    exact ⟨⟨mode, found, hsorted, hcheck⟩, ⟨_, rfl, _, rfl, mode, _, rfl, found.length, _,
      ⟨hwidth, rfl⟩, _, ⟨hcount, rfl⟩, found, [], hread, [], ⟨rfl, rfl⟩,
      Tree.TreeObject.new_ok.2 ⟨hcheck, rfl, hsorted.symm⟩, rfl⟩, rfl⟩
  · rintro ⟨obj, ⟨after, rfl, middle, rfl, mode, body, rfl, count, text, ⟨hwidth, rfl⟩, _,
      ⟨hcount, rfl⟩, found, last, hread, tail, ⟨rfl, rfl⟩, hnew, -⟩, rfl⟩
    obtain ⟨hcheck, rfl, hentries⟩ := Tree.TreeObject.new_ok.1 hnew
    obtain ⟨-, -, hascending, -⟩ := Tree.readEntries_ok.1 hread
    rw [Tree.sortEntries_of_ascending hascending] at hentries
    subst hentries
    obtain ⟨hmode, -, -, -, hlengths⟩ := Tree.checkTree_ok.1 hcheck
    rw [obj.sorted, Tree.validateFileLengths, bind_ok] at hlengths
    obtain ⟨totals, hlengths, -⟩ := hlengths
    exact ⟨[], _, rfl, _, rfl, obj.rootMode, _, rfl, _, ⟨hmode, rfl⟩, count, _, ⟨hwidth, rfl⟩,
      _, ⟨hcount, rfl⟩, obj.entries.map entryOf, [],
      ⟨obj.entries, totals, hread, hlengths, rfl⟩, [], ⟨rfl, rfl⟩, rfl, rfl⟩

theorem decodeTree_ok {tree : TreeObject} :
    decodeTree sha256 expected bytes = .ok tree ↔
      ∃ obj, Tree.decodeVerifiedTreeObject sha256 expected bytes = .ok obj ∧
        treeOf obj = tree := by
  simp only [decodeTree, Tree.decodeVerifiedTreeObject, decodeVerified_ok, bind_ok,
    exists_unit, verifyDigest_ok, Prod.exists, pure_ok, Tree.decodeTreeObject_ok]
  constructor
  · rintro ⟨hdigest, found, rest, hread, rfl⟩
    obtain ⟨obj, hobj, htree⟩ := readTree_ok.1 ⟨rest, hread⟩
    exact ⟨obj, ⟨hdigest, Tree.readTreeObject_eq hobj⟩, htree⟩
  · rintro ⟨obj, ⟨hdigest, rfl⟩, htree⟩
    obtain ⟨rest, hread⟩ := readTree_ok.2 ⟨obj, Tree.readTreeObject_encode obj, htree⟩
    exact ⟨hdigest, tree, rest, hread, rfl⟩

end Decoders

/-- **The decoders agree** on files, symlinks and trees, for all bytes and every digest. -/
theorem decoders_agree (sha256 : List UInt8 → Digest) (expected : Digest) (bytes : List UInt8) :
    (∀ data, decodeFile sha256 expected bytes = .ok data ↔
        Tree.decodeVerifiedFileObject sha256 expected bytes = .ok data) ∧
      (∀ target, decodeSymlink sha256 expected bytes = .ok target ↔
        ∃ object, Tree.decodeVerifiedSymlinkObject sha256 expected bytes = .ok object ∧
          object.val = target) ∧
      (∀ tree, decodeTree sha256 expected bytes = .ok tree ↔
        ∃ object, Tree.decodeVerifiedTreeObject sha256 expected bytes = .ok object ∧
          treeOf object = tree) :=
  ⟨fun _ => decodeFile_ok, fun _ => decodeSymlink_ok, fun _ => decodeTree_ok⟩

end Malm.Commit.Wire
