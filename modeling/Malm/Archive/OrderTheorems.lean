/-
Malm.Archive.OrderTheorems — the order of the entries of an archive does not matter.

Decoding a payload is the run of the effects of its entries (`parseUstar_payload`), and
effects commute, so every permutation of the entries leaves the same state of the parse.
-/
import Malm.Archive.EntryTheorems

namespace Malm.Archive

open Malm.Tree Updates Checks List Option Nat Effect

variable {blockIndex size turns : Nat}

/-! ## 1. Entries and payloads -/

/-- The body behind a header block: a file has its contents and their padding. -/
def bodyLength (block : List UInt8) : Nat :=
  match parseOctal (field block 124 136) 0
    "size is not a fixed-width NUL-terminated octal field" with
  | .ok size => if block[156]?.getD 0 = 48 then size + paddingLen size else 0
  | .error _ => 0

/-- An entry of an archive: a header block, which is not a zero block, and its body. -/
structure ArchiveEntry where
  header : List UInt8
  body : List UInt8
  header_length : header.length = ustarBlockBytes
  header_nonzero : isZeroBlock header = false
  body_length : body.length = bodyLength header

def ArchiveEntry.bytes (entry : ArchiveEntry) : List UInt8 := entry.header ++ entry.body

def zeroBlock : List UInt8 := List.replicate ustarBlockBytes 0

def payload (entries : List ArchiveEntry) : List UInt8 :=
  entries.flatMap ArchiveEntry.bytes ++ (zeroBlock ++ zeroBlock)

theorem payload_cons (first : ArchiveEntry) (rest : List ArchiveEntry) :
    payload (first :: rest) = first.header ++ (first.body ++ payload rest) := by
  simp [payload, ArchiveEntry.bytes]

theorem length_zeroBlock : zeroBlock.length = ustarBlockBytes := length_replicate

theorem length_payload (es : List ArchiveEntry) :
    ustarBlockBytes * (es.length + 2) ≤ (payload es).length := by
  induction es with
  | nil => simp [payload, length_zeroBlock, ustarBlockBytes]
  | cons first rest ih =>
    rw [payload_cons, length_append, length_append, first.header_length, length_cons]
    simp only [ustarBlockBytes] at *
    omega

variable {left right : List ArchiveEntry}

theorem length_payload_perm (h : left.Perm right) :
    (payload left).length = (payload right).length := by
  simp only [payload, length_append]
  rw [(h.flatMap_right ArchiveEntry.bytes).length_eq]

/-! ## 2. The effects of an entry -/

/-- What an entry does behind its header. -/
def kindEffects (sha256 : List UInt8 → ObjectDigest) (limits : ArchiveLimits) (header : Header)
    (body : List UInt8) : Option (List Effect) :=
  match header.kind with
  | .file =>
    if header.size ≤ limits.fileBytes ∧ (body.drop header.size).all (· = 0) = true then
      (encodeFileObject (body.take header.size)).toOption.map (fileEffects sha256 header)
    else none
  | .directory =>
    some (parentTouches header.components ++
      [.touch header.components (.directory header.mode)])
  | .symlink target =>
    (SymlinkObject.new target).toOption.map fun object =>
      parentTouches header.components ++ [.store (.symlink object)] ++
        [.touch header.components (.leaf (.symlink (sha256 (encodeSymlinkObject object))))]

/-- The block of a header, which every entry starts with. -/
def blockEffects : List Effect :=
  [.charge .metadata ustarBlockBytes, .charge .work 1] ++ readCharges 1

/-- The effects of an entry, if its header and its body are valid. -/
def entryEffects (sha256 : List UInt8 → ObjectDigest) (limits : ArchiveLimits)
    (entry : ArchiveEntry) : Option (List Effect) :=
  (readHeader limits entry.header 0).toOption.bind fun header =>
    (kindEffects sha256 limits header entry.body).map fun placed =>
      blockEffects ++ ([.charge .work header.components.length] ++ targetEffects header.kind ++
        placed)

def enter (sha256 : List UInt8 → ObjectDigest) (limits : ArchiveLimits) (entry : ArchiveEntry)
    (progress : Progress (hash sha256)) : Option (Progress (hash sha256)) :=
  (entryEffects sha256 limits entry).bind fun effects =>
    run (Effect.apply sha256 limits) effects progress

section Order

variable {sha256 : List UInt8 → ObjectDigest} {limits : ArchiveLimits}

/-- **Entries commute.** -/
theorem enter_commute (first snd : ArchiveEntry) :
    Updates.Commute (enter sha256 limits first) (enter sha256 limits snd) := by
  intro progress
  cases hfirst : entryEffects sha256 limits first with
  | none =>
    cases hsecond : enter sha256 limits snd progress <;> simp [enter, hfirst]
  | some front =>
    cases hsecond : entryEffects sha256 limits snd with
    | none =>
      cases hnext : enter sha256 limits first progress <;> simp [enter, hsecond]
    | some behind =>
      have hcommute : Updates.Commute (run (apply sha256 limits) front)
          (run (apply sha256 limits) behind) :=
        Updates.Commute.run_run fun a _ b _ => apply_commute limits a b
      have henter : ∀ (e : ArchiveEntry) effects, entryEffects sha256 limits e =
          some effects → enter sha256 limits e = run (apply sha256 limits) effects := by
        intro e effects h
        funext progress
        simp [enter, h]
      rw [henter first front hfirst, henter snd behind hsecond]
      exact hcommute progress

variable {block rest hashed : List UInt8} {reads : Nat} {state after : ParseState (hash sha256)}
  {final : PayloadReader} {archive : DecodedArchive sha256}

theorem parseMetadata_size {mode : BitVec 32} (h : parseMetadata block 0 = .ok (mode, size)) :
    parseOctal (field block 124 136) 0
      "size is not a fixed-width NUL-terminated octal field" = .ok size := by
  simp only [parseMetadata, bind_ok, exists_unit, pure_ok, Prod.mk.injEq] at h
  obtain ⟨-, -, -, -, mode', -, -, uid, -, gid, -, size', hsize, mtime, -, -, -, major, -, -, minor,
    -, -, -, rfl⟩ := h
  exact hsize

theorem parseKind_file {typeflag : UInt8} {path : Text} {comps : List Text} {mode : BitVec 32}
    {link : List UInt8} {kind : HeaderKind}
    (h : parseKind limits blockIndex typeflag path comps mode size link = .ok kind) :
    kind = .file ↔ typeflag = 48 := by
  unfold parseKind at h
  by_cases hfile : typeflag = 48
  · rw [if_pos hfile] at h
    simp only [bind_ok, exists_unit, pure_ok] at h
    exact iff_of_true h.2.2.symm hfile
  · rw [if_neg hfile] at h
    refine iff_of_false ?_ hfile
    by_cases hdir : typeflag = 53
    · rw [if_pos hdir] at h
      simp only [bind_ok, exists_unit, pure_ok] at h
      rw [← h.2.2.2]
      simp
    · rw [if_neg hdir] at h
      simp only [bind_ok, exists_unit, pure_ok] at h
      obtain ⟨-, -, t, -, -, rfl⟩ := h
      simp

theorem readHeader_bodyLength {header : Header} (h : readHeader limits block 0 = .ok header) :
    bodyLength block = if header.kind = .file then header.size + paddingLen header.size else 0 := by
  simp only [readHeader, bind_ok, exists_unit, pure_ok, Prod.exists] at h
  obtain ⟨mode, size, hmetadata, -, path, -, comps, -, link, -, kind, hkind, rfl⟩ := h
  simp only [bodyLength, parseMetadata_size hmetadata, parseKind_file hkind]

/-! ## 3. One entry of a payload -/

theorem decodeEntry_ok {header : Header} {body : List UInt8}
    (hbody : body.length = if header.kind = .file then header.size + paddingLen header.size else 0) :
    decodeEntry sha256 limits header state (readerAt (body ++ rest) hashed reads) =
        (.ok after, final) ↔
      ∃ placed, kindEffects sha256 limits header body = some placed ∧
        ∃ readsAfter, run (apply sha256 limits) placed ⟨state, reads⟩ =
            some ⟨after, readsAfter⟩ ∧
          readerAt rest (hashed ++ body) readsAfter = final := by
  unfold decodeEntry kindEffects
  cases hkind : header.kind with
  | file =>
    rw [if_pos hkind] at hbody
    have hcontent : (body.take header.size).length = header.size := by
      rw [length_take]
      omega
    have hpadding : (body.drop header.size).length = paddingLen header.size := by
      rw [length_drop]
      omega
    have hsplit : body ++ rest = body.take header.size ++ (body.drop header.size ++ rest) := by
      rw [← append_assoc, take_append_drop]
    have hhashed : hashed ++ body = hashed ++ body.take header.size ++ body.drop header.size := by
      rw [append_assoc, take_append_drop]
    simp only [hsplit, hhashed, decodeFileEntry_ok hcontent hpadding]
    constructor
    · rintro ⟨hsize, hzeros, encoded, hencoded, hrun⟩
      refine ⟨_, ?_, hrun⟩
      rw [if_pos ⟨hsize, hzeros⟩, hencoded]
      rfl
    · rintro ⟨placed, hplaced, hrun⟩
      split at hplaced
      · rename_i hvalid
        obtain ⟨encoded, hencoded, rfl⟩ := map_eq_some_iff.1 hplaced
        exact ⟨hvalid.1, hvalid.2, encoded, toOption_eq_some.1 hencoded, hrun⟩
      · cases hplaced
  | directory =>
    rw [if_neg (by simp [hkind])] at hbody
    obtain rfl := length_eq_zero_iff.1 hbody
    simp only [ofExcept_ok, nil_append, append_nil, some.injEq,
      exists_eq_left', performs_insertDirectoryEntry header state reads _]
    constructor
    · rintro ⟨hinsert, rfl⟩
      exact ⟨reads, ⟨after, hinsert, rfl⟩, rfl⟩
    · rintro ⟨readsAfter, ⟨inserted, hinsert, heq⟩, rfl⟩
      cases heq
      exact ⟨hinsert, rfl⟩
  | symlink t =>
    rw [if_neg (by simp [hkind])] at hbody
    obtain rfl := length_eq_zero_iff.1 hbody
    simp only [ofExcept_ok, nil_append, append_nil]
    constructor
    · rintro ⟨hinsert, rfl⟩
      obtain ⟨obj, hobj, hrun⟩ := insertSymlinkEntry_iff.1 ⟨hinsert, rfl⟩
      refine ⟨_, ?_, reads, hrun, rfl⟩
      rw [hobj]
      rfl
    · rintro ⟨placed, hplaced, readsAfter, hrun, rfl⟩
      obtain ⟨obj, hobj, rfl⟩ := map_eq_some_iff.1 hplaced
      obtain ⟨hinsert, rfl⟩ := insertSymlinkEntry_iff.2 ⟨obj, toOption_eq_some.1 hobj, hrun⟩
      exact ⟨hinsert, rfl⟩

/-- **Decoding an entry is the run of its effects.** -/
theorem parseEntry_ok {e : ArchiveEntry} :
    parseEntry sha256 limits e.header blockIndex state
        (readerAt (e.body ++ rest) hashed reads) = (.ok after, final) ↔
      ∃ header, readHeader limits e.header 0 = .ok header ∧
        ∃ placed, kindEffects sha256 limits header e.body = some placed ∧
          ∃ readsAfter, run (apply sha256 limits)
              ([.charge .work header.components.length] ++ targetEffects header.kind ++ placed)
              ⟨state, reads⟩ = some ⟨after, readsAfter⟩ ∧
            readerAt rest (hashed ++ e.body) readsAfter = final := by
  rw [parseEntry, ofExcept_bind_ok, Prod.exists]
  constructor
  · rintro ⟨header, charged, hheader, hentry⟩
    obtain ⟨hread, work, hwork, htarget⟩ := parseHeader_ok.1 hheader
    have hread := (readHeader_index limits e.header blockIndex 0 header).1 hread
    have hbody := e.body_length.trans (readHeader_bodyLength hread)
    obtain ⟨placed, hplaced, readsAfter, hrun, rfl⟩ := (decodeEntry_ok hbody).1 hentry
    refine ⟨header, hread, placed, hplaced, readsAfter, ?_, rfl⟩
    rw [run_append, bind_eq_some_iff]
    refine ⟨⟨charged, reads⟩, ?_, hrun⟩
    exact ((performs_work _).append (performs_target header.kind) _ _ _).2
      ⟨charged, bind_ok.2 ⟨work, hwork, htarget⟩, rfl⟩
  · rintro ⟨header, hread, placed, hplaced, readsAfter, hrun, rfl⟩
    have hbody := e.body_length.trans (readHeader_bodyLength hread)
    rw [run_append, bind_eq_some_iff] at hrun
    obtain ⟨mid, hcharges, hrun⟩ := hrun
    obtain ⟨charged, hcharged, rfl⟩ :=
      ((performs_work _).append (performs_target header.kind) _ _ _).1 hcharges
    obtain ⟨work, hwork, htarget⟩ := bind_ok.1 hcharged
    have hindex := (readHeader_index limits e.header blockIndex 0 header).2 hread
    exact ⟨header, charged, parseHeader_ok.2 ⟨hindex, work, hwork, htarget⟩,
      (decodeEntry_ok hbody).2 ⟨placed, hplaced, readsAfter, hrun, rfl⟩⟩

/-! ## 4. Payloads -/

theorem readBlock_ok {α : Type} {a : α} {next : ParseState (hash sha256) → List UInt8 → Decode α}
    (hblock : block.length = ustarBlockBytes) :
    (do
      let state ← ofExcept (state.chargeMetadataBlock limits)
      let block ← readBuffer limits ustarBlockBytes
      next state block) (readerAt (block ++ rest) hashed reads) = (.ok a, final) ↔
      ∃ charged readsAfter, run (apply sha256 limits) blockEffects ⟨state, reads⟩ =
          some ⟨charged, readsAfter⟩ ∧
        next charged block (readerAt rest (hashed ++ block) readsAfter) = (.ok a, final) := by
  have hne : block ≠ [] := by
    rintro rfl
    simp [ustarBlockBytes] at hblock
  rw [ofExcept_bind_ok, ← hblock]
  constructor
  · rintro ⟨charged, hcharged, hrest⟩
    obtain ⟨found, mid, hfound, hnext⟩ := decode_bind_ok.1 hrest
    obtain ⟨rfl, ops, hops, rfl⟩ := (readBuffer_ok hne).1 hfound
    refine ⟨charged, ops, ?_, hnext⟩
    rw [blockEffects, run_append, bind_eq_some_iff]
    exact ⟨_, (performs_metadata _ _ _).2 ⟨charged, hcharged, rfl⟩,
      run_readCharges_succ.2 ⟨ops, hops, rfl⟩⟩
  · rintro ⟨charged, readsAfter, hrun, hnext⟩
    rw [blockEffects, run_append, bind_eq_some_iff] at hrun
    obtain ⟨mid, hmetadata, hreads⟩ := hrun
    obtain ⟨state', hcharged, rfl⟩ := (performs_metadata _ _ _).1 hmetadata
    obtain ⟨ops, hops, heq⟩ := run_readCharges_succ.1 hreads
    cases heq
    exact ⟨charged, hcharged, decode_bind_ok.2 ⟨block, _,
      (readBuffer_ok hne).2 ⟨rfl, readsAfter, hops, rfl⟩, hnext⟩⟩

theorem parseUstar_entry {e : ArchiveEntry} :
    parseUstar sha256 limits (turns + 1) state
        (readerAt (e.header ++ (e.body ++ rest)) hashed reads) = (.ok after, final) ↔
      ∃ mid readsMiddle, enter sha256 limits e ⟨state, reads⟩ =
          some ⟨mid, readsMiddle⟩ ∧
        parseUstar sha256 limits turns mid
          (readerAt rest (hashed ++ e.header ++ e.body) readsMiddle) =
            (.ok after, final) := by
  have henough : ¬ (e.header ++ (e.body ++ rest)).length < ustarBlockBytes := by
    rw [length_append, e.header_length]
    omega
  rw [parseUstar, ask_bind, ask_bind, ofExcept_bind_ok, exists_unit, reject_ok,
    readerAt_remaining, readBlock_ok e.header_length, e.header_nonzero]
  simp only [henough, not_false_eq_true, true_and, Bool.false_eq_true, if_false]
  constructor
  · rintro ⟨charged, readsCharged, hblock, hentry⟩
    obtain ⟨mid, reader, hparse, hrest⟩ := decode_bind_ok.1 hentry
    obtain ⟨header, hheader, placed, hplaced, readsMiddle, hrun, rfl⟩ := parseEntry_ok.1 hparse
    refine ⟨mid, readsMiddle, ?_, hrest⟩
    simp only [enter, entryEffects, toOption_eq_some.2 hheader, hplaced, bind_some, map_some]
    rw [run_append, hblock]
    exact hrun
  · rintro ⟨mid, readsMiddle, henter, hrest⟩
    obtain ⟨effects, heffects, hrun⟩ := bind_eq_some_iff.1 henter
    obtain ⟨header, hheader, hkind⟩ := bind_eq_some_iff.1 heffects
    obtain ⟨placed, hplaced, rfl⟩ := map_eq_some_iff.1 hkind
    rw [run_append, bind_eq_some_iff] at hrun
    obtain ⟨charged, hblock, hrun⟩ := hrun
    exact ⟨charged.state, charged.reads, hblock, decode_bind_ok.2 ⟨mid, _,
      parseEntry_ok.2 ⟨header, toOption_eq_some.1 hheader, placed, hplaced, readsMiddle, hrun, rfl⟩,
      hrest⟩⟩

theorem isZeroBlock_zeroBlock : isZeroBlock zeroBlock = true := by
  simp [isZeroBlock, zeroBlock]

theorem parseUstar_end :
    parseUstar sha256 limits (turns + 1) state (readerAt (zeroBlock ++ zeroBlock) hashed reads) =
        (.ok after, final) ↔
      ∃ readsAfter, run (apply sha256 limits) (blockEffects ++ blockEffects)
          ⟨state, reads⟩ = some ⟨after, readsAfter⟩ ∧
        readerAt [] (hashed ++ zeroBlock ++ zeroBlock) readsAfter = final := by
  have henough : ¬ (zeroBlock ++ zeroBlock).length < ustarBlockBytes := by
    rw [length_append, length_zeroBlock]
    omega
  have hsecond : ∀ (state : ParseState (hash sha256)) reads hashed,
      parseTerminator sha256 limits state (readerAt zeroBlock hashed reads) =
          (.ok after, final) ↔
        ∃ readsAfter, run (apply sha256 limits) blockEffects ⟨state, reads⟩ =
            some ⟨after, readsAfter⟩ ∧ readerAt [] (hashed ++ zeroBlock) readsAfter = final := by
    intro state reads hashed
    rw [parseTerminator, ask_bind, ofExcept_bind_ok, exists_unit, reject_ok, readerAt_remaining,
      length_zeroBlock, ← append_nil zeroBlock, readBlock_ok length_zeroBlock]
    simp only [append_nil, lt_irrefl, not_false_eq_true, true_and, isZeroBlock_zeroBlock,
      ofExcept_bind_ok, exists_unit, reject_ok, ask_bind, readerAt_remaining, decode_pure_ok]
    constructor
    · rintro ⟨charged, readsAfter, hrun, -, -, rfl, rfl⟩
      exact ⟨readsAfter, hrun, rfl⟩
    · rintro ⟨readsAfter, hrun, rfl⟩
      exact ⟨after, readsAfter, hrun, by simp, by simp, rfl, rfl⟩
  rw [parseUstar, ask_bind, ask_bind, ofExcept_bind_ok, exists_unit, reject_ok,
    readerAt_remaining, readBlock_ok length_zeroBlock, isZeroBlock_zeroBlock]
  simp only [henough, not_false_eq_true, true_and, if_true, hsecond]
  simp only [run_append, bind_eq_some_iff]
  constructor
  · rintro ⟨charged, readsCharged, hfirst, readsAfter, hlast, rfl⟩
    exact ⟨readsAfter, ⟨_, hfirst, hlast⟩, rfl⟩
  · rintro ⟨readsAfter, ⟨mid, hfirst, hlast⟩, rfl⟩
    exact ⟨mid.state, mid.reads, hfirst, readsAfter, hlast, rfl⟩

/-- **Decoding a payload is the run of its entries.** -/
theorem parseUstar_payload :
    ∀ {es : List ArchiveEntry} {turns reads : Nat} {hashed : List UInt8}
      {state after : ParseState (hash sha256)} {final : PayloadReader}, es.length < turns →
      (parseUstar sha256 limits turns state (readerAt (payload es) hashed reads) =
          (.ok after, final) ↔
        ∃ mid, run (enter sha256 limits) es ⟨state, reads⟩ = some mid ∧
          ∃ readsAfter, run (apply sha256 limits) (blockEffects ++ blockEffects) mid =
              some ⟨after, readsAfter⟩ ∧
            readerAt [] (hashed ++ payload es) readsAfter = final)
  | [], turns, reads, hashed, state, after, final, hturns => by
    obtain ⟨turns, rfl⟩ := exists_eq_succ_of_ne_zero (ne_of_gt hturns)
    have hpayload : payload [] = zeroBlock ++ zeroBlock := rfl
    rw [hpayload, succ_eq_add_one, parseUstar_end]
    simp [append_assoc]
  | first :: rest, turns, reads, hashed, state, after, final, hturns => by
    obtain ⟨turns, rfl⟩ := exists_eq_succ_of_ne_zero (ne_of_gt (zero_lt_of_lt hturns))
    have hrest : rest.length < turns := by
      simpa using hturns
    rw [payload_cons, succ_eq_add_one, parseUstar_entry]
    simp only [parseUstar_payload hrest, run_cons, bind_eq_some_iff, ← append_assoc]
    constructor
    · rintro ⟨mid, readsMiddle, henter, last, hrun, hend⟩
      exact ⟨last, ⟨_, henter, hrun⟩, hend⟩
    · rintro ⟨last, ⟨mid, henter, hrun⟩, hend⟩
      exact ⟨mid.state, mid.reads, henter, last, hrun, hend⟩

theorem drainVerifyEnd_ok {found : List UInt8} :
    (drainVerifyEnd limits (readerAt [] hashed reads)).1 = .ok found ↔
      hashed = found ∧ ∃ operations,
        chargeCount limits.maxReadOperations 1 reads = some operations := by
  have hdrain : (drainVerifyEnd limits (readerAt [] hashed reads)).1 = .ok found ↔
      ∃ final, drainVerifyEnd limits (readerAt [] hashed reads) = (.ok found, final) := by
    constructor
    · intro h
      exact ⟨_, Prod.ext h rfl⟩
    · rintro ⟨final, h⟩
      rw [h]
  rw [hdrain]
  simp only [drainVerifyEnd, ask_bind, readerAt_remaining, length_nil, readChunks_zero,
    decode_pure_bind, chargedRead_bind_ok, ofExcept_bind_ok, exists_unit, reject_ok, ask_ok]
  simp only [readerAt, take_nil, not_not, true_and]
  constructor
  · rintro ⟨final, operations, hops, rfl, -⟩
    exact ⟨rfl, operations, hops⟩
  · rintro ⟨rfl, operations, hops⟩
    exact ⟨_, operations, hops, rfl, rfl⟩

def declarationOf (sha256 : List UInt8 → ObjectDigest) (payload : List UInt8) :
    ArchiveDeclaration := .posixUstar payload.length (sha256 payload)

/-- **When an archive is accepted.** -/
theorem decodeArchive_payload {es : List ArchiveEntry} :
    decodeArchive sha256 limits (payload es) (declarationOf sha256 (payload es)) =
        .ok archive ↔
      (payload es).length ≤ limits.maxPayloadBytes ∧
        ∃ mid, run (enter sha256 limits) es ⟨.new (hash sha256), 0⟩ = some mid ∧
          ∃ parsed reads, run (apply sha256 limits) (blockEffects ++ blockEffects) mid =
              some ⟨parsed, reads⟩ ∧
            (∃ ops, chargeCount limits.maxReadOperations 1 reads = some ops) ∧
              finalizeArchive sha256 limits parsed (declarationOf sha256 (payload es)) =
                .ok archive := by
  have hturns : es.length < (payload es).length / ustarBlockBytes + 1 := by
    have hlen := length_payload es
    simp only [ustarBlockBytes] at *
    omega
  have hreader : (⟨payload es, (payload es).length, [], 0⟩ : PayloadReader) =
      readerAt (payload es) [] 0 := by
    simp [readerAt]
  simp only [decodeArchive, checkArchiveLimit, bind_ok, exists_unit, reject_ok, not_not, not_lt]
  have hdecl : (declarationOf sha256 (payload es)).payloadByteLen =
      (payload es).length := rfl
  have hver : (declarationOf sha256 (payload es)).decoderVersion =
      archiveDecoderVersion := rfl
  rw [hdecl, hreader]
  simp only [hver, true_and]
  refine and_congr_right fun _ => ?_
  obtain ⟨⟨result, reader⟩, hparse⟩ : ∃ result, parseUstar sha256 limits
      ((payload es).length / ustarBlockBytes + 1) (.new (hash sha256))
        (readerAt (payload es) [] 0) = result := ⟨_, rfl⟩
  rw [hparse]
  simp only [bind_ok, exists_unit, reject_ok]
  constructor
  · rintro ⟨hashed, hdrain, -, parsed, rfl, harchive⟩
    obtain ⟨mid, hrun, reads, hend, rfl⟩ := (parseUstar_payload hturns).1 hparse
    exact ⟨mid, hrun, parsed, reads, hend, (drainVerifyEnd_ok.1 hdrain).2, harchive⟩
  · rintro ⟨mid, hrun, parsed, reads, hend, hcharge, harchive⟩
    rw [(parseUstar_payload hturns).2 ⟨mid, hrun, reads, hend, rfl⟩] at hparse
    cases hparse
    exact ⟨payload es, drainVerifyEnd_ok.2 ⟨nil_append _, hcharge⟩, not_not.2 rfl, parsed,
      rfl, harchive⟩

theorem finalizeArchive_declaration {parsed : ParseState (hash sha256)}
    {first : ArchiveDeclaration} (h : finalizeArchive sha256 limits parsed first = .ok archive)
    (snd : ArchiveDeclaration) :
    finalizeArchive sha256 limits parsed snd = .ok { archive with declaration := snd } := by
  simp only [finalizeArchive, bind_ok, pure_ok, Prod.exists] at h ⊢
  obtain ⟨rootDigest, state, hbuild, graph, hgraph, rfl⟩ := h
  exact ⟨rootDigest, state, hbuild, graph, hgraph, rfl⟩

/-- A permuted payload gives the same archive, with its own declaration. -/
theorem decodeArchive_perm_ok (hperm : left.Perm right)
    (h : decodeArchive sha256 limits (payload left) (declarationOf sha256 (payload left)) =
      .ok archive) :
    decodeArchive sha256 limits (payload right) (declarationOf sha256 (payload right)) =
      .ok { archive with declaration := declarationOf sha256 (payload right) } := by
  obtain ⟨hlen, mid, hrun, parsed, reads, hend, hcharge, harchive⟩ :=
    decodeArchive_payload.1 h
  rw [run_perm hperm fun a _ b _ => enter_commute a b] at hrun
  rw [length_payload_perm hperm] at hlen
  exact decodeArchive_payload.2 ⟨hlen, mid, hrun, parsed, reads, hend, hcharge,
    finalizeArchive_declaration harchive _⟩

end Order

/-! ## 5. The order of entries -/

/-- **The order of the entries of an archive does not matter.** Both payloads, each with its own
declaration, are accepted or both refused, with the same root and objects. -/
theorem decodeArchive_perm (sha256 : List UInt8 → ObjectDigest) (limits : ArchiveLimits)
    {left right : List ArchiveEntry} (hperm : left.Perm right) :
    ((decodeArchive sha256 limits (payload left)
        (declarationOf sha256 (payload left))).toOption.map
          fun archive => (archive.rootDigest, archive.objects)) =
      (decodeArchive sha256 limits (payload right)
        (declarationOf sha256 (payload right))).toOption.map
          fun archive => (archive.rootDigest, archive.objects) := by
  cases hleft : decodeArchive sha256 limits (payload left)
      (declarationOf sha256 (payload left)) with
  | ok archive =>
    rw [decodeArchive_perm_ok hperm hleft]
    rfl
  | error error =>
    cases hright : decodeArchive sha256 limits (payload right)
        (declarationOf sha256 (payload right)) with
    | error other => rfl
    | ok archive =>
      rw [decodeArchive_perm_ok hperm.symm hright] at hleft
      cases hleft

/-- The header block of an entry for a directory with a name of one byte. -/
def directoryBlock (name : UInt8) (checksum : List UInt8) : List UInt8 :=
  let zeros (count : Nat) : List UInt8 := List.replicate count 0
  let digits (count : Nat) : List UInt8 := List.replicate count 48
  name :: zeros 99 ++ digits 4 ++ [55, 53, 53, 0] ++ digits 7 ++ [0] ++ digits 7 ++ [0] ++
    digits 11 ++ [0] ++ digits 11 ++ [0] ++ checksum ++ [0, 32, 53] ++ zeros 100 ++
      [117, 115, 116, 97, 114, 0, 48, 48] ++ zeros 247

theorem length_directoryBlock (name : UInt8) (checksum : List UInt8) :
    (directoryBlock name checksum).length = 506 + checksum.length := by
  simp only [directoryBlock, length_append, length_cons, length_replicate, length_nil]
  omega

def directoryA : ArchiveEntry :=
  ⟨directoryBlock 97 [48, 48, 54, 49, 48, 54], [], length_directoryBlock _ _, by decide, by decide⟩

def directoryB : ArchiveEntry :=
  ⟨directoryBlock 98 [48, 48, 54, 49, 48, 55], [], length_directoryBlock _ _, by decide, by decide⟩

/-- SHA-256 on the two payloads of these directories and on the two trees. -/
def directoriesSha256 (bytes : List UInt8) : ObjectDigest :=
  if bytes = payload [directoryA, directoryB] then
    ⟨⟨0xfa1bef22fbf5e67c99489413e2a8c993bff3248f1827fd8fce91183b9bd0c55f⟩, by decide⟩
  else if bytes = payload [directoryB, directoryA] then
    ⟨⟨0x531428525a1adc15442fdfc4c8502b27a12ce47db8ca8fa4b9e6343bd209d225⟩, by decide⟩
  else if bytes.length = 31 then
    ⟨⟨0xdb2672099b1e1cbf7f52b577839f034d36cb767b79a94b01890254bbdc1eb85f⟩, by decide⟩
  else
    ⟨⟨0x39941309c93a51e85915b42dbff2cefe71097830e277d0f255a292886b2d86ef⟩, by decide⟩

/-- Limits that leave room for a few entries. -/
def roomyLimits : ArchiveLimits :=
  ⟨65536, 65536, 65536, 64, 64, 8, 64, 64, 65536, 65536, 256, 256⟩

/-- Both orders of the two directories are accepted, with one tree. -/
theorem decodeArchive_perm_directories : ∃ archive other,
    decodeArchive directoriesSha256 roomyLimits (payload [directoryA, directoryB])
        (declarationOf directoriesSha256 (payload [directoryA, directoryB])) = .ok archive ∧
      decodeArchive directoriesSha256 roomyLimits (payload [directoryB, directoryA])
        (declarationOf directoriesSha256 (payload [directoryB, directoryA])) = .ok other ∧
      archive.rootDigest = other.rootDigest ∧ archive.objects = other.objects := by
  have hcheck : okAnd (decodeArchive directoriesSha256 roomyLimits
      (payload [directoryA, directoryB])
      (declarationOf directoriesSha256 (payload [directoryA, directoryB]))) (fun _ => true) =
        true := by
    decide +kernel
  obtain ⟨archive, harchive, -⟩ := okAnd_iff.1 hcheck
  have hsame := decodeArchive_perm directoriesSha256 roomyLimits
    (List.Perm.swap directoryB directoryA [])
  rw [harchive] at hsame
  cases hother : decodeArchive directoriesSha256 roomyLimits (payload [directoryB, directoryA])
      (declarationOf directoriesSha256 (payload [directoryB, directoryA])) with
  | error error =>
    rw [hother] at hsame
    cases hsame
  | ok other =>
    rw [hother] at hsame
    have hpair := Prod.mk.inj (some.inj hsame)
    exact ⟨archive, other, harchive, rfl, hpair.1, hpair.2⟩

end Malm.Archive
