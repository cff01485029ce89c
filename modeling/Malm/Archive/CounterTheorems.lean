/-
Malm.Archive.CounterTheorems — the counters of a decoder stay within their limits.

Every counter is written by a charge, which compares it with its limit first. So each
step on the state of a parse keeps the counters within the limits, and so does every
session, whatever the reader does and whether the run fails or not.
-/
import Malm.Archive.Reader

namespace Malm.Archive

open Malm.Tree Bytes Checks Routine Prod List

variable {α : Type} {amount blockIndex limit next : Nat}

/-! ## 1. Steps on the state of a parse -/

structure ParseState.Within {sha256 : List UInt8 → Digest} (limits : ArchiveLimits)
    (state : ParseState sha256) : Prop where
  entries : state.logicalEntries ≤ limits.entries
  expanded : state.expandedFileBytes ≤ limits.expandedFileBytes
  metadata : state.metadataBytes ≤ limits.maxMetadataBytes
  objects : state.objectBytes ≤ limits.maxObjectBytes
  work : state.workUnits ≤ limits.maxWorkUnits

theorem charge_le {cur : Nat} {resource : ArchiveResource}
    (h : charge cur amount resource limit = .ok next) : next ≤ limit := by
  simp only [charge, checkArchiveLimit, bind_ok, exists_unit, reject_ok, pure_ok] at h
  omega

theorem ParseState.new_within (sha256 : List UInt8 → Digest) (limits : ArchiveLimits) :
    (ParseState.new sha256).Within limits :=
  ⟨Nat.zero_le _, Nat.zero_le _, Nat.zero_le _, Nat.zero_le _, Nat.zero_le _⟩

variable {limits : ArchiveLimits}

section Steps

variable {sha256 : List UInt8 → Digest}

variable {state after : ParseState sha256}

theorem chargeWork_within (hwithin : state.Within limits)
    (h : state.chargeWork limits amount = .ok after) : after.Within limits := by
  simp only [ParseState.chargeWork, bind_ok, pure_ok] at h
  obtain ⟨workUnits, hcharge, rfl⟩ := h
  exact { hwithin with work := charge_le hcharge }

theorem chargeMetadataBlock_within (hwithin : state.Within limits)
    (h : state.chargeMetadataBlock limits = .ok after) : after.Within limits := by
  simp only [ParseState.chargeMetadataBlock, bind_ok] at h
  obtain ⟨metadataBytes, hcharge, hwork⟩ := h
  have hcharged : ParseState.Within limits { state with metadataBytes := metadataBytes } :=
    { hwithin with metadata := charge_le hcharge }
  exact chargeWork_within hcharged hwork

theorem chargeTarget_within {kind : HeaderKind} (hwithin : state.Within limits)
    (h : state.chargeTarget limits kind = .ok after) : after.Within limits := by
  cases kind with
  | symlink t => exact chargeWork_within hwithin h
  | file =>
    cases h
    exact hwithin
  | directory =>
    cases h
    exact hwithin

theorem parseHeader_within {block : List UInt8} {header : Header} (hwithin : state.Within limits)
    (h : parseHeader limits block blockIndex state = .ok (header, after)) :
    after.Within limits := by
  simp only [parseHeader, bind_ok, exists_unit, pure_ok, Prod.mk.injEq] at h
  obtain ⟨fields, -, -, path, -, comps, -, charged, hwork, h⟩ := h
  obtain ⟨link, -, kind, -, last, htarget, -, rfl⟩ := h
  exact chargeTarget_within (chargeWork_within hwithin hwork) htarget

variable {path : Text} {comps : List Text}

theorem ensureDirectory_within {parent : List Text} (hwithin : state.Within limits)
    (h : ensureDirectory limits path state parent = .ok after) : after.Within limits := by
  rw [ensureDirectory] at h
  split at h
  · simp only [bind_ok, pure_ok] at h
    obtain ⟨logicalEntries, hcharge, rfl⟩ := h
    exact { hwithin with entries := charge_le hcharge }
  · cases h
    exact hwithin
  · cases h

theorem ensureParents_within (hwithin : state.Within limits)
    (h : ensureParents limits path comps state = .ok after) : after.Within limits := by
  exact foldlM_preserves h (fun _ _ _ _ hbefore => ensureDirectory_within hbefore) hwithin

theorem reserveLeafPath_within (hwithin : state.Within limits)
    (h : reserveLeafPath limits path comps state = .ok after) : after.Within limits := by
  simp only [reserveLeafPath, bind_ok] at h
  obtain ⟨parents, hparents, h⟩ := h
  have hafter := ensureParents_within hwithin hparents
  split at h
  · simp only [bind_ok, exists_unit, pure_ok] at h
    obtain ⟨-, rfl⟩ := h
    exact hafter
  · split at h <;> cases h
  · cases h

theorem insertLeaf_within {node : Node} (hwithin : state.Within limits)
    (h : insertLeaf limits path comps node state = .ok after) : after.Within limits := by
  simp only [insertLeaf, bind_ok, exists_unit, pure_ok] at h
  obtain ⟨parents, hparents, -, logicalEntries, hcharge, rfl⟩ := h
  exact { ensureParents_within hwithin hparents with entries := charge_le hcharge }

theorem insertDirectoryEntry_within {header : Header} (hwithin : state.Within limits)
    (h : insertDirectoryEntry limits header state = .ok after) : after.Within limits := by
  simp only [insertDirectoryEntry, bind_ok] at h
  obtain ⟨parents, hparents, h⟩ := h
  have hafter := ensureParents_within hwithin hparents
  split at h
  · simp only [bind_ok, pure_ok] at h
    obtain ⟨logicalEntries, hcharge, rfl⟩ := h
    exact { hafter with entries := charge_le hcharge }
  · cases h
    exact { hafter with }
  · cases h
  · cases h

end Steps

variable {sha256 : List UInt8 → ObjectDigest}

section Objects

variable {state after : ParseState (hash sha256)}

variable {d : ObjectDigest} {bytes : List UInt8} {header : Header}

theorem admitObject_le {objects : ObjectAccumulator (hash sha256)} {stored : Bool}
    {objectBytes : Nat} (hwithin : objectBytes ≤ limit)
    (h : objects.admitObject d bytes stored objectBytes limit = .ok next) : next ≤ limit := by
  simp only [ObjectAccumulator.admitObject, bind_ok, exists_unit] at h
  obtain ⟨-, h⟩ := h
  split at h
  · cases h
    exact hwithin
  · exact charge_le h

theorem insertFile_within (hwithin : state.Within limits)
    (h : insertFile limits d bytes state = .ok after) : after.Within limits := by
  simp only [insertFile, bind_ok, pure_ok] at h
  obtain ⟨objectBytes, hadm, rfl⟩ := h
  exact { hwithin with objects := admitObject_le hwithin.objects hadm }

theorem insertSymlink_within {obj : SymlinkObject} (hwithin : state.Within limits)
    (h : insertSymlink limits d obj bytes state = .ok after) : after.Within limits := by
  simp only [insertSymlink, bind_ok, pure_ok] at h
  obtain ⟨objectBytes, hadm, rfl⟩ := h
  exact { hwithin with objects := admitObject_le hwithin.objects hadm }

theorem insertTree_within {obj : TreeObject (hash sha256)} (hwithin : state.Within limits)
    (h : insertTree sha256 limits d obj bytes state = .ok after) :
    after.Within limits := by
  simp only [insertTree, bind_ok, pure_ok] at h
  obtain ⟨objectBytes, hadm, rfl⟩ := h
  exact { hwithin with objects := admitObject_le hwithin.objects hadm }

theorem reserveFile_within {rem : Nat} (hwithin : state.Within limits)
    (h : reserveFile sha256 limits header rem blockIndex state = .ok after) :
    after.Within limits := by
  simp only [reserveFile, bind_ok, exists_unit] at h
  obtain ⟨-, expanded, hcharge, reserved, hreserved, -, hwork⟩ := h
  have hcharged : ParseState.Within limits { state with expandedFileBytes := expanded } :=
    { hwithin with expanded := charge_le hcharge }
  exact chargeWork_within (reserveLeafPath_within hcharged hreserved) hwork

theorem insertFileEntry_within (hwithin : state.Within limits)
    (h : insertFileEntry sha256 limits header bytes state = .ok after) : after.Within limits := by
  simp only [insertFileEntry, bind_ok] at h
  obtain ⟨encoded, -, stored, hstored, hleaf⟩ := h
  exact insertLeaf_within (insertFile_within hwithin hstored) hleaf

theorem insertSymlinkEntry_within {t : Text} (hwithin : state.Within limits)
    (h : insertSymlinkEntry sha256 limits header t state = .ok after) :
    after.Within limits := by
  simp only [insertSymlinkEntry, bind_ok] at h
  obtain ⟨reserved, hreserved, obj, -, stored, hstored, hleaf⟩ := h
  exact insertLeaf_within
    (insertSymlink_within (reserveLeafPath_within hwithin hreserved) hstored) hleaf

theorem buildEntry_within {descend : List Text → BitVec 32 → ParseState (hash sha256) →
      Except ArchiveDecodeError (ObjectDigest × ParseState (hash sha256))}
    (hdescend : ∀ place mode (before : ParseState (hash sha256)) d built,
      before.Within limits → descend place mode before = .ok (d, built) →
        built.Within limits) {dir : List Text} {child : Text × Node}
    {before built : List TreeEntry × ParseState (hash sha256)} (hwithin : before.2.Within limits)
    (h : buildEntry sha256 limits descend dir before child = .ok built) :
    built.2.Within limits := by
  simp only [buildEntry, bind_ok] at h
  obtain ⟨charged, hwork, name, -, h⟩ := h
  have hcharged := chargeWork_within hwithin hwork
  split at h
  · simp only [bind_ok, pure_ok] at h
    obtain ⟨e, -, rfl⟩ := h
    exact hcharged
  · simp only [bind_ok, pure_ok] at h
    obtain ⟨below, hbelow, e, -, rfl⟩ := h
    exact hdescend _ _ _ _ _ hcharged hbelow
  · cases h
    exact hcharged

theorem buildTree_within {nodes : SortedMap (List Text) Node} :
    ∀ (levels : Nat) (dir : List Text) (mode : BitVec 32)
      (before : ParseState (hash sha256)) (d : ObjectDigest)
      (built : ParseState (hash sha256)), before.Within limits →
      buildTree sha256 limits nodes levels dir mode before = .ok (d, built) →
        built.Within limits
  | 0, _, _, _, _, _, _, h => by cases h
  | levels + 1, dir, mode, before, d, built, hwithin, h => by
    simp only [buildTree, bind_ok, pure_ok, Prod.mk.injEq] at h
    obtain ⟨children, hchildren, obj, -, stored, hstored, -, rfl⟩ := h
    have hloop : ParseState.Within limits children.2 :=
      foldlM_preserves
        (P := fun state : List TreeEntry × ParseState (hash sha256) => state.2.Within limits)
        hchildren
        (fun _ _ _ _ hbefore => buildEntry_within (buildTree_within levels) hbefore) hwithin
    exact insertTree_within hloop hstored

end Objects

/-! ## 2. Sessions -/

variable {σ κ : Type} {reader : Reader σ κ}

section Sessions

variable {kept : Session σ sha256 → Prop}

/-- Kept by the steps on the state that keep the counters within their limits. -/
def KeptBySteps (limits : ArchiveLimits) (kept : Session σ sha256 → Prop) : Prop :=
  ∀ session state, kept session → (session.state.Within limits → state.Within limits) →
    kept { session with state := state }

/-- Kept by these steps and by the reads of the parse. -/
structure Stable (reader : Reader σ κ) (limits : ArchiveLimits)
    (kept : Session σ sha256 → Prop) : Prop where
  step : KeptBySteps limits kept
  read : ∀ count, Routine.Ensures kept kept (reader.readBuffer limits count)

theorem raise_keeps (r : Except ArchiveDecodeError α) :
    Routine.Ensures kept kept (Reader.raise r : Reading σ κ sha256 α) :=
  Routine.Ensures.lift (fun _ hs => hs) _

theorem look_keeps (question : Session σ sha256 → α) :
    Routine.Ensures kept kept (look question : Reading σ κ sha256 α) :=
  Routine.Ensures.look (fun _ hs => hs) _

theorem pure_keeps (a : α) :
    Routine.Ensures kept kept (pure a : Reading σ κ sha256 α) :=
  Routine.Ensures.pure (fun _ hs => hs) a

theorem KeptBySteps.update (hsteps : KeptBySteps limits kept)
    {step : ParseState (hash sha256) → Except ArchiveDecodeError (α × ParseState (hash sha256))}
    (hstep : ∀ before a after, step before = .ok (a, after) → before.Within limits →
      after.Within limits) :
    Routine.Ensures kept kept (Reader.update step : Reading σ κ sha256 α) := by
  intro session hsession
  rw [Reader.update]
  cases hrun : step session.state with
  | error error => exact hsession
  | ok r => exact hsteps _ _ hsession (hstep _ _ _ hrun)

namespace Stable

theorem change (hstable : Stable reader limits kept)
    {step : ParseState (hash sha256) → Except ArchiveDecodeError (ParseState (hash sha256))}
    (hstep : ∀ before after, before.Within limits → step before = .ok after →
      after.Within limits) :
    Routine.Ensures kept kept (Reader.change step : Reading σ κ sha256 Unit) := by
  refine hstable.step.update ?_
  intro before a after hrun hbefore
  cases hres : step before with
  | error error =>
    rw [hres] at hrun
    cases hrun
  | ok state =>
    rw [hres] at hrun
    cases hrun
    exact hstep _ _ hbefore hres

theorem readChunks (hstable : Stable reader limits kept) :
    ∀ turns count, Routine.Ensures kept kept (reader.readChunks limits turns count)
  | _, 0 => by
    rw [Reader.readChunks]
    exact pure_keeps []
  | 0, _ + 1 => pure_keeps []
  | turns + 1, count + 1 => by
    rw [Reader.readChunks]
    refine .keep (hstable.read _) fun bytes => ?_
    exact .keep (hstable.readChunks turns _) fun behind => pure_keeps _

theorem decodeFileEntry (hstable : Stable reader limits kept) (header : Header) :
    Routine.Ensures kept kept (reader.decodeFileEntry limits header) := by
  refine .keep (look_keeps _) fun rem => ?_
  refine .keep (look_keeps _) fun consumed => ?_
  refine .keep (hstable.change fun _ _ => reserveFile_within) fun _ => ?_
  refine .keep (hstable.readChunks _ _) fun bytes => ?_
  have hinsert : Routine.Ensures kept kept (Reader.change (insertFileEntry sha256 limits header
      bytes) : Reading σ κ sha256 Unit) :=
    hstable.change fun _ _ => insertFileEntry_within
  refine .ite ?_ hinsert
  refine .keep (hstable.read _) fun padding => ?_
  refine .keep (look_keeps _) fun consumed => ?_
  exact .keep (raise_keeps _) fun _ => hinsert

theorem parseTerminator (hstable : Stable reader limits kept) :
    Routine.Ensures kept kept (reader.parseTerminator limits) := by
  refine .keep (look_keeps _) fun rem => ?_
  refine .keep (raise_keeps _) fun _ => ?_
  refine .keep (hstable.change fun _ _ => chargeMetadataBlock_within) fun _ => ?_
  refine .keep (hstable.read _) fun snd => ?_
  refine .keep (raise_keeps _) fun _ => ?_
  exact .keep (look_keeps _) fun rem => raise_keeps _

theorem decodeEntry (hstable : Stable reader limits kept) (header : Header) :
    Routine.Ensures kept kept (reader.decodeEntry limits header) := by
  rw [Reader.decodeEntry]
  cases header.kind with
  | file => exact hstable.decodeFileEntry header
  | directory => exact hstable.change fun _ _ => insertDirectoryEntry_within
  | symlink t => exact hstable.change fun _ _ => insertSymlinkEntry_within

theorem parseEntry (hstable : Stable reader limits kept) (block : List UInt8) (blockIndex : Nat) :
    Routine.Ensures kept kept (reader.parseEntry limits block blockIndex) := by
  refine .keep (hstable.step.update ?_) fun header => hstable.decodeEntry header
  intro before header after hparse hbefore
  exact parseHeader_within hbefore hparse

theorem parseUstar (hstable : Stable reader limits kept) :
    ∀ turns, Routine.Ensures kept kept (reader.parseUstar limits turns)
  | 0 => raise_keeps _
  | turns + 1 => by
    refine .keep (look_keeps _) fun rem => ?_
    refine .keep (look_keeps _) fun consumed => ?_
    refine .keep (raise_keeps _) fun _ => ?_
    refine .keep (hstable.change fun _ _ => chargeMetadataBlock_within) fun _ => ?_
    refine .keep (hstable.read _) fun block => ?_
    refine .ite hstable.parseTerminator ?_
    exact .keep (hstable.parseEntry block _) fun _ => hstable.parseUstar turns

theorem attempt {step : Reading σ κ sha256 α} (h : Routine.Ensures kept kept step) :
    Routine.Ensures kept kept (Reader.attempt step) := by
  intro session hsession
  have hafter := h session hsession
  rw [Reader.attempt]
  split
  · rename_i after hrun
    rwa [hrun] at hafter
  · rename_i r after _ hrun
    rwa [hrun] at hafter

end Stable

theorem KeptBySteps.finalizeArchive (hsteps : KeptBySteps limits kept)
    (decl : ArchiveDeclaration) :
    Routine.Ensures kept kept
      (Reader.finalizeArchive limits decl : Reading σ κ sha256 _) := by
  refine .keep (look_keeps _) fun nodes => ?_
  refine .keep (hsteps.update ?_) fun rootDigest => ?_
  · intro before d built hbuild hbefore
    exact buildTree_within _ _ _ _ _ _ hbefore hbuild
  · refine .keep (look_keeps _) fun objects => ?_
    exact .keep (raise_keeps _) fun graph => pure_keeps _

/-- The whole decoder, its probe for trailing bytes apart. -/
theorem Stable.decode {probed : Session σ sha256 → Prop} (hstable : Stable reader limits kept)
    (hsteps : KeptBySteps limits probed) (hprobed : ∀ session, kept session → probed session)
    (hprobe : Routine.Ensures kept probed (reader.chargedRead limits 1))
    (decl : ArchiveDeclaration) :
    Routine.Ensures kept probed (reader.decode limits decl) := by
  have hdrain : Routine.Ensures kept probed (reader.drainVerifyEnd limits) := by
    refine .bind hprobed (look_keeps _) fun rem => ?_
    refine .bind hprobed (hstable.readChunks _ _) fun bytes => ?_
    refine .bind (fun _ hs => hs) hprobe fun trailing => ?_
    exact .keep (raise_keeps _) fun _ => look_keeps _
  refine .bind hprobed (raise_keeps _) fun _ => ?_
  refine .bind hprobed (raise_keeps _) fun _ => ?_
  refine .bind hprobed (attempt (hstable.parseUstar _)) fun parsed => ?_
  refine .bind (fun _ hs => hs) hdrain fun hashed => ?_
  refine .keep (raise_keeps _) fun _ => ?_
  exact .keep (Routine.Ensures.lift (fun _ hs => hs) parsed) fun _ =>
    hsteps.finalizeArchive decl

end Sessions

/-! ## 3. Reads -/

variable {count : Nat}

section Reads

variable {session after : Session σ sha256} {turns needed : Nat}

variable {error : ArchiveDecodeError}

theorem raise_pass {cond : Prop} [Decidable cond] (h : ¬ cond) :
    (Reader.raise (reject cond error) : Reading σ κ sha256 Unit) session =
      (.ok (), session) := by
  rw [Reader.raise, lift, reject, if_neg h]
  rfl

theorem raise_stop {cond : Prop} [Decidable cond] (h : cond) :
    (Reader.raise (reject cond error) : Reading σ κ sha256 Unit) session =
      (.error (.decode error), session) := by
  rw [Reader.raise, lift, reject, if_pos h]
  rfl

/-! One turn of `read_exact_payload`, by what the read gives. -/

theorem readExactPayload_done (hrem : session.remaining = 0) :
    reader.readExactPayload limits (turns + 1) (needed + 1) session =
      (.error (.decode (.truncatedPayload session.expected session.consumed)), session) := by
  rw [Reader.readExactPayload]
  simp only [look_bind]
  exact bind_of_error (raise_stop hrem)

section

variable (hrem : session.remaining ≠ 0)

include hrem

theorem readExactPayload_turn :
    reader.readExactPayload limits (turns + 1) (needed + 1) session =
      (reader.chargedRead limits (min (needed + 1) session.remaining) >>= fun bytes => do
        Reader.raise (reject (bytes = [])
          (.truncatedPayload session.expected session.consumed))
        Reader.consume bytes
        let behind ← reader.readExactPayload limits turns (needed + 1 - bytes.length)
        return bytes ++ behind) session := by
  rw [Reader.readExactPayload]
  simp only [look_bind]
  exact bind_of_ok (raise_pass hrem)

theorem readExactPayload_failed {e : StreamError κ}
    (hread : reader.chargedRead limits (min (needed + 1) session.remaining) session =
      (.error e, after)) :
    reader.readExactPayload limits (turns + 1) (needed + 1) session = (.error e, after) := by
  rw [readExactPayload_turn hrem]
  exact bind_of_error hread

theorem readExactPayload_ended
    (hread : reader.chargedRead limits (min (needed + 1) session.remaining) session =
      (.ok [], after)) :
    reader.readExactPayload limits (turns + 1) (needed + 1) session =
      (.error (.decode (.truncatedPayload session.expected session.consumed)), after) := by
  rw [readExactPayload_turn hrem, bind_of_ok hread]
  exact bind_of_error (raise_stop rfl)

theorem readExactPayload_more {bytes : List UInt8} (hbytes : bytes ≠ [])
    (hread : reader.chargedRead limits (min (needed + 1) session.remaining) session =
      (.ok bytes, after)) :
    reader.readExactPayload limits (turns + 1) (needed + 1) session =
      (reader.readExactPayload limits turns (needed + 1 - bytes.length) >>= fun behind =>
        pure (bytes ++ behind)) { after with hashed := after.hashed ++ bytes } := by
  rw [readExactPayload_turn hrem, bind_of_ok hread, bind_of_ok (raise_pass hbytes)]
  exact bind_of_ok rfl

end

/-- Kept by a read that fails, and by one whose bytes are counted. -/
structure Drawn (reader : Reader σ κ) (limits : ArchiveLimits)
    (kept : Session σ sha256 → Prop) : Prop where
  failed : ∀ session after count e, kept session →
    reader.chargedRead limits count session = (.error e, after) → kept after
  counted : ∀ session after count bytes, kept session → count ≤ session.remaining →
    reader.chargedRead limits count session = (.ok bytes, after) →
      kept { after with hashed := after.hashed ++ bytes }

theorem Drawn.readExactPayload {kept : Session σ sha256 → Prop}
    (hdrawn : Drawn reader limits kept) :
    ∀ turns needed, Routine.Ensures kept kept (reader.readExactPayload limits turns needed)
  | _, 0 => by
    rw [Reader.readExactPayload]
    exact pure_keeps []
  | 0, _ + 1 => pure_keeps []
  | turns + 1, needed + 1 => by
    intro session hsession
    by_cases hrem : session.remaining = 0
    · rw [readExactPayload_done hrem]
      exact hsession
    rcases hread : reader.chargedRead limits (min (needed + 1) session.remaining) session with
      ⟨e | bytes, after⟩
    · rw [readExactPayload_failed hrem hread]
      exact hdrawn.failed _ _ _ _ hsession hread
    · have hcounted := hdrawn.counted _ _ _ _ hsession (Nat.min_le_right _ _) hread
      by_cases hbytes : bytes = []
      · subst hbytes
        rw [readExactPayload_ended hrem hread]
        rwa [append_nil] at hcounted
      · rw [readExactPayload_more hrem hbytes hread]
        exact Routine.Ensures.keep (hdrawn.readExactPayload turns _) (fun _ => pure_keeps _) _
          hcounted

/-! One attempt of `charged_read`, by the charge and by what the read gives. -/

theorem attemptRead_refused {count attempts : Nat}
    (hcharge : charge session.readOperations 1 .readOperations limits.maxReadOperations =
      .error error) :
    reader.attemptRead limits count (attempts + 1) session = (.error (.decode error), session) := by
  simp only [Reader.attemptRead, hcharge]

section Attempt

variable {attempts ops : Nat} {inner : σ}

section

variable
  (hcharge : charge session.readOperations 1 .readOperations limits.maxReadOperations = .ok ops)

include hcharge

theorem attemptRead_bytes {bytes : List UInt8}
    (hread : reader.read session.inner count = (.bytes bytes, inner)) :
    reader.attemptRead limits count (attempts + 1) session =
      (.ok bytes, { session with inner := inner, readOperations := ops }) := by
  simp only [Reader.attemptRead, hcharge, hread]

theorem attemptRead_interrupted (hread : reader.read session.inner count = (.interrupted, inner)) :
    reader.attemptRead limits count (attempts + 1) session =
      reader.attemptRead limits count attempts
        { session with inner := inner, readOperations := ops } := by
  rw [Reader.attemptRead]
  simp only [hcharge, hread]

theorem attemptRead_failed {kind : κ}
    (hread : reader.read session.inner count = (.failed kind, inner)) :
    reader.attemptRead limits count (attempts + 1) session =
      (.error (.readError kind),
        { session with inner := inner, readOperations := ops }) := by
  simp only [Reader.attemptRead, hcharge, hread]

end

end Attempt

theorem attemptRead_frame {count : Nat} :
    ∀ (attempts : Nat) (session : Session σ sha256), ∃ inner ops,
      (reader.attemptRead limits count attempts session).2 =
          { session with inner := inner, readOperations := ops } ∧
        (session.readOperations ≤ limits.maxReadOperations →
          ops ≤ limits.maxReadOperations)
  | 0, session => ⟨session.inner, session.readOperations, rfl, fun h => h⟩
  | attempts + 1, session => by
    cases hcharge : charge session.readOperations 1 .readOperations limits.maxReadOperations with
    | error error =>
      rw [attemptRead_refused hcharge]
      exact ⟨session.inner, session.readOperations, rfl, fun h => h⟩
    | ok ops =>
      have hle := charge_le hcharge
      rcases hread : reader.read session.inner count with ⟨_ | _ | kind, inner⟩
      · rw [attemptRead_bytes hcharge hread]
        exact ⟨inner, ops, rfl, fun _ => hle⟩
      · rw [attemptRead_interrupted hcharge hread]
        obtain ⟨inner', operations', hafter, hbound⟩ :=
          attemptRead_frame attempts { session with inner := inner, readOperations := ops }
        exact ⟨inner', operations', hafter, fun _ => hbound hle⟩
      · rw [attemptRead_failed hcharge hread]
        exact ⟨inner, ops, rfl, fun _ => hle⟩

theorem chargedRead_frame (reader : Reader σ κ) (limits : ArchiveLimits) (count : Nat)
    (session : Session σ sha256) : ∃ inner ops,
    (reader.chargedRead limits count session).2 =
        { session with inner := inner, readOperations := ops } ∧
      (session.readOperations ≤ limits.maxReadOperations →
        ops ≤ limits.maxReadOperations) :=
  attemptRead_frame _ session

/-! ## 4. Limits -/

structure Session.Within (limits : ArchiveLimits) (session : Session σ sha256) : Prop where
  reads : session.readOperations ≤ limits.maxReadOperations
  state : session.state.Within limits

theorem Session.new_within (limits : ArchiveLimits) (start : σ) (expected : Nat) :
    (Session.new start expected : Session σ sha256).Within limits :=
  ⟨Nat.zero_le _, ParseState.new_within _ limits⟩

theorem chargedRead_within {count : Nat} (hashed : List UInt8) (hwithin : session.Within limits)
    (h : (reader.chargedRead limits count session).2 = after) :
    Session.Within limits { after with hashed := hashed } := by
  obtain ⟨inner, ops, hafter, hbound⟩ := chargedRead_frame reader limits count session
  rw [h] at hafter
  subst hafter
  exact ⟨hbound hwithin.reads, hwithin.state⟩

theorem stable_within (reader : Reader σ κ) (limits : ArchiveLimits) :
    Stable reader limits (Session.Within limits : Session σ sha256 → Prop) where
  step _ _ hsession hstate := ⟨hsession.reads, hstate hsession.state⟩
  read count := by
    have hdrawn : Drawn reader limits (Session.Within limits : Session σ sha256 → Prop) := {
      failed := by
        intro session after count e hsession hread
        exact chargedRead_within after.hashed hsession (congrArg snd hread)
      counted := by
        intro session after count bytes hsession _ hread
        exact chargedRead_within _ hsession (congrArg snd hread) }
    exact hdrawn.readExactPayload count count

/-- **No counter of the decoder exceeds its limit**, whatever the reader does. -/
theorem decodeArchive_within (reader : Reader σ κ) (sha256 : List UInt8 → ObjectDigest)
    (limits : ArchiveLimits) (start : σ) (decl : ArchiveDeclaration) :
    (reader.decodeArchive sha256 limits start decl).2.Within limits := by
  have hstable : Stable reader limits (Session.Within limits : Session σ sha256 → Prop) :=
    stable_within reader limits
  refine hstable.decode hstable.step (fun _ hs => hs) ?_ decl _
    (Session.new_within limits start decl.payloadByteLen)
  intro session hsession
  exact chargedRead_within _ hsession rfl

end Reads

/-! ## 5. What a reader hands out -/

section Counted

def bytesOf {ε : Type} : Except ε (List UInt8) → List UInt8
  | .ok bytes => bytes
  | .error _ => []

theorem attemptRead_counted (reader : Reader σ κ) (limits : ArchiveLimits) (count : Nat) :
    ∀ (attempts : Nat) (session : Session (σ × Nat) sha256),
      (reader.counted.attemptRead limits count attempts session).2.inner.2 =
          session.inner.2 +
            (bytesOf (reader.counted.attemptRead limits count attempts session).1).length ∧
        (bytesOf (reader.counted.attemptRead limits count attempts session).1).length ≤ count
  | 0, session => ⟨rfl, Nat.zero_le _⟩
  | attempts + 1, session => by
    cases hcharge : charge session.readOperations 1 .readOperations limits.maxReadOperations with
    | error error =>
      rw [attemptRead_refused hcharge]
      exact ⟨rfl, Nat.zero_le _⟩
    | ok ops =>
      have hinner : (reader.counted.read session.inner count).2.2 =
          session.inner.2 + (reader.counted.read session.inner count).1.handed := rfl
      have hlen := reader.counted.read_length session.inner count
      rcases hread : reader.counted.read session.inner count with ⟨bytes | _ | kind, inner⟩
      · rw [hread] at hinner
        rw [attemptRead_bytes hcharge hread]
        exact ⟨hinner, hlen bytes (congrArg fst hread)⟩
      · rw [hread] at hinner
        rw [attemptRead_interrupted hcharge hread]
        obtain ⟨hcount, hle⟩ :=
          attemptRead_counted reader limits count attempts
            { session with inner := inner, readOperations := ops }
        exact ⟨hcount.trans (congrArg (· + _) hinner), hle⟩
      · rw [hread] at hinner
        rw [attemptRead_failed hcharge hread]
        exact ⟨hinner, Nat.zero_le _⟩

/-- Every byte that was handed out is counted, up to the declared length. -/
structure Tallied (declared : Nat) (session : Session (σ × Nat) sha256) : Prop where
  expected : session.expected = declared
  handed : session.inner.2 = session.hashed.length
  within : session.hashed.length ≤ declared

variable {declared : Nat} {session after : Session (σ × Nat) sha256}

theorem chargedRead_counted {r : Except (StreamError κ) (List UInt8)}
    (hread : reader.counted.chargedRead limits count session = (r, after)) :
    after.expected = session.expected ∧ after.hashed = session.hashed ∧
      after.inner.2 = session.inner.2 + (bytesOf r).length ∧
      (bytesOf r).length ≤ count := by
  obtain ⟨inner, ops, hframe, -⟩ := chargedRead_frame reader.counted limits count session
  have hcounted := attemptRead_counted reader limits count
    (limits.maxReadOperations - session.readOperations + 1) session
  rw [hread] at hframe
  rw [Reader.chargedRead] at hread
  rw [hread] at hcounted
  have hafter : after = { session with inner := inner, readOperations := ops } := hframe
  subst hafter
  exact ⟨rfl, rfl, hcounted⟩

theorem stable_tallied (reader : Reader σ κ) (limits : ArchiveLimits) (declared : Nat) :
    Stable reader.counted limits
      (Tallied declared : Session (σ × Nat) sha256 → Prop) where
  step _ _ hsession _ := ⟨hsession.expected, hsession.handed, hsession.within⟩
  read count := by
    have hdrawn : Drawn reader.counted limits
        (Tallied declared : Session (σ × Nat) sha256 → Prop) := {
      failed := by
        intro session after count e hsession hread
        obtain ⟨hexp, hhashed, hinner, -⟩ := chargedRead_counted hread
        refine ⟨hexp.trans hsession.expected, ?_, ?_⟩
        · rw [hinner, hhashed]
          exact hsession.handed
        · rw [hhashed]
          exact hsession.within
      counted := by
        intro session after count bytes hsession hcount hread
        obtain ⟨hexp, hhashed, hinner, hle⟩ := chargedRead_counted hread
        have hroom : (session.hashed ++ bytes).length ≤ declared := by
          have hrem : session.remaining = declared - session.hashed.length := by
            rw [Session.remaining, hsession.expected, Session.consumed]
          have hbytes : bytes.length ≤ count := hle
          have hwithin := hsession.within
          rw [length_append]
          omega
        refine ⟨hexp.trans hsession.expected, ?_, ?_⟩
        · show after.inner.2 = (after.hashed ++ bytes).length
          rw [hinner, hhashed, length_append, hsession.handed]
          rfl
        · show (after.hashed ++ bytes).length ≤ declared
          rw [hhashed]
          exact hroom }
    exact hdrawn.readExactPayload count count

/-- **At most one byte behind the declared ones is read.** -/
theorem decodeArchive_handed (reader : Reader σ κ) (sha256 : List UInt8 → ObjectDigest)
    (limits : ArchiveLimits) (start : σ) (decl : ArchiveDeclaration) :
    (reader.counted.decodeArchive sha256 limits (start, 0) decl).2.inner.2 ≤
      decl.payloadByteLen + 1 := by
  have hstable : Stable reader.counted limits
      (Tallied decl.payloadByteLen : Session (σ × Nat) sha256 → Prop) :=
    stable_tallied reader limits decl.payloadByteLen
  have hsteps : KeptBySteps limits fun session : Session (σ × Nat) sha256 =>
      session.inner.2 ≤ decl.payloadByteLen + 1 := fun _ _ hs _ => hs
  refine hstable.decode hsteps ?_ ?_ decl _ ⟨rfl, rfl, Nat.zero_le _⟩
  · intro session hsession
    have hhanded := hsession.handed
    have hwithin := hsession.within
    omega
  · intro session hsession
    rcases hread : reader.counted.chargedRead limits 1 session with ⟨r, after⟩
    obtain ⟨-, -, hinner, hle⟩ := chargedRead_counted hread
    have hhanded := hsession.handed
    have hwithin := hsession.within
    show after.inner.2 ≤ decl.payloadByteLen + 1
    omega

end Counted

end Malm.Archive
