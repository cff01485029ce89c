/-
Malm.Archive.Reader — the archive decoder over any reader
(`malm-archive/src/decoder.rs`).

A reader may hand out fewer bytes than it is asked for, be interrupted or fail. The
decoder asks again until a buffer is full, and every attempt is charged. What it
parses stays in the session, as `&mut ParseState` does.
-/
import Malm.Archive.Decoder
import Malm.Lib.Routines

namespace Malm.Archive

open Malm.Tree Bytes Checks

/-! ## 1. Readers -/

/-- The bytes that a read wrote, or a kind of error; `κ` has those besides `Interrupted`. -/
inductive ReadResult (κ : Type) where
  | bytes (bytes : List UInt8)
  | interrupted
  | failed (kind : κ)

/-- `Read`: the result of a read into a buffer of the given length. -/
structure Reader (σ κ : Type) where
  read : σ → Nat → ReadResult κ × σ
  read_length : ∀ s count bytes, (read s count).1 = .bytes bytes → bytes.length ≤ count

/-- A read is interrupted, or hands out a front of the payload, empty at its end only. -/
inductive Serves {σ κ : Type} (ahead : σ → List UInt8 → Prop) (rest : List UInt8) (count : Nat) :
    ReadResult κ × σ → Prop
  | bytes {bytes behind : List UInt8} {s : σ} (hrest : rest = bytes ++ behind)
      (hend : bytes = [] → count = 0 ∨ rest = []) (hahead : ahead s behind) :
      Serves ahead rest count (.bytes bytes, s)
  | interrupted {s : σ} (hahead : ahead s rest) : Serves ahead rest count (.interrupted, s)

/-- From this state on the reader hands out the payload, in any chunks. -/
def Reader.Delivers {σ κ : Type} (reader : Reader σ κ) (start : σ) (payload : List UInt8) : Prop :=
  ∃ ahead : σ → List UInt8 → Prop, ahead start payload ∧
    ∀ s rest count, ahead s rest → Serves ahead rest count (reader.read s count)

def ReadResult.handed {κ : Type} : ReadResult κ → Nat
  | .bytes written => written.length
  | .interrupted => 0
  | .failed _ => 0

/-- The same reader, which also counts the bytes that it hands out. -/
def Reader.counted {σ κ : Type} (reader : Reader σ κ) : Reader (σ × Nat) κ where
  read s count :=
    ((reader.read s.1 count).1,
      ((reader.read s.1 count).2, s.2 + (reader.read s.1 count).1.handed))
  read_length s count bytes h := reader.read_length s.1 count bytes h

/-! ## 2. Sessions -/

/-- `ArchiveDecodeError`, the failures of a reader, and a read loop without an end. -/
inductive StreamError (κ : Type) where
  | decode (error : ArchiveDecodeError)
  | readError (kind : κ)
  | endless

structure Session (σ : Type) (sha256 : List UInt8 → ObjectDigest) where
  inner : σ
  expected : Nat
  hashed : List UInt8
  readOperations : Nat
  state : ParseState (hash sha256)

namespace Session

variable {σ : Type} {sha256 : List UInt8 → ObjectDigest}

def new (inner : σ) (expected : Nat) : Session σ sha256 :=
  ⟨inner, expected, [], 0, ParseState.new (hash sha256)⟩

def consumed (session : Session σ sha256) : Nat := session.hashed.length

def remaining (session : Session σ sha256) : Nat := session.expected - session.consumed

end Session

abbrev Reading (σ κ : Type) (sha256 : List UInt8 → ObjectDigest) (α : Type) :=
  Routine (StreamError κ) (Session σ sha256) α

namespace Reader

variable {σ κ : Type} {sha256 : List UInt8 → ObjectDigest}

def raise {α : Type} (result : Except ArchiveDecodeError α) : Reading σ κ sha256 α :=
  Routine.lift (result.mapError .decode)

/-- A step on the state of the parse, which stays as it was if the step fails. -/
def update {α : Type}
    (step : ParseState (hash sha256) → Except ArchiveDecodeError (α × ParseState (hash sha256))) :
    Reading σ κ sha256 α := fun session =>
  match step session.state with
  | .error error => (.error (.decode error), session)
  | .ok (a, state) => (.ok a, { session with state := state })

def change (step : ParseState (hash sha256) →
    Except ArchiveDecodeError (ParseState (hash sha256))) : Reading σ κ sha256 Unit :=
  update fun state => (step state).map ((), ·)

/-! ## 3. The payload -/

section Payload

variable (reader : Reader σ κ) (limits : ArchiveLimits)

def attemptRead (count : Nat) : Nat → Reading σ κ sha256 (List UInt8)
  | 0 => fun session => (.error .endless, session)
  | attempts + 1 => fun session =>
    match charge session.readOperations 1 .readOperations limits.maxReadOperations with
    | .error error => (.error (.decode error), session)
    | .ok operations =>
      match reader.read session.inner count with
      | (.bytes bytes, inner) =>
        (.ok bytes, { session with inner := inner, readOperations := operations })
      | (.interrupted, inner) =>
        attemptRead count attempts { session with inner := inner, readOperations := operations }
      | (.failed kind, inner) =>
        (.error (.readError kind), { session with inner := inner, readOperations := operations })

/-- `charged_read` of at most `count` bytes: the charges end its loop, unless the counter
saturates below the limit. -/
def chargedRead (count : Nat) : Reading σ κ sha256 (List UInt8) := fun session =>
  reader.attemptRead limits count (limits.maxReadOperations - session.readOperations + 1) session

def consume (bytes : List UInt8) : Reading σ κ sha256 Unit := fun session =>
  (.ok (), { session with hashed := session.hashed ++ bytes })

/-- The loop of `read_exact_payload`, with a turn for every byte. -/
def readExactPayload : Nat → Nat → Reading σ κ sha256 (List UInt8)
  | _, 0 => pure []
  | 0, _ + 1 => pure []
  | turns + 1, needed + 1 => do
    let remaining ← Routine.look Session.remaining
    let expected ← Routine.look Session.expected
    let consumed ← Routine.look Session.consumed
    raise (reject (remaining = 0) (.truncatedPayload expected consumed))
    let bytes ← reader.chargedRead limits (min (needed + 1) remaining)
    raise (reject (bytes = []) (.truncatedPayload expected consumed))
    consume bytes
    let behind ← readExactPayload turns (needed + 1 - bytes.length)
    return bytes ++ behind

def readBuffer (count : Nat) : Reading σ κ sha256 (List UInt8) :=
  reader.readExactPayload limits count count

/-- The loops that read `count` bytes a chunk at a time, with as many turns left. -/
def readChunks : Nat → Nat → Reading σ κ sha256 (List UInt8)
  | _, 0 => pure []
  | 0, _ + 1 => pure []
  | turns + 1, count + 1 => do
    let bytes ← reader.readBuffer limits (min (count + 1) fileChunkBytes)
    let behind ← readChunks turns (count + 1 - fileChunkBytes)
    return bytes ++ behind

def drainVerifyEnd : Reading σ κ sha256 (List UInt8) := do
  let remaining ← Routine.look Session.remaining
  let _ ← reader.readChunks limits remaining remaining
  let trailing ← reader.chargedRead limits 1
  raise (reject (trailing ≠ []) .trailingBytes)
  Routine.look Session.hashed

/-! ## 4. Entries -/

def decodeFileEntry (header : Header) : Reading σ κ sha256 Unit := do
  let remaining ← Routine.look Session.remaining
  let consumed ← Routine.look Session.consumed
  change (reserveFile sha256 limits header remaining (consumed / ustarBlockBytes))
  let bytes ← reader.readChunks limits header.size header.size
  if paddingLen header.size ≠ 0 then do
    let padding ← reader.readBuffer limits (paddingLen header.size)
    let consumed ← Routine.look Session.consumed
    raise (reject (padding.any (· ≠ 0) = true)
      (.malformedEntry (consumed / ustarBlockBytes) "file padding is nonzero"))
  change (insertFileEntry sha256 limits header bytes)

/-- What follows the first zero block. -/
def parseTerminator : Reading σ κ sha256 Unit := do
  let remaining ← Routine.look Session.remaining
  raise (reject (remaining < ustarBlockBytes)
    (.malformedTerminator "first zero block is not followed by a complete second zero block"))
  change (ParseState.chargeMetadataBlock limits)
  let second ← reader.readBuffer limits ustarBlockBytes
  raise (reject (isZeroBlock second = false)
    (.malformedTerminator "first zero block is not followed by a zero block"))
  let remaining ← Routine.look Session.remaining
  raise (reject (remaining ≠ 0) (.trailingPayloadData remaining))

/-- The match of `parse_ustar` on the kind of a header. -/
def decodeEntry (header : Header) : Reading σ κ sha256 Unit :=
  match header.kind with
  | .file => reader.decodeFileEntry limits header
  | .directory => change (insertDirectoryEntry limits header)
  | .symlink target => change (insertSymlinkEntry sha256 limits header target)

def parseEntry (block : List UInt8) (blockIndex : Nat) : Reading σ κ sha256 Unit := do
  let header ← update (parseHeader limits block blockIndex)
  reader.decodeEntry limits header

/-- `parse_ustar`, with the turns that are left; every turn reads a block. -/
def parseUstar : Nat → Reading σ κ sha256 Unit
  | 0 => raise (.error (.malformedTerminator "missing complete first zero block"))
  | turns + 1 => do
    let remaining ← Routine.look Session.remaining
    let consumed ← Routine.look Session.consumed
    raise (reject (remaining < ustarBlockBytes)
      (.malformedTerminator "missing complete first zero block"))
    change (ParseState.chargeMetadataBlock limits)
    let block ← reader.readBuffer limits ustarBlockBytes
    if isZeroBlock block then
      reader.parseTerminator limits
    else do
      reader.parseEntry limits block (consumed / ustarBlockBytes)
      parseUstar turns

end Payload

/-! ## 5. Archives -/

/-- The result of a step that may fail, for later; a step that goes on has none. -/
def attempt {α : Type} (step : Reading σ κ sha256 α) :
    Reading σ κ sha256 (Except (StreamError κ) α) := fun session =>
  match step session with
  | (.error .endless, after) => (.error .endless, after)
  | (result, after) => (.ok result, after)

def finalizeArchive (limits : ArchiveLimits) (declaration : ArchiveDeclaration) :
    Reading σ κ sha256 (DecodedArchive sha256) := do
  let nodes ← Routine.look fun session => session.state.nodes
  let rootDigest ← update (buildTree sha256 limits nodes (maxTreeDepth + 1) []
    rootAndImplicitDirectoryMode)
  let objects ← Routine.look fun session => session.state.objects
  let graph ← raise ((TreeGraph.new rootDigest.val
    (objects.trees.entries.map fun entry => entry.2.1)
    (objects.symlinks.entries.map fun entry => entry.2.1)).mapError .invalidTreeGraph)
  return ⟨declaration, rootDigest, objects, graph⟩

def decode (reader : Reader σ κ) (limits : ArchiveLimits) (declaration : ArchiveDeclaration) :
    Reading σ κ sha256 (DecodedArchive sha256) := do
  raise (reject (declaration.decoderVersion ≠ archiveDecoderVersion)
    (.unsupportedDecoderVersion archiveDecoderVersion declaration.decoderVersion))
  raise (checkArchiveLimit .payloadBytes declaration.payloadByteLen limits.maxPayloadBytes)
  let parsed ← attempt (reader.parseUstar limits
    (declaration.payloadByteLen / ustarBlockBytes + 1))
  let hashed ← reader.drainVerifyEnd limits
  raise (reject (sha256 hashed ≠ declaration.payloadDigest)
    (.payloadDigestMismatch declaration.payloadDigest (sha256 hashed)))
  Routine.lift parsed
  finalizeArchive limits declaration

/-- `decode_archive_v1`: its result, and the session that it leaves. -/
def decodeArchive (reader : Reader σ κ) (sha256 : List UInt8 → ObjectDigest)
    (limits : ArchiveLimits) (start : σ) (declaration : ArchiveDeclaration) :
    Except (StreamError κ) (DecodedArchive sha256) × Session σ sha256 :=
  reader.decode limits declaration (.new start declaration.payloadByteLen)

end Reader

end Malm.Archive
