/-
Malm.Commit.Journal — the transaction journal and the two directory entries it is
published through.

Every name operation is one durable step, so the programs here say which directories a
crash can leave behind. The JSON encoding is a parameter, `JournalCodec`. Ownership and
mode checks are left out: nothing else writes the store while the transaction lock is held.
-/
import Malm.Commit.Error
import Malm.Lib.Durable

namespace Malm.Commit

open Store Durable

/-! ## 1. The journal -/

/-- `SourceDigestV1`: the content digest of a backed-up regular file. -/
structure SourceDigest where
  value : Nat
deriving DecidableEq, Repr

inductive JournalBackup where
  | intent (sourceDigest : Option SourceDigest)
  | identified (identity : FileIdentity) (sourceDigest : Option SourceDigest)
deriving DecidableEq, Repr

structure JournalOperation where
  createdIdentity : Option FileIdentity
  backup : Option JournalBackup
deriving DecidableEq, Repr

def JournalOperation.default : JournalOperation := ⟨none, none⟩

structure TransactionJournal where
  schemaVersion : Nat
  namespaceName : NamespaceName
  planId : PreparedId
  previousCatalog : Digest
  nextCatalog : Digest
  previousGeneration : Option Digest
  nextGeneration : Option Digest
  operations : List JournalOperation
deriving DecidableEq, Repr

/-! ## 2. Progression -/

def backupProgresses : Option JournalBackup → Option JournalBackup → Bool
  | none, none => true
  | none, some (.intent _) => true
  | none, some (.identified _ _) => false
  | some (.intent _), none => false
  | some (.identified _ _), none => false
  | some (.intent before), some (.intent after) => before = after
  | some (.intent before), some (.identified _ after) => before = after
  | some (.identified _ _), some (.intent _) => false
  | some (.identified beforeIdentity beforeDigest),
      some (.identified afterIdentity afterDigest) =>
    beforeIdentity = afterIdentity && beforeDigest = afterDigest

def validateOperationProgression (before after : JournalOperation) : Except CommitError Unit :=
  if before.createdIdentity.isSome && before.createdIdentity ≠ after.createdIdentity then
    .error (.invalidJournal "journal update changes an established operation identity")
  else if before.createdIdentity.isNone && after.createdIdentity.isSome &&
      (before.backup.isSome || after.backup.isSome) then
    .error (.invalidJournal "journal update establishes creation and backup phases together")
  else if !backupProgresses before.backup after.backup then
    .error (.invalidJournal "journal update has an invalid backup phase progression")
  else
    .ok ()

/-- The loop over `current.operations.iter().zip(&updated.operations)`. -/
def validateOperationsProgression :
    List JournalOperation → List JournalOperation → Except CommitError Unit
  | before :: current, after :: updated => do
    validateOperationProgression before after
    validateOperationsProgression current updated
  | _, _ => .ok ()

def validateJournalProgression (current updated : TransactionJournal) : Except CommitError Unit :=
  if current.schemaVersion ≠ updated.schemaVersion ||
      current.namespaceName ≠ updated.namespaceName ||
      current.planId ≠ updated.planId ||
      current.previousCatalog ≠ updated.previousCatalog ||
      current.nextCatalog ≠ updated.nextCatalog ||
      current.previousGeneration ≠ updated.previousGeneration ||
      current.nextGeneration ≠ updated.nextGeneration ||
      current.operations.length ≠ updated.operations.length then
    .error (.invalidJournal "journal update changes immutable transaction fields")
  else
    validateOperationsProgression current.operations updated.operations

/-! ## 3. Encoding -/

def maxTransactionJournalBytes : Nat := 56 * 1024 * 1024

/-- The JSON encoding of journals. -/
structure JournalCodec where
  Bytes : Type
  decidableBytes : DecidableEq Bytes
  size : Bytes → Nat
  /-- `canonical_journal`. -/
  canonicalJournal : TransactionJournal → Bytes
  /-- `serde_json::from_slice`. -/
  fromSlice : Bytes → Option TransactionJournal
  fromSlice_canonicalJournal : ∀ journal : TransactionJournal,
    journal.operations.length ≤ maxPreparedOperations →
      fromSlice (canonicalJournal journal) = some journal

namespace JournalCodec

instance (codec : JournalCodec) : DecidableEq codec.Bytes := codec.decidableBytes

def decodeJournalBytes (codec : JournalCodec) (bytes : codec.Bytes) :
    Except CommitError TransactionJournal :=
  match codec.fromSlice bytes with
  | none => .error (.invalidJournal "journal is not valid JSON")
  | some journal =>
    if codec.canonicalJournal journal ≠ bytes || journal.schemaVersion ≠ 1 then
      .error (.invalidJournal "journal is noncanonical or unsupported")
    else
      .ok journal

end JournalCodec

/-! ## 4. The transactions directory -/

/-- The entries of `transactions/` a journal may use. -/
inductive JournalLeaf where
  | current
  | update
  | unpublished
deriving DecidableEq, Repr

/-- `current.json`, `.current.json.update` and `.current.json.new`. -/
structure Transactions (codec : JournalCodec) where
  current : Option codec.Bytes
  update : Option codec.Bytes
  unpublished : Option codec.Bytes

namespace Transactions

variable {codec : JournalCodec}

/-- A directory without journal entries. -/
def empty : Transactions codec := ⟨none, none, none⟩

def entry (directory : Transactions codec) : JournalLeaf → Option codec.Bytes
  | .current => directory.current
  | .update => directory.update
  | .unpublished => directory.unpublished

/-- `linkat` of a fully written anonymous file. -/
def link (directory : Transactions codec) (leaf : JournalLeaf) (bytes : codec.Bytes) :
    Transactions codec :=
  match leaf with
  | .current => { directory with current := some bytes }
  | .update => { directory with update := some bytes }
  | .unpublished => { directory with unpublished := some bytes }

def unlink (directory : Transactions codec) (leaf : JournalLeaf) : Transactions codec :=
  match leaf with
  | .current => { directory with current := none }
  | .update => { directory with update := none }
  | .unpublished => { directory with unpublished := none }

/-- `renameat2(…, RENAME_EXCHANGE)` of `.current.json.update` and `current.json`. -/
def exchange (directory : Transactions codec) : Transactions codec :=
  { directory with current := directory.update, update := directory.current }

end Transactions

/-- Which slot besides the authoritative journal a crash left behind. -/
inductive StagedJournalUpdate where
  | none
  | candidate
  | previous
deriving DecidableEq, Repr

structure LoadedJournal where
  journal : TransactionJournal
  stagedUpdate : StagedJournalUpdate
deriving DecidableEq, Repr

section Protocol

variable (codec : JournalCodec)

/-- `read_mutable` of a journal slot: absent, too large, or its bytes. -/
def readMutable (leaf : JournalLeaf) (directory : Transactions codec) :
    Except CommitError (Option codec.Bytes) :=
  match directory.entry leaf with
  | none => .ok none
  | some bytes =>
    if maxTransactionJournalBytes < codec.size bytes then
      .error (.invalidStore "store entry exceeds its size limit")
    else
      .ok (some bytes)

def loadJournal (directory : Transactions codec) : Except CommitError (Option LoadedJournal) := do
  if (directory.entry .unpublished).isSome then
    throw (.invalidJournal "unpublished transaction journal staging remains")
  let current ← readMutable codec .current directory
  let update ← readMutable codec .update directory
  match current with
  | none =>
    match update with
    | none => return none
    | some updateBytes =>
      let journal ← codec.decodeJournalBytes updateBytes
      return some ⟨journal, .candidate⟩
  | some currentBytes =>
    let current ← codec.decodeJournalBytes currentBytes
    match update with
    | none => return some ⟨current, .none⟩
    | some updateBytes =>
      let updated ← codec.decodeJournalBytes updateBytes
      if (validateJournalProgression current updated).isOk then
        return some ⟨updated, .candidate⟩
      validateJournalProgression updated current
      return some ⟨current, .previous⟩

def publishJournal (journal : TransactionJournal) :
    Program (Transactions codec) CommitError Unit := do
  let directory ← Program.read
  if (directory.entry .current).isSome then
    Program.fail .recoveryRequired
  if maxTransactionJournalBytes < codec.size (codec.canonicalJournal journal) then
    Program.fail (.invalidPlan "transaction journal exceeds its encoded size limit")
  Program.step fun directory => directory.link .current (codec.canonicalJournal journal)

/-- `remove_pinned_mutable_entry`: unlink a leaf that still holds `expected`. -/
def removePinnedMutableEntry (leaf : JournalLeaf) (expected : codec.Bytes) :
    Program (Transactions codec) CommitError Unit := do
  match ← Program.check (readMutable codec leaf) with
  | none => Program.fail (.invalidStore "journal entry vanished")
  | some bytes =>
    if bytes ≠ expected then
      Program.fail (.invalidStore "journal entry changed before removal")
    Program.step fun directory => directory.unlink leaf

def replaceJournal (journal : TransactionJournal) :
    Program (Transactions codec) CommitError Unit := do
  let bytes := codec.canonicalJournal journal
  if maxTransactionJournalBytes < codec.size bytes then
    Program.fail (.invalidJournal "transaction journal exceeds its encoded size limit")
  let directory ← Program.read
  if (directory.entry .update).isSome then
    Program.fail (.invalidStore "unidentified staging entry exists")
  match ← Program.check (readMutable codec .current) with
  | none => Program.fail (.invalidJournal "current journal vanished")
  | some currentBytes =>
    let currentJournal ← Program.lift (codec.decodeJournalBytes currentBytes)
    Program.lift (validateJournalProgression currentJournal journal)
    Program.step fun directory => directory.link .update bytes
    Program.step Transactions.exchange
    removePinnedMutableEntry codec .update currentBytes
    match ← Program.check (readMutable codec .current) with
    | none => Program.fail (.invalidJournal "published journal vanished")
    | some published =>
      if published ≠ bytes then
        Program.fail
          (.invalidJournal "published transaction journal differs from its staged bytes")

def journalAt (leaf : JournalLeaf) (directory : Transactions codec) :
    Except CommitError (Option (codec.Bytes × TransactionJournal)) := do
  match ← readMutable codec leaf directory with
  | none => return none
  | some bytes =>
    let journal ← codec.decodeJournalBytes bytes
    return some (bytes, journal)

def removeJournal : Program (Transactions codec) CommitError Unit := do
  match ← Program.check (loadJournal codec) with
  | none => pure ()
  | some loaded =>
    let authoritative := codec.canonicalJournal loaded.journal
    match loaded.stagedUpdate with
    | .candidate =>
      match ← Program.check (journalAt codec .current) with
      | none => removePinnedMutableEntry codec .update authoritative
      | some (currentBytes, current) =>
        Program.lift (validateJournalProgression current loaded.journal)
        removePinnedMutableEntry codec .current currentBytes
        removePinnedMutableEntry codec .update authoritative
    | .previous =>
      match ← Program.check (journalAt codec .update) with
      | none => Program.fail (.invalidJournal "previous journal update vanished")
      | some (previousBytes, previous) =>
        Program.lift (validateJournalProgression previous loaded.journal)
        removePinnedMutableEntry codec .update previousBytes
        removePinnedMutableEntry codec .current authoritative
    | .none =>
      let directory ← Program.read
      if (directory.entry .current).isSome then
        removePinnedMutableEntry codec .current authoritative

end Protocol

end Malm.Commit
