/-
Malm.Commit.JournalTheorems — the journal replacement protocol survives a
crash at every point.

Of two slots at most one order is an accepted update
(`validateJournalProgression_antisymm`). The directories between the durable steps
have four shapes (`Shows`), each of which `load_journal` reads as one journal.
-/
import Malm.Commit.Journal

namespace Malm.Commit

open Store Durable Checks Transactions Program

/-! ## 1. Progression -/

theorem backupProgresses_antisymm {before after : Option JournalBackup}
    (h₁ : backupProgresses before after = true) (h₂ : backupProgresses after before = true) :
    before = after := by
  match before, after with
  | none, none => rfl
  | none, some (.intent _) => simp [backupProgresses] at h₂
  | none, some (.identified _ _) => simp [backupProgresses] at h₁
  | some (.intent _), none => simp [backupProgresses] at h₁
  | some (.identified _ _), none => simp [backupProgresses] at h₁
  | some (.intent _), some (.intent _) =>
    simp only [backupProgresses, decide_eq_true_eq] at h₁
    rw [h₁]
  | some (.intent _), some (.identified _ _) => simp [backupProgresses] at h₂
  | some (.identified _ _), some (.intent _) => simp [backupProgresses] at h₁
  | some (.identified _ _), some (.identified _ _) =>
    simp only [backupProgresses, Bool.and_eq_true, decide_eq_true_eq] at h₁
    obtain ⟨hidentity, hdigest⟩ := h₁
    rw [hidentity, hdigest]

variable {before after : JournalOperation}

theorem validateOperationProgression_ok :
    validateOperationProgression before after = .ok () ↔
      (before.createdIdentity.isSome → before.createdIdentity = after.createdIdentity) ∧
      (before.createdIdentity.isNone → after.createdIdentity.isSome →
        before.backup = none ∧ after.backup = none) ∧
      backupProgresses before.backup after.backup = true := by
  unfold validateOperationProgression
  cases hb : before.createdIdentity <;> cases ha : after.createdIdentity <;>
    cases hbb : before.backup <;> cases hab : after.backup <;> simp <;> split <;> simp_all

theorem validateOperationProgression_antisymm
    (h₁ : validateOperationProgression before after = .ok ())
    (h₂ : validateOperationProgression after before = .ok ()) : before = after := by
  rw [validateOperationProgression_ok] at h₁ h₂
  obtain ⟨hcreated₁, -, hbackup₁⟩ := h₁
  obtain ⟨hcreated₂, -, hbackup₂⟩ := h₂
  have hbackup := backupProgresses_antisymm hbackup₁ hbackup₂
  have hcreated : before.createdIdentity = after.createdIdentity := by
    cases hb : before.createdIdentity with
    | some ident =>
      rw [hb] at hcreated₁
      exact hcreated₁ rfl
    | none =>
      cases ha : after.createdIdentity with
      | none => rfl
      | some ident =>
        rw [ha, hb] at hcreated₂
        exact absurd (hcreated₂ rfl) (by simp)
  cases before
  cases after
  simp_all

theorem validateOperationsProgression_cons {cur updated : List JournalOperation} :
    validateOperationsProgression (before :: cur) (after :: updated) = .ok () ↔
      validateOperationProgression before after = .ok () ∧
        validateOperationsProgression cur updated = .ok () := by
  rw [validateOperationsProgression, bind_unit_ok]

theorem validateOperationsProgression_antisymm :
    ∀ {cur updated : List JournalOperation}, cur.length = updated.length →
      validateOperationsProgression cur updated = .ok () →
      validateOperationsProgression updated cur = .ok () → cur = updated
  | [], [], _, _, _ => rfl
  | [], _ :: _, hlen, _, _ => by simp at hlen
  | _ :: _, [], hlen, _, _ => by simp at hlen
  | before :: cur, after :: updated, hlen, h₁, h₂ => by
    rw [validateOperationsProgression_cons] at h₁ h₂
    have hhead := validateOperationProgression_antisymm h₁.1 h₂.1
    have htail := validateOperationsProgression_antisymm (by simpa using hlen) h₁.2 h₂.2
    rw [hhead, htail]

theorem validateJournalProgression_ok {cur updated : TransactionJournal} :
    validateJournalProgression cur updated = .ok () ↔
      cur.schemaVersion = updated.schemaVersion ∧
      cur.namespaceName = updated.namespaceName ∧
      cur.planId = updated.planId ∧
      cur.previousCatalog = updated.previousCatalog ∧
      cur.nextCatalog = updated.nextCatalog ∧
      cur.previousGeneration = updated.previousGeneration ∧
      cur.nextGeneration = updated.nextGeneration ∧
      cur.operations.length = updated.operations.length ∧
      validateOperationsProgression cur.operations updated.operations = .ok () := by
  unfold validateJournalProgression
  split
  · rename_i h
    simp only [ne_eq, decide_not, Bool.or_eq_true, Bool.not_eq_true', decide_eq_false_iff_not] at h
    constructor
    · intro hok
      cases hok
    · rintro ⟨h1, h2, h3, h4, h5, h6, h7, h8, -⟩
      simp_all
  · rename_i h
    simp only [ne_eq, decide_not, Bool.or_eq_true, Bool.not_eq_true', decide_eq_false_iff_not,
      not_or, not_not] at h
    obtain ⟨⟨⟨⟨⟨⟨⟨h1, h2⟩, h3⟩, h4⟩, h5⟩, h6⟩, h7⟩, h8⟩ := h
    constructor
    · intro hok
      exact ⟨h1, h2, h3, h4, h5, h6, h7, h8, hok⟩
    · rintro ⟨-, -, -, -, -, -, -, -, hok⟩
      exact hok

theorem validateJournalProgression_antisymm {cur updated : TransactionJournal}
    (h₁ : validateJournalProgression cur updated = .ok ())
    (h₂ : validateJournalProgression updated cur = .ok ()) : cur = updated := by
  rw [validateJournalProgression_ok] at h₁ h₂
  obtain ⟨hver, hnamespace, hplan, hprev, hnext, hprevGen, hnextGen, hlen, hops₁⟩ := h₁
  have hops := validateOperationsProgression_antisymm hlen hops₁ h₂.2.2.2.2.2.2.2.2
  cases cur
  cases updated
  simp_all

/-! ## 2. Directories of the protocol -/

section Protocol

variable {codec : JournalCodec}

/-- A journal of the supported version, within the size limits. -/
structure Writable (codec : JournalCodec) (journal : TransactionJournal) : Prop where
  version : journal.schemaVersion = 1
  operations : journal.operations.length ≤ maxPreparedOperations
  size : codec.size (codec.canonicalJournal journal) ≤ maxTransactionJournalBytes

variable {journal older : TransactionJournal} {directory : Transactions codec}

theorem Writable.decode (h : Writable codec journal) :
    codec.decodeJournalBytes (codec.canonicalJournal journal) = .ok journal := by
  unfold JournalCodec.decodeJournalBytes
  rw [codec.fromSlice_canonicalJournal journal h.operations]
  simp [h.version]

theorem Writable.not_too_large (h : Writable codec journal) :
    ¬ maxTransactionJournalBytes < codec.size (codec.canonicalJournal journal) :=
  Nat.not_lt.2 h.size

theorem Writable.update {next : TransactionJournal} (h : Writable codec journal)
    (hnext : validateJournalProgression journal next = .ok ())
    (hsize : codec.size (codec.canonicalJournal next) ≤ maxTransactionJournalBytes) :
    Writable codec next := by
  rw [validateJournalProgression_ok] at hnext
  obtain ⟨hver, -, -, -, -, -, -, hlen, -⟩ := hnext
  exact ⟨hver ▸ h.version, hlen ▸ h.operations, hsize⟩

/-- `current.json` holds the journal and nothing else is there. -/
def settled (codec : JournalCodec) (journal : TransactionJournal) : Transactions codec :=
  ⟨some (codec.canonicalJournal journal), none, none⟩

/-- The directories that stand for one journal: settled, staged, exchanged, or the update
alone. -/
inductive Shows (codec : JournalCodec) (journal : TransactionJournal) :
    Transactions codec → Prop
  | settled : Shows codec journal (settled codec journal)
  | staged {older : TransactionJournal} (writable : Writable codec older)
      (progress : validateJournalProgression older journal = .ok ()) :
      Shows codec journal
        ⟨some (codec.canonicalJournal older), some (codec.canonicalJournal journal), none⟩
  | exchanged {older : TransactionJournal} (writable : Writable codec older)
      (progress : validateJournalProgression older journal = .ok ()) :
      Shows codec journal
        ⟨some (codec.canonicalJournal journal), some (codec.canonicalJournal older), none⟩
  | lone : Shows codec journal ⟨none, some (codec.canonicalJournal journal), none⟩

theorem readMutable_current (h : Writable codec journal)
    (update unpublished : Option codec.Bytes) :
    readMutable codec .current ⟨some (codec.canonicalJournal journal), update, unpublished⟩ =
      .ok (some (codec.canonicalJournal journal)) := by
  simp [readMutable, entry, h.not_too_large]

theorem readMutable_update (h : Writable codec journal)
    (cur unpublished : Option codec.Bytes) :
    readMutable codec .update ⟨cur, some (codec.canonicalJournal journal), unpublished⟩ =
      .ok (some (codec.canonicalJournal journal)) := by
  simp [readMutable, entry, h.not_too_large]

@[simp] theorem readMutable_current_absent (update unpublished : Option codec.Bytes) :
    readMutable codec .current ⟨none, update, unpublished⟩ = .ok none := rfl

@[simp] theorem readMutable_update_absent (cur unpublished : Option codec.Bytes) :
    readMutable codec .update ⟨cur, none, unpublished⟩ = .ok none := rfl

theorem loadJournal_empty : loadJournal codec empty = .ok none := rfl

theorem loadJournal_settled (h : Writable codec journal) :
    loadJournal codec (settled codec journal) = .ok (some ⟨journal, .none⟩) := by
  simp [loadJournal, settled, readMutable_current h, h.decode, entry, ok_bind, pure_eq]

theorem loadJournal_lone (h : Writable codec journal) :
    loadJournal codec ⟨none, some (codec.canonicalJournal journal), none⟩ =
      .ok (some ⟨journal, .candidate⟩) := by
  simp [loadJournal, readMutable_update h, h.decode, entry, ok_bind, pure_eq]

section

variable (holder : Writable codec older) (h : Writable codec journal)
  (hprog : validateJournalProgression older journal = .ok ())

include holder h hprog

theorem loadJournal_staged :
    loadJournal codec
      ⟨some (codec.canonicalJournal older), some (codec.canonicalJournal journal), none⟩ =
      .ok (some ⟨journal, .candidate⟩) := by
  simp [loadJournal, readMutable_current holder, readMutable_update h, holder.decode, h.decode,
    hprog, Except.isOk, Except.toBool, entry, ok_bind, pure_eq]

theorem loadJournal_previous (hne : older ≠ journal) :
    loadJournal codec
      ⟨some (codec.canonicalJournal journal), some (codec.canonicalJournal older), none⟩ =
      .ok (some ⟨journal, .previous⟩) := by
  cases hback : validateJournalProgression journal older with
  | ok u => exact absurd (validateJournalProgression_antisymm hprog hback) hne
  | error e =>
    simp [loadJournal, readMutable_current h, readMutable_update holder, holder.decode, h.decode,
      hprog, hback, Except.isOk, Except.toBool, entry, ok_bind, pure_eq]

end

theorem Shows.load (hwritable : Writable codec journal) (h : Shows codec journal directory) :
    ∃ staged, loadJournal codec directory = .ok (some ⟨journal, staged⟩) := by
  cases h with
  | settled => exact ⟨_, loadJournal_settled hwritable⟩
  | staged holder hprog => exact ⟨_, loadJournal_staged holder hwritable hprog⟩
  | @exchanged older holder hprog =>
    by_cases hne : older = journal
    · subst hne
      exact ⟨_, loadJournal_staged hwritable hwritable hprog⟩
    · exact ⟨_, loadJournal_previous holder hwritable hprog hne⟩
  | lone => exact ⟨_, loadJournal_lone hwritable⟩

/-! ## 3. Runs of the protocol -/

section

variable (h : Writable codec journal)

include h

theorem removePinnedMutableEntry_run (leaf : JournalLeaf) (directory : Transactions codec)
    (hentry : directory.entry leaf = some (codec.canonicalJournal journal)) :
    removePinnedMutableEntry codec leaf (codec.canonicalJournal journal) directory =
      ⟨[directory], directory.unlink leaf, .ok ()⟩ := by
  have hread : readMutable codec leaf directory = .ok (some (codec.canonicalJournal journal)) := by
    simp [readMutable, hentry, h.not_too_large]
  simp [removePinnedMutableEntry, bind_run, check_run, step_run, hread]

theorem replaceJournal_run (next : TransactionJournal) :
    (∃ e, replaceJournal codec next (settled codec journal) =
        ⟨[], settled codec journal, .error e⟩) ∨
      (Writable codec next ∧ validateJournalProgression journal next = .ok () ∧
        replaceJournal codec next (settled codec journal) =
          ⟨[settled codec journal,
              ⟨some (codec.canonicalJournal journal), some (codec.canonicalJournal next), none⟩,
              ⟨some (codec.canonicalJournal next), some (codec.canonicalJournal journal), none⟩],
            settled codec next, .ok ()⟩) := by
  by_cases hsize : maxTransactionJournalBytes < codec.size (codec.canonicalJournal next)
  · left
    simp [replaceJournal, bind_run, fail_run, hsize]
  cases hprog : validateJournalProgression journal next with
  | error e =>
    left
    simp [replaceJournal, bind_run, read_run, check_run, lift_run, settled, entry,
      readMutable_current h, h.decode, hsize, hprog]
  | ok u =>
    right
    have hnext := h.update hprog (Nat.not_lt.1 hsize)
    refine ⟨hnext, rfl, ?_⟩
    have hremove := removePinnedMutableEntry_run h .update
      ⟨some (codec.canonicalJournal next), some (codec.canonicalJournal journal), none⟩ rfl
    simp [replaceJournal, bind_run, read_run, check_run, pure_run, lift_run, step_run, settled,
      entry, link, exchange, unlink, readMutable_current h, readMutable_current hnext, h.decode,
      hsize, hprog, hremove]

theorem publishJournal_run :
    publishJournal codec journal empty =
      ⟨[empty], settled codec journal, .ok ()⟩ := by
  simp [publishJournal, bind_run, read_run, step_run, empty, entry, link, h.not_too_large, settled]

theorem removeJournal_settled :
    removeJournal codec (settled codec journal) =
      ⟨[settled codec journal], empty, .ok ()⟩ := by
  have hremove := removePinnedMutableEntry_run h .current (settled codec journal) rfl
  have hpres : ((settled codec journal).entry .current).isSome = true := rfl
  have hgone : (settled codec journal).unlink .current = empty := rfl
  simp [removeJournal, bind_run, check_run, read_run, loadJournal_settled h, hpres, hremove, hgone]

theorem removeJournal_lone :
    removeJournal codec ⟨none, some (codec.canonicalJournal journal), none⟩ =
      ⟨[⟨none, some (codec.canonicalJournal journal), none⟩], empty, .ok ()⟩ := by
  have hremove := removePinnedMutableEntry_run h .update
    ⟨none, some (codec.canonicalJournal journal), none⟩ rfl
  simp [removeJournal, bind_run, check_run, loadJournal_lone h, journalAt,
    ok_bind, pure_eq, hremove, unlink, empty]

end

section

variable (holder : Writable codec older) (h : Writable codec journal)
  (hprog : validateJournalProgression older journal = .ok ())
include holder h hprog

theorem removeJournal_staged :
    removeJournal codec
      ⟨some (codec.canonicalJournal older), some (codec.canonicalJournal journal), none⟩ =
      ⟨[⟨some (codec.canonicalJournal older), some (codec.canonicalJournal journal), none⟩,
        ⟨none, some (codec.canonicalJournal journal), none⟩], empty, .ok ()⟩ := by
  have hfirst := removePinnedMutableEntry_run holder .current
    ⟨some (codec.canonicalJournal older), some (codec.canonicalJournal journal), none⟩ rfl
  have hsecond := removePinnedMutableEntry_run h .update
    ⟨none, some (codec.canonicalJournal journal), none⟩ rfl
  simp [removeJournal, bind_run, check_run, lift_run, loadJournal_staged holder h hprog, journalAt,
    readMutable_current holder, holder.decode, ok_bind, pure_eq, hprog, hfirst, hsecond, unlink,
    empty]

theorem removeJournal_exchanged (hne : older ≠ journal) :
    removeJournal codec
      ⟨some (codec.canonicalJournal journal), some (codec.canonicalJournal older), none⟩ =
      ⟨[⟨some (codec.canonicalJournal journal), some (codec.canonicalJournal older), none⟩,
        settled codec journal], empty, .ok ()⟩ := by
  have hload : loadJournal codec
      ⟨some (codec.canonicalJournal journal), some (codec.canonicalJournal older), none⟩ =
      .ok (some ⟨journal, .previous⟩) := loadJournal_previous holder h hprog hne
  have hfirst := removePinnedMutableEntry_run holder .update
    ⟨some (codec.canonicalJournal journal), some (codec.canonicalJournal older), none⟩ rfl
  have hsecond := removePinnedMutableEntry_run h .current (settled codec journal) rfl
  rw [settled] at hsecond
  simp [removeJournal, bind_run, check_run, lift_run, hload, journalAt, readMutable_update holder,
    holder.decode, ok_bind, pure_eq, hprog, hfirst, hsecond, settled, unlink, empty]

end

/-- A removal passes only directories that show the journal, and empties both slots. -/
theorem removeJournal_run (h : Writable codec journal) (hshows : Shows codec journal directory) :
    (∀ passed ∈ (removeJournal codec directory).passed, Shows codec journal passed) ∧
      (removeJournal codec directory).state = empty ∧
      (removeJournal codec directory).result = .ok () := by
  cases hshows with
  | settled =>
    rw [removeJournal_settled h]
    simpa using .settled
  | lone =>
    rw [removeJournal_lone h]
    simpa using .lone
  | staged holder hprog =>
    rw [removeJournal_staged holder h hprog]
    simpa using ⟨.staged holder hprog, .lone⟩
  | @exchanged older holder hprog =>
    by_cases hne : older = journal
    · subst hne
      rw [removeJournal_staged h h hprog]
      simpa using ⟨.staged h hprog, .lone⟩
    · rw [removeJournal_exchanged holder h hprog hne]
      simpa using ⟨.exchanged holder hprog, .settled⟩

theorem removeJournal_empty :
    removeJournal codec empty = ⟨[], empty, .ok ()⟩ := rfl

/-! ## 4. Histories -/

/-- The publications of one history, newest first, and the directory they left. -/
inductive Published (codec : JournalCodec) :
    List TransactionJournal → Transactions codec → Prop
  | first {journal : TransactionJournal} (version : journal.schemaVersion = 1)
      (operations : journal.operations.length ≤ maxPreparedOperations)
      (returned : (publishJournal codec journal Transactions.empty).result = .ok ()) :
      Published codec [journal] (publishJournal codec journal Transactions.empty).state
  | next {newest next : TransactionJournal} {older : List TransactionJournal}
      {directory : Transactions codec} (before : Published codec (newest :: older) directory)
      (returned : (replaceJournal codec next directory).result = .ok ()) :
      Published codec (next :: newest :: older) (replaceJournal codec next directory).state

theorem Published.settled {journals : List TransactionJournal}
    (h : Published codec journals directory) :
    ∃ newest older, journals = newest :: older ∧ Writable codec newest ∧
      directory = Malm.Commit.settled codec newest := by
  induction h with
  | @first journal version ops returned =>
    by_cases hsize : maxTransactionJournalBytes < codec.size (codec.canonicalJournal journal)
    · simp [publishJournal, bind_run, read_run, fail_run, hsize, empty, entry] at returned
    · have hwritable : Writable codec journal := ⟨version, ops, Nat.not_lt.1 hsize⟩
      refine ⟨journal, [], rfl, hwritable, ?_⟩
      rw [publishJournal_run hwritable]
  | @next newest next older directory _ returned ih =>
    obtain ⟨newest', older', heq, hwritable, rfl⟩ := ih
    cases heq
    rcases replaceJournal_run hwritable next with ⟨e, hrun⟩ | ⟨hnext, -, hrun⟩
    · rw [hrun] at returned
      cases returned
    · exact ⟨next, newest :: older, rfl, hnext, by rw [hrun]⟩

/-- What a crash can leave while a history replaces `newest` by `next`. -/
def Replacing (codec : JournalCodec) (directory : Transactions codec)
    (next : TransactionJournal) (crashed : Transactions codec) : Prop :=
  crashed ∈ (replaceJournal codec next).crashStates directory

theorem Replacing.cases {newest next : TransactionJournal} {crashed : Transactions codec}
    (h : Writable codec newest) (hcrash : Replacing codec (Malm.Commit.settled codec newest) next crashed) :
    crashed = Malm.Commit.settled codec newest ∨
      (Writable codec next ∧ Shows codec next crashed) := by
  unfold Replacing at hcrash
  rw [mem_crashStates] at hcrash
  rcases replaceJournal_run h next with ⟨e, hrun⟩ | ⟨hnext, hprog, hrun⟩
  · rw [hrun] at hcrash
    simp at hcrash
    exact .inl hcrash
  · rw [hrun] at hcrash
    simp only [List.mem_cons, List.not_mem_nil, or_false] at hcrash
    rcases hcrash with (rfl | rfl | rfl) | rfl
    · exact .inl rfl
    · exact .inr ⟨hnext, .staged h hprog⟩
    · exact .inr ⟨hnext, .exchanged h hprog⟩
    · exact .inr ⟨hnext, .settled⟩

/-- Removals, crashed and run again, leave the journal shown or gone. -/
theorem Shows.restarted {crashed : Transactions codec} (h : Writable codec journal)
    (hshows : Shows codec journal directory)
    (hrestarts : Restarts (removeJournal codec) directory crashed) :
    Shows codec journal crashed ∨ crashed = empty := by
  refine hrestarts.invariant (I := fun d => Shows codec journal d ∨ d = empty) ?_
    (.inl hshows)
  intro d hd crashed hcrash
  rw [mem_crashStates] at hcrash
  rcases hd with hd | rfl
  · obtain ⟨hpassed, hstate, -⟩ := removeJournal_run h hd
    rcases hcrash with hcrash | rfl
    · exact .inl (hpassed _ hcrash)
    · exact .inr hstate
  · rw [removeJournal_empty] at hcrash
    simp at hcrash
    exact .inr hcrash

/-- Every directory of a removal shows the journal or is empty, and the removal completes from
it. -/
theorem Shows.removal (h : Writable codec journal) (hshows : Shows codec journal directory) :
    ∀ crashed, Restarts (removeJournal codec) directory crashed →
      ((∃ staged, loadJournal codec crashed = .ok (some ⟨journal, staged⟩)) ∨
        (crashed = empty ∧ loadJournal codec crashed = .ok none)) ∧
      (removeJournal codec crashed).result = .ok () ∧
      (removeJournal codec crashed).state = empty := by
  intro crashed hrestarts
  rcases hshows.restarted h hrestarts with hcrashed | rfl
  · obtain ⟨-, hstate, hres⟩ := removeJournal_run h hcrashed
    exact ⟨.inl (hcrashed.load h), hres, hstate⟩
  · exact ⟨.inr ⟨rfl, loadJournal_empty⟩, rfl, rfl⟩

/-- **Journal replacement protocol.** Whatever the crash point, a returned publication is loaded,
and a crashed replacement loads the new journal or the preceding one; and removals load the
journal they started from until both slots are empty. No two distinct journals are progressions of
each other. -/
theorem journalReplacement_survives_crashes (codec : JournalCodec)
    (newest : TransactionJournal) (older : List TransactionJournal)
    (directory : Transactions codec) (h : Published codec (newest :: older) directory) :
    (∀ current updated, validateJournalProgression current updated = .ok () →
      validateJournalProgression updated current = .ok () → current = updated) ∧
    loadJournal codec directory = .ok (some ⟨newest, .none⟩) ∧
    (∀ next crashed, Replacing codec directory next crashed →
      ∃ loaded, loadJournal codec crashed = .ok (some loaded) ∧
        (loaded.journal = next ∨ (loaded.journal = newest ∧ crashed = directory))) ∧
    (∀ left, (left = directory ∨ ∃ next, Replacing codec directory next left) →
      ∀ loaded, loadJournal codec left = .ok (some loaded) →
        ∀ crashed, Restarts (removeJournal codec) left crashed →
          ((∃ staged, loadJournal codec crashed = .ok (some ⟨loaded.journal, staged⟩)) ∨
            (crashed = Transactions.empty ∧ loadJournal codec crashed = .ok none)) ∧
          (removeJournal codec crashed).result = .ok () ∧
          (removeJournal codec crashed).state = Transactions.empty) := by
  obtain ⟨newest', older', heq, hwritable, rfl⟩ := h.settled
  cases heq
  have hload := loadJournal_settled hwritable
  refine ⟨fun _ _ => validateJournalProgression_antisymm, hload, ?_, ?_⟩
  · intro next crashed hcrash
    rcases hcrash.cases hwritable with rfl | ⟨hnext, hshows⟩
    · exact ⟨_, hload, .inr ⟨rfl, rfl⟩⟩
    · obtain ⟨staged, hloaded⟩ := hshows.load hnext
      exact ⟨_, hloaded, .inl rfl⟩
  · intro left hleft loaded hloaded
    have hshown : ∃ journal, Writable codec journal ∧ Shows codec journal left := by
      rcases hleft with rfl | ⟨next, hcrash⟩
      · exact ⟨newest, hwritable, .settled⟩
      · rcases hcrash.cases hwritable with rfl | ⟨hnext, hshows⟩
        · exact ⟨newest, hwritable, .settled⟩
        · exact ⟨next, hnext, hshows⟩
    obtain ⟨journal, hjournal, hshows⟩ := hshown
    obtain ⟨staged, hstaged⟩ := hshows.load hjournal
    rw [hloaded] at hstaged
    cases hstaged
    exact hshows.removal hjournal

end Protocol

/-- The bytes are the journal itself, of a size that grows with the operations. -/
def structuralCodec : JournalCodec where
  Bytes := TransactionJournal
  decidableBytes := inferInstance
  size journal := 1024 + 1024 * journal.operations.length
  canonicalJournal journal := journal
  fromSlice := some
  fromSlice_canonicalJournal _ _ := rfl

/-- A journal of one operation, before anything was created. -/
def sampleJournal : TransactionJournal where
  schemaVersion := 1
  namespaceName := ['n']
  planId := ⟨7⟩
  previousCatalog := ⟨1⟩
  nextCatalog := ⟨2⟩
  previousGeneration := none
  nextGeneration := some ⟨3⟩
  operations := [.default]

/-- The journal after its operation's backup intent. -/
def sampleUpdate : TransactionJournal :=
  { sampleJournal with operations := [⟨none, some (.intent none)⟩] }

theorem sampleUpdate_published :
    Published structuralCodec [sampleUpdate, sampleJournal]
      (settled structuralCodec sampleUpdate) := by
  have hfirst : Published structuralCodec [sampleJournal]
      (settled structuralCodec sampleJournal) := .first rfl (by decide) rfl
  exact .next hfirst rfl

theorem journalReplacement_survives_crashes_sample :
    Published structuralCodec [sampleUpdate, sampleJournal]
        (settled structuralCodec sampleUpdate) ∧
      loadJournal structuralCodec (settled structuralCodec sampleUpdate) =
        .ok (some ⟨sampleUpdate, .none⟩) :=
  ⟨sampleUpdate_published,
    (journalReplacement_survives_crashes structuralCodec sampleUpdate [sampleJournal] _
      sampleUpdate_published).2.1⟩

end Malm.Commit
