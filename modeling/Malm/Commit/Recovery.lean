/-
Malm.Commit.Recovery — which side of a transaction the catalog is on.

A commit journals the digests of the catalog it found and of the one it will publish,
and recovery reconstructs the other side (`validateJournalCatalogTransition`). A head
change alters one selection (`HeadChange.generation`), so reversing it gives the
catalog before.
-/
import Malm.Commit.AdmissionTheorems
import Malm.Commit.Journal

namespace Malm.Commit

open Store Checks List StateCatalog

/-! ## 1. A catalog is its selections -/

variable {codec : Codec} {catalog next : StateCatalog} {ns key : NamespaceName}

section Selections

variable {digest : Digest}

theorem heads_ext {left right : List NamespaceHead}
    (hleft : (left.map NamespaceHead.namespaceName).Pairwise (· < ·))
    (hright : (right.map NamespaceHead.namespaceName).Pairwise (· < ·))
    (h : ∀ head, head ∈ left ↔ head ∈ right) : left = right := by
  rw [pairwise_map] at hleft hright
  have hperm : left.Perm right := by
    refine (perm_ext_iff_of_nodup ?_ ?_).2 h
    · exact hleft.imp fun hlt heq => absurd (heq ▸ hlt) (lt_irrefl _)
    · exact hright.imp fun hlt heq => absurd (heq ▸ hlt) (lt_irrefl _)
  refine hperm.eq_of_pairwise ?_ hleft hright
  intro first snd _ _ hlt hgt
  exact absurd hlt (lt_asymm hgt)

theorem ext_generation {left right : StateCatalog}
    (h : ∀ key, left.generation key = right.generation key) : left = right := by
  have hheads : left.heads = right.heads := by
    refine heads_ext left.sorted right.sorted ?_
    intro head
    show (⟨head.namespaceName, head.generation⟩ : NamespaceHead) ∈ left.heads ↔
      ⟨head.namespaceName, head.generation⟩ ∈ right.heads
    rw [← generation_eq_some, ← generation_eq_some, h]
  cases left
  cases right
  cases hheads
  rfl

theorem mem_upsert_iff {heads : List NamespaceHead} {head : NamespaceHead}
    (hsorted : (heads.map NamespaceHead.namespaceName).Pairwise (· < ·)) :
    head ∈ upsert ns digest heads ↔
      head = ⟨ns, digest⟩ ∨ head ∈ heads ∧ head.namespaceName ≠ ns := by
  constructor
  · exact mem_upsert_of_sorted hsorted
  · rintro (rfl | ⟨hmem, hne⟩)
    · exact self_mem_upsert _
    · exact mem_upsert_of_ne hne hmem

theorem generation_updateHead (h : catalog.updateHead codec ns digest = .ok next) :
    next.generation key = if key = ns then some digest else catalog.generation key := by
  ext selected
  rw [generation_eq_some, updateHead_heads h, mem_upsert_iff catalog.sorted, ← generation_eq_some]
  split
  · rename_i hkey
    simp [hkey, eq_comm]
  · rename_i hkey
    simp [hkey]

theorem generation_removeHead :
    (catalog.removeHead ns).1.generation key =
      if key = ns then none else catalog.generation key := by
  ext selected
  rw [generation_eq_some]
  show _ ∈ catalog.heads.filter _ ↔ _
  rw [mem_filter, ← generation_eq_some]
  split
  · rename_i hkey
    simp [hkey]
  · rename_i hkey
    simp [hkey]

theorem updateHead_eq (hsize : codec.catalogBytes next ≤ maxStateCatalogBytes)
    (h : ∀ key, next.generation key =
      if key = ns then some digest else catalog.generation key) :
    catalog.updateHead codec ns digest = .ok next := by
  have hheads : upsert ns digest catalog.heads = next.heads := by
    refine heads_ext (upsert_sorted catalog.sorted) next.sorted ?_
    intro head
    have hnext : head ∈ next.heads ↔ next.generation head.namespaceName = some head.generation :=
      generation_eq_some.symm
    have hbefore : head ∈ catalog.heads ↔
        catalog.generation head.namespaceName = some head.generation :=
      generation_eq_some.symm
    rw [mem_upsert_iff catalog.sorted, hnext, hbefore, h]
    obtain ⟨name, gen⟩ := head
    split
    · rename_i hkey
      obtain rfl : name = ns := hkey
      simp [eq_comm]
    · rename_i hkey
      have hne : name ≠ ns := hkey
      simp [hne]
  obtain ⟨heads, hsorted, hbound⟩ := next
  obtain rfl : _ = heads := hheads
  unfold updateHead
  rw [dif_pos hbound, if_neg (Nat.not_lt.2 hsize)]

end Selections

/-! ## 2. The check of recovery -/

inductive CatalogPosition where
  | previous
  | next
deriving DecidableEq, Repr

def asCatalogJournal {α : Type} (result : Except StateCatalogError α) : Except CommitError α :=
  result.mapError fun _ => .invalidJournal "state catalog exceeds its limits"

section Recovery

variable (codec : Codec)

/-- The next catalog as the journal's transition derives it from the prior one. -/
def reconstructNext (catalog : StateCatalog) (journal : TransactionJournal) :
    Except CommitError StateCatalog :=
  match journal.nextGeneration with
  | some generation =>
    asCatalogJournal (catalog.updateHead codec journal.namespaceName generation)
  | none => do
    let (next, removed) := catalog.removeHead journal.namespaceName
    reject (removed ≠ journal.previousGeneration)
      (.invalidJournal "namespace-removal catalog predecessor changed")
    return next

def reconstructPrevious (catalog : StateCatalog) (journal : TransactionJournal) :
    Except CommitError StateCatalog :=
  match journal.previousGeneration with
  | some generation =>
    asCatalogJournal (catalog.updateHead codec journal.namespaceName generation)
  | none => .ok (catalog.removeHead journal.namespaceName).1

def validateJournalCatalogTransition (catalog : StateCatalog) (journal : TransactionJournal) :
    Except CommitError CatalogPosition :=
  if codec.catalogDigest catalog = journal.previousCatalog then do
    reject
      (catalog.generation journal.namespaceName ≠ journal.previousGeneration)
      (.invalidJournal "prior catalog does not select the journaled namespace predecessor")
    let next ← reconstructNext codec catalog journal
    reject (codec.catalogDigest next ≠ journal.nextCatalog)
      (.invalidJournal "next catalog changes more than the journaled namespace")
    return .previous
  else if codec.catalogDigest catalog = journal.nextCatalog then do
    reject
      (catalog.generation journal.namespaceName ≠ journal.nextGeneration)
      (.invalidJournal "next catalog does not select the journaled namespace successor")
    let previous ← reconstructPrevious codec catalog journal
    reject (codec.catalogDigest previous ≠ journal.previousCatalog)
      (.invalidJournal "prior catalog changes more than the journaled namespace")
    return .next
  else
    .error (.invalidJournal
      "catalog is neither the exact prior nor next transaction catalog")

/-- The journal that `commit_v1` publishes before it changes a target. -/
def commitJournal (catalog : StateCatalog) (planId : PreparedId) (transition : OwnedTransition)
    (targets : Nat) : TransactionJournal where
  schemaVersion := 1
  namespaceName := transition.namespaceName
  planId := planId
  previousCatalog := codec.catalogDigest catalog
  nextCatalog := codec.catalogDigest transition.nextCatalog
  previousGeneration := transition.previous
  nextGeneration := transition.generationDigest
  operations := List.replicate targets .default

end Recovery

/-! ## 3. Head changes -/

section Changes

variable {before after other : StateCatalog} {tr : OwnedTransition}
  {journal : TransactionJournal} {planId : PreparedId} {targets : Nat}

/-- A head is inserted, replaced or removed, and the catalog is another one afterwards. -/
structure HeadChange (codec : Codec) (catalog : StateCatalog) (transition : OwnedTransition) :
    Prop where
  previous : transition.previous = catalog.generation transition.namespaceName
  next : match transition.generationDigest with
    | some digest =>
      catalog.updateHead codec transition.namespaceName digest = .ok transition.nextCatalog
    | none => (catalog.removeHead transition.namespaceName).1 = transition.nextCatalog
  changes : transition.nextCatalog ≠ catalog

theorem HeadChange.generation (h : HeadChange codec catalog tr) :
    tr.nextCatalog.generation key =
      if key = tr.namespaceName then tr.generationDigest
      else catalog.generation key := by
  have hnext := h.next
  cases hdigest : tr.generationDigest with
  | none =>
    rw [hdigest] at hnext
    rw [← hnext, generation_removeHead]
  | some digest =>
    rw [hdigest] at hnext
    rw [generation_updateHead hnext]

theorem classified_previous_iff :
    validateJournalCatalogTransition codec catalog journal = .ok .previous ↔
      codec.catalogDigest catalog = journal.previousCatalog ∧
        catalog.generation journal.namespaceName = journal.previousGeneration ∧
        ∃ next, reconstructNext codec catalog journal = .ok next ∧
          codec.catalogDigest next = journal.nextCatalog := by
  unfold validateJournalCatalogTransition
  split
  · rename_i hdigest
    simp only [bind_ok, exists_unit, reject_ok, pure_ok, not_not, hdigest, true_and, and_true]
  · rename_i hdigest
    split
    · simp only [bind_ok, pure_ok, reduceCtorEq, and_false, exists_false, hdigest, false_and]
    · simp only [reduceCtorEq, hdigest, false_and]

theorem classified_next_iff :
    validateJournalCatalogTransition codec catalog journal = .ok .next ↔
      codec.catalogDigest catalog ≠ journal.previousCatalog ∧
        codec.catalogDigest catalog = journal.nextCatalog ∧
        catalog.generation journal.namespaceName = journal.nextGeneration ∧
        ∃ prev, reconstructPrevious codec catalog journal = .ok prev ∧
          codec.catalogDigest prev = journal.previousCatalog := by
  unfold validateJournalCatalogTransition
  split
  · rename_i hdigest
    simp only [bind_ok, pure_ok, reduceCtorEq, and_false, exists_false, hdigest,
      ne_eq, not_true_eq_false, false_and]
  · rename_i hdigest
    split
    · rename_i hnext
      simp only [bind_ok, exists_unit, reject_ok, pure_ok, not_not, and_true]
      exact ⟨fun h => ⟨hdigest, hnext, h⟩, fun h => h.2.2⟩
    · rename_i hnext
      simp only [reduceCtorEq, hnext, false_and, and_false]

theorem HeadChange.classified_previous (h : HeadChange codec catalog tr) :
    validateJournalCatalogTransition codec catalog
      (commitJournal codec catalog planId tr targets) = .ok .previous := by
  have hnext := h.next
  have hreconstruct : reconstructNext codec catalog
      (commitJournal codec catalog planId tr targets) = .ok tr.nextCatalog := by
    cases hdigest : tr.generationDigest with
    | none =>
      rw [hdigest] at hnext
      simp only [reconstructNext, commitJournal, hdigest, bind_ok, exists_unit, reject_ok, pure_ok]
      exact ⟨fun hne => hne h.previous.symm, hnext⟩
    | some digest =>
      rw [hdigest] at hnext
      simp only [reconstructNext, commitJournal, hdigest, hnext]
      rfl
  exact classified_previous_iff.2 ⟨rfl, h.previous.symm, _, hreconstruct, rfl⟩

theorem HeadChange.classified_next (hfree : Function.Injective codec.catalogDigest)
    (hsize : codec.catalogBytes catalog ≤ maxStateCatalogBytes)
    (h : HeadChange codec catalog tr) :
    validateJournalCatalogTransition codec tr.nextCatalog
      (commitJournal codec catalog planId tr targets) = .ok .next := by
  have hselections : ∀ key, catalog.generation key =
      if key = tr.namespaceName then tr.previous
      else tr.nextCatalog.generation key := by
    intro key
    split
    · rename_i hkey
      rw [hkey, h.previous]
    · rename_i hkey
      rw [h.generation, if_neg hkey]
  have hreconstruct : reconstructPrevious codec tr.nextCatalog
      (commitJournal codec catalog planId tr targets) = .ok catalog := by
    cases hprevious : tr.previous with
    | none =>
      simp only [reconstructPrevious, commitJournal, hprevious]
      congr 1
      refine ext_generation ?_
      intro key
      rw [generation_removeHead, hselections, hprevious]
    | some digest =>
      rw [hprevious] at hselections
      simp only [reconstructPrevious, commitJournal, hprevious, updateHead_eq hsize hselections]
      rfl
  refine classified_next_iff.2
    ⟨fun hdigest => h.changes (hfree hdigest), rfl, ?_, _, hreconstruct, rfl⟩
  show tr.nextCatalog.generation tr.namespaceName = tr.generationDigest
  rw [h.generation, if_pos rfl]

theorem classified_digest {pos : CatalogPosition}
    (h : validateJournalCatalogTransition codec catalog journal = .ok pos) :
    codec.catalogDigest catalog = journal.previousCatalog ∨
      codec.catalogDigest catalog = journal.nextCatalog := by
  unfold validateJournalCatalogTransition at h
  split at h
  · exact Or.inl ‹_›
  · split at h
    · exact Or.inr ‹_›
    · cases h

theorem reconstructNext_apart (h : reconstructNext codec before journal = .ok next)
    (hkey : key ≠ journal.namespaceName) : next.generation key = before.generation key := by
  unfold reconstructNext at h
  split at h
  · rw [asCatalogJournal, mapError_ok] at h
    rw [generation_updateHead h, if_neg hkey]
  · simp only [bind_ok, exists_unit, pure_ok] at h
    obtain ⟨-, rfl⟩ := h
    rw [generation_removeHead, if_neg hkey]

/-- **Recovery identifies the side.** -/
theorem recovery_identifies_side (hfree : Function.Injective codec.catalogDigest) :
    (∀ (catalog : StateCatalog) (tr : OwnedTransition) (planId : PreparedId)
        (targets : Nat), codec.catalogBytes catalog ≤ maxStateCatalogBytes →
      HeadChange codec catalog tr →
        let journal := commitJournal codec catalog planId tr targets
        validateJournalCatalogTransition codec catalog journal = .ok .previous ∧
          validateJournalCatalogTransition codec tr.nextCatalog journal = .ok .next ∧
          ∀ other, other ≠ catalog → other ≠ tr.nextCatalog →
            ∀ position, validateJournalCatalogTransition codec other journal ≠ .ok position) ∧
      ∀ (journal : TransactionJournal) (before after : StateCatalog),
        validateJournalCatalogTransition codec before journal = .ok .previous →
          validateJournalCatalogTransition codec after journal = .ok .next →
            ∀ key, key ≠ journal.namespaceName →
              after.generation key = before.generation key := by
  constructor
  · intro catalog tr planId targets hsize h
    refine ⟨h.classified_previous, h.classified_next hfree hsize, ?_⟩
    intro other hbefore hafter position hposition
    rcases classified_digest hposition with hdigest | hdigest
    · exact hbefore (hfree hdigest)
    · exact hafter (hfree hdigest)
  · intro journal before after hprevious hnext key hkey
    obtain ⟨-, -, next, hreconstruct, hdigest⟩ := classified_previous_iff.1 hprevious
    have hafter : codec.catalogDigest after = journal.nextCatalog :=
      (classified_next_iff.1 hnext).2.1
    obtain rfl : next = after := hfree (hdigest.trans hafter.symm)
    exact reconstructNext_apart hreconstruct hkey

def listedCodec : Codec :=
  { sampleCodec.toCodec with
    catalogDigest := fun catalog =>
      ⟨Encodable.encode (catalog.heads.map fun head =>
        (head.namespaceName.map Char.toNat, head.generation.value))⟩ }

theorem listedCodec_free : Function.Injective listedCodec.catalogDigest := by
  intro left right h
  have hcode := Encodable.encode_injective (Digest.mk.inj h)
  have hhead : Function.Injective fun head : NamespaceHead =>
      (head.namespaceName.map Char.toNat, head.generation.value) := by
    rintro ⟨name, ⟨gen⟩⟩ ⟨other, ⟨sel⟩⟩ hsame
    obtain ⟨hname, rfl⟩ := Prod.mk.inj hsame
    have hnames : name = other := map_injective_iff.2 (fun _ _ h => Char.toNat_inj.1 h) hname
    rw [hnames]
  cases left
  cases right
  cases map_injective_iff.2 hhead hcode
  rfl

theorem selectedHead_sorted :
    ([⟨['w'], ⟨101⟩⟩].map NamespaceHead.namespaceName).Pairwise (· < ·) :=
  pairwise_singleton _ _

theorem selectedHead_bounded : [(⟨['w'], ⟨101⟩⟩ : NamespaceHead)].length ≤ maxStateCatalogHeads := by
  decide

def selectedCatalog : StateCatalog := ⟨[⟨['w'], ⟨101⟩⟩], selectedHead_sorted, selectedHead_bounded⟩

def removingTransition : OwnedTransition :=
  ⟨['w'], some ⟨101⟩, none, none, (selectedCatalog.removeHead ['w']).1⟩

theorem recovery_identifies_side_removal :
    validateJournalCatalogTransition listedCodec selectedCatalog
        (commitJournal listedCodec selectedCatalog ⟨0⟩ removingTransition 0) = .ok .previous ∧
      validateJournalCatalogTransition listedCodec removingTransition.nextCatalog
        (commitJournal listedCodec selectedCatalog ⟨0⟩ removingTransition 0) = .ok .next := by
  have hchange : HeadChange listedCodec selectedCatalog removingTransition := by
    refine ⟨rfl, rfl, ?_⟩
    intro hsame
    have hheads : removingTransition.nextCatalog.heads = selectedCatalog.heads := by rw [hsame]
    cases hheads
  obtain ⟨hprevious, hnext, -⟩ := (recovery_identifies_side listedCodec_free).1 selectedCatalog
    removingTransition ⟨0⟩ 0 (by decide) hchange
  exact ⟨hprevious, hnext⟩

end Changes

end Malm.Commit
