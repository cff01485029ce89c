/-
Malm.Store.State — state generations and the state catalog (`state.rs`),
with the identities and sizes that serde and SHA-256 give to records.

A `StateCatalog` carries that its heads are strictly sorted and within the head limit,
which every constructor checks. The encoded-size limit depends on the codec and stays
a check.
-/
import Malm.Lib.Keyed
import Malm.Store.Validate

namespace Malm.Store

open Checks List

/-! ## 1. The catalog -/

structure StateCatalog where
  heads : List NamespaceHead
  sorted : (heads.map NamespaceHead.namespaceName).Pairwise (· < ·)
  bounded : heads.length ≤ maxStateCatalogHeads
deriving DecidableEq

namespace StateCatalog

/-- `StateCatalogV1::new(Vec::new())`. -/
def empty : StateCatalog := ⟨[], List.Pairwise.nil, Nat.zero_le _⟩

def generation (catalog : StateCatalog) (namespaceName : NamespaceName) : Option Digest :=
  (catalog.heads.find? (·.namespaceName = namespaceName)).map NamespaceHead.generation

/-- Replace the found head, or insert at the binary-search position. -/
def upsert (namespaceName : NamespaceName) (generation : Digest) :
    List NamespaceHead → List NamespaceHead
  | [] => [⟨namespaceName, generation⟩]
  | head :: rest =>
    if namespaceName < head.namespaceName then
      ⟨namespaceName, generation⟩ :: head :: rest
    else if head.namespaceName = namespaceName then
      ⟨namespaceName, generation⟩ :: rest
    else
      head :: upsert namespaceName generation rest

variable {namespaceName : NamespaceName} {generation : Digest} {head : NamespaceHead}

theorem mem_upsert :
    ∀ {heads : List NamespaceHead}, head ∈ upsert namespaceName generation heads →
      head = ⟨namespaceName, generation⟩ ∨ head ∈ heads
  | [], h => by simpa [upsert] using h
  | first :: rest, h => by
    unfold upsert at h
    split at h
    · simpa using h
    · split at h
      · rcases mem_cons.1 h with h | h
        · exact .inl h
        · exact .inr (mem_cons_of_mem _ h)
      · rcases mem_cons.1 h with rfl | h
        · exact .inr mem_cons_self
        · rcases mem_upsert h with h | h
          · exact .inl h
          · exact .inr (mem_cons_of_mem _ h)

theorem upsert_sorted :
    ∀ {heads : List NamespaceHead},
      (heads.map NamespaceHead.namespaceName).Pairwise (· < ·) →
      ((upsert namespaceName generation heads).map NamespaceHead.namespaceName).Pairwise (· < ·)
  | [], _ => by simp [upsert]
  | first :: rest, h => by
    have hfirst : ∀ head ∈ rest, first.namespaceName < head.namespaceName := by
      intro head hhead
      rw [map_cons, pairwise_cons] at h
      exact h.1 _ (mem_map_of_mem hhead)
    have hrest := (pairwise_cons.1 (map_cons ▸ h)).2
    unfold upsert
    split
    · rename_i hlt
      rw [map_cons, pairwise_cons]
      refine ⟨?_, h⟩
      intro name hname
      obtain ⟨head, hhead, rfl⟩ := mem_map.1 hname
      rcases mem_cons.1 hhead with rfl | hhead
      · exact hlt
      · exact lt_trans hlt (hfirst head hhead)
    · rename_i hnot
      split
      · rename_i heq
        rw [map_cons, pairwise_cons]
        refine ⟨?_, hrest⟩
        intro name hname
        obtain ⟨head, hhead, rfl⟩ := mem_map.1 hname
        exact heq ▸ hfirst head hhead
      · rename_i hne
        rw [map_cons, pairwise_cons]
        refine ⟨?_, upsert_sorted hrest⟩
        intro name hname
        obtain ⟨head, hhead, rfl⟩ := mem_map.1 hname
        rcases mem_upsert hhead with rfl | hhead
        · exact lt_of_le_of_ne (not_lt.1 hnot) hne
        · exact hfirst head hhead

theorem self_mem_upsert :
    ∀ heads : List NamespaceHead,
      ⟨namespaceName, generation⟩ ∈ upsert namespaceName generation heads
  | [] => mem_cons_self
  | first :: rest => by
    unfold upsert
    split
    · exact mem_cons_self
    · split
      · exact mem_cons_self
      · exact mem_cons_of_mem _ (self_mem_upsert rest)

theorem mem_upsert_of_ne (hne : head.namespaceName ≠ namespaceName) :
    ∀ {heads : List NamespaceHead}, head ∈ heads → head ∈ upsert namespaceName generation heads
  | first :: rest, h => by
    unfold upsert
    split
    · exact mem_cons_of_mem _ h
    · split
      · rename_i hname
        rcases mem_cons.1 h with rfl | h
        · exact absurd hname hne
        · exact mem_cons_of_mem _ h
      · rcases mem_cons.1 h with rfl | h
        · exact mem_cons_self
        · exact mem_cons_of_mem _ (mem_upsert_of_ne hne h)

theorem head_unique {heads : List NamespaceHead} {left right : NamespaceHead}
    (hsorted : (heads.map NamespaceHead.namespaceName).Pairwise (· < ·))
    (hleft : left ∈ heads) (hright : right ∈ heads)
    (hname : left.namespaceName = right.namespaceName) : left = right :=
  inj_on_of_nodup_map (hsorted.imp fun h => ne_of_lt h) hleft hright hname

theorem generation_eq_some {catalog : StateCatalog} {d : Digest} :
    catalog.generation namespaceName = some d ↔ ⟨namespaceName, d⟩ ∈ catalog.heads := by
  have hnodup : (catalog.heads.map NamespaceHead.namespaceName).Nodup :=
    catalog.sorted.imp fun h => ne_of_lt h
  unfold generation
  rw [Option.map_eq_some_iff]
  constructor
  · intro h
    obtain ⟨head, hfind, rfl⟩ := h
    obtain ⟨hmem, rfl⟩ := (Keyed.find?_eq_some hnodup).1 hfind
    exact hmem
  · intro hmem
    exact ⟨_, (Keyed.find?_eq_some hnodup).2 ⟨hmem, rfl⟩, rfl⟩

theorem mem_upsert_of_sorted {heads : List NamespaceHead}
    (hsorted : (heads.map NamespaceHead.namespaceName).Pairwise (· < ·))
    (h : head ∈ upsert namespaceName generation heads) :
    head = ⟨namespaceName, generation⟩ ∨ head ∈ heads ∧ head.namespaceName ≠ namespaceName := by
  by_cases hname : head.namespaceName = namespaceName
  · exact .inl (head_unique (upsert_sorted hsorted) h (self_mem_upsert heads) hname)
  · rcases mem_upsert h with rfl | hmem
    · exact .inl rfl
    · exact .inr ⟨hmem, hname⟩

def removeHead (catalog : StateCatalog) (namespaceName : NamespaceName) :
    StateCatalog × Option Digest :=
  (⟨catalog.heads.filter (·.namespaceName ≠ namespaceName),
    catalog.sorted.sublist ((List.filter_sublist (p := _)).map _),
    (List.length_filter_le _ _).trans catalog.bounded⟩,
    catalog.generation namespaceName)

end StateCatalog

/-- `StateCatalogError`, as far as `update_head` raises it. -/
inductive StateCatalogError where
  | tooLarge (limit actual : Nat)
  | tooManyHeads (limit actual : Nat)
deriving DecidableEq, Repr

/-! ## 2. Identities and sizes -/

/-- Canonical JSON and SHA-256 of the records; nothing is assumed about them here. -/
structure Codec where
  /-- `state_generation_digest_v1`. -/
  generationDigest : StateGeneration → Digest
  /-- `encode_state_generation_v1(generation).len()`. -/
  generationBytes : StateGeneration → Nat
  /-- `prepared_id_v1`. -/
  preparedId : PreparedRecord → PreparedId
  /-- `encode_prepared_record_v1(record).len()`. -/
  preparedBytes : PreparedRecord → Nat
  /-- `desired_snapshot_digest_v1`. -/
  desiredSnapshotDigest : NamespaceName → DesiredSnapshot → Digest
  /-- `state_catalog_digest_v1`. -/
  catalogDigest : StateCatalog → Digest
  /-- `encode_state_catalog_v1(catalog).len()`. -/
  catalogBytes : StateCatalog → Nat

def StateCatalog.updateHead (codec : Codec) (catalog : StateCatalog)
    (namespaceName : NamespaceName) (generation : Digest) :
    Except StateCatalogError StateCatalog :=
  let heads := upsert namespaceName generation catalog.heads
  if bounded : heads.length ≤ maxStateCatalogHeads then
    let next : StateCatalog := ⟨heads, upsert_sorted catalog.sorted, bounded⟩
    if maxStateCatalogBytes < codec.catalogBytes next then
      .error (.tooLarge maxStateCatalogBytes (codec.catalogBytes next))
    else
      .ok next
  else
    .error (.tooManyHeads maxStateCatalogHeads heads.length)

/-! ## 3. Generations -/

def validateStateGeneration (codec : Codec) (generation : StateGeneration) :
    Except StateRecordError Unit := do
  whenSome generation.trackedRoot fun trackedRoot =>
    asState (validateTrackedRoot trackedRoot)
  whenSome generation.restorePoint fun point =>
    asState (validateRestorePoint point (some generation.namespaceName))
  asState (validateRetentionAuthority generation.retention (some generation.namespaceName))
  asState (validateSelectedRestoreAuthority generation.lifecycle generation.restorePoint
    generation.retention)
  reject (generation.transition.isNamespaceRemoval = true)
    (.invalidState "namespace-removal transition cannot be stored as a generation")
  reject (maxPreparedArtifacts < generation.artifacts.length)
    (.invalidState "artifact ownership exceeds its count limit")
  reject (¬ (generation.artifacts.map StateArtifact.id).IsChain (· < ·))
    (.invalidState "artifact ownership must be strictly ordered by identifier")
  reject (maxTransformProvenance < generation.transforms.length)
    (.invalidState "transform provenance exceeds its count limit")
  generation.transforms.forM fun transform => asState transform.validate
  reject
    (¬ (generation.transforms.map TransformProvenance.requestDigest).IsChain (· < ·))
    (.invalidState "transform provenance must be strictly ordered by request digest")
  validateStateTargets generation.desiredSnapshot.targets
  reject
    (codec.desiredSnapshotDigest generation.namespaceName generation.desiredSnapshot ≠
      generation.desiredSnapshotDigest)
    (.invalidState "desired-snapshot digest differs from the complete desired snapshot")

end Malm.Store
