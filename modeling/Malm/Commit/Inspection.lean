/-
Malm.Commit.Inspection — the read-only views of a store that the engine
uses (`inspect_state_v1`, `inspect_generation_v1`, `inspect_lineage_v1`).

Every view starts from a validated catalog or a validated record; an error
of any reader is an error of the view.
-/
import Malm.Commit.Publication

namespace Malm.Commit

open Store Checks

section Inspection

variable (codec : ObjectCodec)

def inspectHead (state : StoreState) (namespaceName : NamespaceName) :
    Except CommitError (Option Digest) := do
  let catalog ← readCatalog codec state
  return catalog.generation namespaceName

def inspectGeneration (store : ObjectStore) (digest : Digest) :
    Except CommitError StateGeneration := do
  let generation ← loadGeneration codec store digest
  validateGenerationTransition codec store generation
  return generation

/-- The loop of `inspect_lineage_v1`: at most `limit` records, newest first. -/
def inspectChain (store : ObjectStore) : Nat → Option Digest →
    Except CommitError (List (Digest × StateGeneration))
  | 0, _ => .ok []
  | _ + 1, none => .ok []
  | limit + 1, some digest => do
    let generation ← inspectGeneration codec store digest
    let rest ← inspectChain store limit generation.previousGeneration
    return (digest, generation) :: rest

def inspectLineage (state : StoreState) (namespaceName : NamespaceName) (limit : Nat) :
    Except CommitError (List (Digest × StateGeneration)) := do
  let catalog ← readCatalog codec state
  inspectChain codec state.objects limit (catalog.generation namespaceName)

end Inspection

variable {codec : ObjectCodec}

theorem readCatalog_ok {s : StoreState} {catalog : StateCatalog}
    (h : readCatalog codec s = .ok catalog) : catalog = s.catalog := by
  unfold readCatalog at h
  simp only [bind_ok, exists_unit, pure_ok] at h
  exact h.2.symm

theorem inspectGeneration_ok {store : ObjectStore} {d : Digest}
    {generation : StateGeneration} (h : inspectGeneration codec store d = .ok generation) :
    loadGeneration codec store d = .ok generation := by
  unfold inspectGeneration at h
  simp only [bind_ok, exists_unit, pure_ok] at h
  obtain ⟨loaded, hloaded, -, rfl⟩ := h
  exact hloaded

theorem inspectLineage_head {s : StoreState} {ns : NamespaceName} {limit : Nat}
    {d : Digest} {generation : StateGeneration} {rest : List (Digest × StateGeneration)}
    (h : inspectLineage codec s ns limit = .ok ((d, generation) :: rest)) :
    s.catalog.generation ns = some d ∧
      loadGeneration codec s.objects d = .ok generation := by
  unfold inspectLineage at h
  rw [bind_ok] at h
  obtain ⟨catalog, hcatalog, hchain⟩ := h
  obtain rfl := readCatalog_ok hcatalog
  cases hhead : s.catalog.generation ns with
  | none =>
    rw [hhead] at hchain
    cases limit <;> simp [inspectChain] at hchain
  | some head =>
    rw [hhead] at hchain
    cases limit with
    | zero => simp [inspectChain] at hchain
    | succ limit =>
      rw [inspectChain] at hchain
      simp only [bind_ok, pure_ok] at hchain
      obtain ⟨loaded, hloaded, tail, -, hcons⟩ := hchain
      obtain ⟨hpair, rfl⟩ := List.cons.inj hcons
      obtain ⟨rfl, rfl⟩ := Prod.mk.injEq .. ▸ hpair
      exact ⟨rfl, inspectGeneration_ok hloaded⟩

end Malm.Commit
