/-
Malm.Store.PlanTheorems — generations built from plans.

What a stored generation must satisfy is in part among the checks of `from_prepared`
(`BuiltFrom`) and in part a property of every prepared record (`PlanParts`). So a built
generation passes those checks, and the plan gives it again without its predecessor.
-/
import Malm.Store.Prepared
import Malm.Store.SnapshotTheorems

namespace Malm.Store

open Checks List

/-! ## 1. The parts of a plan -/

/-- What a stored generation asks of the parts copied from a plan. -/
structure PlanParts (prepared : PreparedRecord) : Prop where
  artifactCount : prepared.artifacts.length ≤ maxPreparedArtifacts
  artifacts : (prepared.artifacts.map PreparedArtifact.id).IsChain (· < ·)
  transformCount : prepared.transforms.length ≤ maxTransformProvenance
  transforms : ∀ transform ∈ prepared.transforms, transform.validate = .ok ()
  requests : (prepared.transforms.map TransformProvenance.requestDigest).IsChain (· < ·)
  trackedRoot : ∀ root, prepared.trackedRoot = some root → validateTrackedRoot root = .ok ()

theorem chain_of_insertionSort {α κ : Type} [LinearOrder κ] {key : α → κ} {items : List α}
    (hsorted : items.insertionSort (fun left right => key left ≤ key right) = items)
    (hnodup : (items.map key).Nodup) : (items.map key).IsChain (· < ·) := by
  have hle : items.Pairwise fun left right => key left ≤ key right := by
    rw [← hsorted]
    exact pairwise_insertionSort _ items
  have hlt : (items.map key).Pairwise (· < ·) :=
    ((pairwise_map.2 hle).and hnodup).imp fun h => lt_of_le_of_ne h.1 h.2
  exact hlt.isChain

section Plans

variable {codec : Codec} {planId : PreparedId} {previousGeneration : Option Digest}
  {previous : Option StateGeneration} {prepared : PreparedRecord} {generation : StateGeneration}

theorem planParts_of_decoded (h : validateDecoded codec prepared = .ok ()) :
    PlanParts prepared := by
  unfold validateDecoded at h
  simp only [bind_ok, exists_unit, reject_ok, not_not] at h
  obtain ⟨trackedRoot, -, -, snap, -, built, htry, rebuilt, hwith, -, rfl⟩ := h
  unfold withAuthority at hwith
  simp only [bind_ok, exists_unit, pure_ok, whenSome_ok] at hwith
  obtain ⟨-, -, -, -, -, -, htracked, -, hrebuilt⟩ := hwith
  unfold PreparedRecord.tryFrom at htry
  simp only [bind_ok, exists_unit, pure_ok, forM_ok, checkLimit_ok, rejectDuplicates_ok] at htry
  obtain ⟨-, hartifacts, htransforms, -, -, hvalid, -, hids, hrequests, -, -, bytes, -, -, -, -,
    rfl⟩ := htry
  -- the record that was rebuilt from its parts is the record itself
  have hroot : trackedRoot = rebuilt.trackedRoot := congrArg PreparedRecord.trackedRoot hrebuilt
  have hsortedArtifacts : sortArtifacts rebuilt.artifacts = rebuilt.artifacts :=
    congrArg PreparedRecord.artifacts hrebuilt
  have hsortedTransforms : sortTransforms rebuilt.transforms = rebuilt.transforms :=
    congrArg PreparedRecord.transforms hrebuilt
  exact ⟨hartifacts, chain_of_insertionSort hsortedArtifacts hids, htransforms, hvalid,
    chain_of_insertionSort hsortedTransforms hrequests,
    fun root hsome => htracked root (hroot.trans hsome)⟩

/-! ## 2. Built generations -/

structure BuiltFrom (codec : Codec) (planId : PreparedId) (previousGeneration : Option Digest)
    (previous : Option StateGeneration) (prepared : PreparedRecord)
    (generation : StateGeneration) : Prop where
  generation_eq : generation = generationOf planId previousGeneration prepared
  plan : planId = codec.preparedId prepared
  head : prepared.expectedHead = previousGeneration
  transition : validatePreparedTransition codec previous prepared = .ok ()
  notRemoval : prepared.transition.isNamespaceRemoval = false
  size : codec.generationBytes generation ≤ maxStateRecordBytes

theorem fromPrepared_builtFrom
    (h : fromPrepared codec planId previousGeneration previous prepared = .ok generation) :
    BuiltFrom codec planId previousGeneration previous prepared generation := by
  simp only [fromPrepared, bind_ok, exists_unit, pure_ok, reject_ok, not_not, not_lt] at h
  obtain ⟨hplan, hhead, -, -, -, htrans, hrem, hsize, rfl⟩ := h
  exact ⟨rfl, hplan, hhead, htrans, by simpa using hrem, hsize⟩

section

variable (h : BuiltFrom codec planId previousGeneration previous prepared generation)
include h

theorem BuiltFrom.valid (hparts : PlanParts prepared)
    : validateStateGeneration codec generation = .ok () := by
  have htrans := h.transition
  simp only [validatePreparedTransition, bind_ok, exists_unit, reject_ok,
    when_ok, asState, mapError_ok, not_not] at htrans
  obtain ⟨-, htargets, hpoint, hret, hsel, hsnap, -⟩ := htrans
  rw [h.generation_eq]
  unfold validateStateGeneration generationOf
  simp only [bind_ok, exists_unit, reject_ok, asState, mapError_ok,
    not_not, not_lt, map_map, length_map]
  refine ⟨?_, ?_, hret, hsel (by rw [h.notRemoval]; decide),
    by rw [h.notRemoval]; decide, hparts.artifactCount, hparts.artifacts, hparts.transformCount, ?_,
    hparts.requests, htargets, hsnap⟩
  · rw [whenSome_ok]
    intro root hroot
    rw [mapError_ok]
    exact hparts.trackedRoot root hroot
  · rw [whenSome_ok] at hpoint ⊢
    exact hpoint
  · rw [forM_ok]
    intro transform hmem
    rw [mapError_ok]
    exact hparts.transforms transform hmem

theorem BuiltFrom.retained (hvalid : validateStateGeneration codec generation = .ok ()) :
    fromRetainedPrepared codec planId previousGeneration prepared = .ok generation := by
  have htrans := h.transition
  simp only [validatePreparedTransition, bind_ok, exists_unit, reject_ok, not_not] at htrans
  obtain ⟨-, htargets, -, -, -, hsnap, -⟩ := htrans
  rw [h.generation_eq] at hvalid
  simp only [fromRetainedPrepared, bind_ok, exists_unit, reject_ok, pure_ok, not_not]
  exact ⟨h.plan, h.head, by rw [h.notRemoval]; decide, htargets, hsnap, hvalid,
    h.generation_eq.symm⟩

end

end Plans

end Malm.Store
