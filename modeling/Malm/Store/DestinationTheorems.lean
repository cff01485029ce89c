/-
Malm.Store.DestinationTheorems — the destination scan against all pairs of
operations (`validate.rs`).

`reject_destination_prefixes` compares neighbours in destination order, so a removal
with an absent first child may enclose anything after it. Elsewhere the scan decides
the rule for all pairs (`rejectDestinationPrefixes_iff`).
-/
import Malm.Store.OwnershipTheorems
import Malm.Store.Transition
import Malm.Lib.StableSort

namespace Malm.Store

open StableSort List

/-! ## 1. The rule for two operations -/

namespace PreparedOperation

/-- What `reject_destination_prefixes` sorts by. -/
def position (operation : PreparedOperation) : DeploymentName ×ₗ List Text :=
  toLex (operation.observation.authority, operation.observation.relativePath.segments)

/-- The destination of the inner operation lies below that of the outer. -/
def Encloses (outer inner : PreparedOperation) : Prop :=
  outer.observation.authority = inner.observation.authority ∧
    outer.observation.relativePath.isAncestor inner.observation.relativePath = true

/-- What the shape of a destination lets it enclose. -/
def Permits (outer inner : PreparedOperation) : Prop :=
  match destinationShape outer with
  | .directory => True
  | .removal => absenceShaped inner = true
  | .leaf => False

variable {outer middle inner : PreparedOperation}

theorem encloses_iff :
    Encloses outer inner ↔ outer.observation.authority = inner.observation.authority ∧
      outer.observation.relativePath.segments <+: inner.observation.relativePath.segments ∧
      outer.position ≠ inner.position := by
  have hsame : outer.observation.relativePath = inner.observation.relativePath ↔
      outer.observation.relativePath.segments = inner.observation.relativePath.segments :=
    ⟨fun h => by rw [h], fun h => Segments.splitOn_injective '/' h⟩
  have hpath := @Text.eq_or_isAncestor_iff outer.observation.relativePath
    inner.observation.relativePath
  have hnot : outer.observation.relativePath.isAncestor inner.observation.relativePath = true →
      outer.observation.relativePath ≠ inner.observation.relativePath := by
    intro habove heq
    rw [heq, Text.isAncestor_iff] at habove
    obtain ⟨rest, hrest⟩ := habove
    have := congrArg List.length hrest
    simp at this
  rw [Bool.or_eq_true, decide_eq_true_eq] at hpath
  rw [Encloses, position, position, ne_eq, toLex_inj, Prod.mk.injEq]
  constructor
  · intro h
    refine ⟨h.1, hpath.1 (Or.inr h.2), fun heq => hnot h.2 (hsame.2 heq.2)⟩
  · intro h
    refine ⟨h.1, (hpath.2 h.2.1).resolve_left fun heq => h.2.2 ⟨h.1, hsame.1 heq⟩⟩

theorem Encloses.position_lt (h : Encloses outer inner) : outer.position < inner.position := by
  obtain ⟨hauth, hprefix, hne⟩ := encloses_iff.1 h
  refine lt_of_le_of_ne ?_ hne
  rw [position, position, Prod.Lex.toLex_le_toLex]
  exact Or.inr ⟨hauth, Segments.le_of_isPrefixOf hprefix⟩

theorem Encloses.between (h : Encloses outer inner) (hlow : outer.position < middle.position)
    (hhigh : middle.position ≤ inner.position) : Encloses outer middle := by
  obtain ⟨hauth, hprefix, -⟩ := encloses_iff.1 h
  -- the operations as claims of one namespace
  have hbetween := @OwnershipClaim.below_of_between
    ⟨[], outer.observation.authority, outer.observation.relativePath⟩
    ⟨[], middle.observation.authority, middle.observation.relativePath⟩
    ⟨[], inner.observation.authority, inner.observation.relativePath⟩
    (le_of_lt hlow) hhigh hauth hprefix
  exact encloses_iff.2 ⟨hbetween.1.symm, hbetween.2, ne_of_lt hlow⟩

theorem destinationPairAllowed_iff :
    destinationPairAllowed outer inner = true ↔ (Encloses outer inner → Permits outer inner) := by
  unfold destinationPairAllowed Encloses Permits
  cases destinationShape outer <;> simp [imp_iff_not_or]

end PreparedOperation

open PreparedOperation

/-! ## 2. The scan -/

section Scan

variable {operations : List PreparedOperation} {outer inner : PreparedOperation}

/-- No shared destination, and every destination permits what it encloses. -/
def PairwiseRule (operations : List PreparedOperation) : Prop :=
  operations.Pairwise fun left right => left.position ≠ right.position ∧
    (Encloses left right → Permits left right) ∧ (Encloses right left → Permits right left)

/-- Neighbours in destination order that break the rule. -/
def Caught (operations : List PreparedOperation) (outer inner : PreparedOperation) : Prop :=
  NextTo position operations outer inner ∧ Encloses outer inner ∧ ¬ Permits outer inner

theorem rejectDestinationPrefixes_ok :
    rejectDestinationPrefixes operations = .ok () ↔
      ∀ outer inner, ¬ Caught operations outer inner := by
  have hchain : rejectDestinationPrefixes operations = .ok () ↔
      (sortBy position operations).IsChain fun left right =>
        destinationPairAllowed left right = true := by
    rw [rejectDestinationPrefixes, Checks.reject_ok, not_not]
    rfl
  rw [hchain, isChain_iff_forall_rel_of_append_cons_cons]
  constructor
  · intro h outer inner hcaught
    obtain ⟨hnext, hencloses, hnot⟩ := hcaught
    obtain ⟨-, before, after, hsplit⟩ := nextTo_iff.1 hnext
    exact hnot (destinationPairAllowed_iff.1 (h hsplit) hencloses)
  · intro h outer inner before after hsplit
    rw [destinationPairAllowed_iff]
    intro hencloses
    by_contra hnot
    exact h outer inner ⟨nextTo_iff.2 ⟨hencloses.position_lt, before, after, hsplit⟩, hencloses,
      hnot⟩

theorem pairwiseRule_iff :
    PairwiseRule operations ↔ (operations.map position).Nodup ∧
      ∀ outer ∈ operations, ∀ inner ∈ operations, Encloses outer inner → Permits outer inner := by
  rw [PairwiseRule, List.Nodup, pairwise_map]
  constructor
  · intro h
    refine ⟨h.imp fun hpair => hpair.1, ?_⟩
    intro outer houter inner hinner hencloses
    have hsymm : Std.Symm fun left right : PreparedOperation => left.position ≠ right.position ∧
        (Encloses left right → Permits left right) ∧
        (Encloses right left → Permits right left) :=
      ⟨fun _ _ hpair => ⟨hpair.1.symm, hpair.2.2, hpair.2.1⟩⟩
    have hne : outer ≠ inner := fun heq => absurd hencloses.position_lt (heq ▸ lt_irrefl _)
    exact (h.forall houter hinner hne).2.1 hencloses
  · intro h
    refine h.1.imp_of_mem ?_
    intro left right hleft hright hne
    exact ⟨hne, h.2 left hleft right hright, h.2 right hright left hleft⟩

theorem PairwiseRule.not_caught (h : PairwiseRule operations) :
    ¬ Caught operations outer inner := by
  intro hcaught
  obtain ⟨hnext, hencloses, hnot⟩ := hcaught
  exact hnot ((pairwiseRule_iff.1 h).2 outer hnext.mem_left inner
    hnext.mem_right hencloses)

theorem exists_enclosed_neighbour (hdistinct : (operations.map position).Nodup)
    (houter : outer ∈ operations) (hinner : inner ∈ operations) (hencloses : Encloses outer inner) :
    ∃ next, NextTo position operations outer next ∧ Encloses outer next := by
  have hsorted := @sortBy_sorted _ _ _ position operations
  have hnodup : ((sortBy position operations).map position).Nodup :=
    ((sortBy_perm operations).map position).nodup_iff.2 hdistinct
  rw [List.Nodup, pairwise_map] at hnodup
  rw [← (@sortBy_perm _ _ _ position operations).mem_iff] at houter hinner
  obtain ⟨before, after, hsplit⟩ := append_of_mem houter
  rw [hsplit] at hsorted hnodup hinner
  rw [pairwise_append, pairwise_cons] at hsorted hnodup
  have hlater : inner ∈ after := by
    rcases mem_append.1 hinner with hbefore | hrest
    · have hle := hsorted.2.2 inner hbefore outer mem_cons_self
      exact absurd hencloses.position_lt (not_lt.2 hle)
    · rcases mem_cons.1 hrest with rfl | hrest
      · exact absurd hencloses.position_lt (lt_irrefl _)
      · exact hrest
  cases after with
  | nil => cases hlater
  | cons next rest =>
    have hlow : outer.position < next.position :=
      lt_of_le_of_ne (hsorted.2.1.1 next mem_cons_self)
        (hnodup.2.1.1 next mem_cons_self)
    have hhigh : next.position ≤ inner.position := by
      rcases mem_cons.1 hlater with rfl | hrest
      · exact le_rfl
      · exact (pairwise_cons.1 hsorted.2.1.2).1 inner hrest
    exact ⟨next, nextTo_iff.2 ⟨hlow, before, rest, hsplit⟩, hencloses.between hlow hhigh⟩

/-- When the scan decides the rule, by neighbours or by removals around removals. -/
def ScanDecides (operations : List PreparedOperation) : Prop :=
  ((operations.map position).Nodup ∧
    ∀ outer ∈ operations, ∀ inner ∈ operations, destinationShape outer = .removal →
      Encloses outer inner → absenceShaped inner = true) ∨
  ∃ outer inner, Caught operations outer inner

/-- **The scan against all pairs.** -/
theorem rejectDestinationPrefixes_iff (operations : List PreparedOperation) :
    (rejectDestinationPrefixes operations = .ok () ↔ PairwiseRule operations) ↔
      ScanDecides operations := by
  rw [rejectDestinationPrefixes_ok]
  constructor
  · intro h
    by_cases hcaught : ∃ outer inner, Caught operations outer inner
    · exact Or.inr hcaught
    · have hrule := pairwiseRule_iff.1 (h.1 fun outer inner hpair => hcaught ⟨outer, inner, hpair⟩)
      refine Or.inl ⟨hrule.1, ?_⟩
      intro outer houter inner hinner hshape hencloses
      have := hrule.2 outer houter inner hinner hencloses
      rwa [Permits, hshape] at this
  · intro h
    rcases h with ⟨hdistinct, hremovals⟩ | ⟨outer, inner, hcaught⟩
    · refine ⟨fun hnone => pairwiseRule_iff.2 ⟨hdistinct, ?_⟩, fun hrule _ _ => hrule.not_caught⟩
      intro outer houter inner hinner hencloses
      cases hshape : destinationShape outer with
      | directory => rw [Permits, hshape]; trivial
      | removal =>
        rw [Permits, hshape]
        exact hremovals outer houter inner hinner hshape hencloses
      | leaf =>
        -- a leaf breaks the rule with its neighbour already
        obtain ⟨next, hnext, hnextEncloses⟩ :=
          exists_enclosed_neighbour hdistinct houter hinner hencloses
        refine absurd ⟨hnext, hnextEncloses, ?_⟩ (hnone outer next)
        rw [Permits, hshape]
        exact id
    · exact ⟨fun hnone => absurd hcaught (hnone outer inner),
        fun hrule => absurd hcaught hrule.not_caught⟩

/-- An observation of an absent leaf in the directory `h`. -/
def absentAt (path : Text) : TargetObservation where
  authority := ['h']
  relativePath := path
  traversalAnchor := ⟨1, 1, 0, 0, 0o40755, 1, 0, 0, 0, 0, 0⟩
  ancestors := []
  parent := ⟨1, 2, 0, 0, 0o40755, 1, 0, 0, 0, 0, 0⟩
  leaf := .absent
  missingAncestors := 0

/-- A removed directory, an absent entry in it, and a file placed behind
that. -/
def behindAbsence : List PreparedOperation :=
  [.removeLeaf (absentAt ['a']), .assertAbsent (absentAt ['a', '/', 'b']),
    .placeFile (absentAt ['a', '/', 'c']) ['x'] 0o600 false]

/-- The scan accepts a file below a removal. -/
theorem behindAbsence_accepted :
    ¬ (rejectDestinationPrefixes behindAbsence = .ok () ↔ PairwiseRule behindAbsence) := by
  intro h
  have hrule := (pairwiseRule_iff.1 (h.1 (by decide))).2 (.removeLeaf (absentAt ['a']))
    (by decide) (.placeFile (absentAt ['a', '/', 'c']) ['x'] 0o600 false) (by decide)
    ⟨rfl, by decide⟩
  exact Bool.false_ne_true hrule

end Scan

end Malm.Store
