/-
Malm.Commit.RemovalOrder — the order in which a prune removes generations
(`order_generation_removals` of `retention.rs`).

The counts and leaves of the loop are those of the generations that are left (`Counted`),
so it takes what `orderRemovals` takes.
-/
import Malm.Commit.RetentionTheorems
import Malm.Lib.ReadyOrder

namespace Malm.Commit

open Store Checks List Prod Option SortedMap

variable {child prev : Digest} {fuel : Nat}

/-! ## 1. The loop -/

def previousOf (generations : SortedMap Digest StateGeneration) (digest : Digest) : Option Digest :=
  (generations.get? digest).bind StateGeneration.previousGeneration

def countChild (generations : SortedMap Digest StateGeneration)
    (remainingChildren : SortedMap Digest Nat) (digest : Digest) : SortedMap Digest Nat :=
  match previousOf generations digest with
  | none => remainingChildren
  | some prev =>
    match remainingChildren.get? prev with
    | none => remainingChildren
    | some children => remainingChildren.insert prev (children + 1)

/-- The turn of a leaf after it was taken. -/
def releasePrevious (generations : SortedMap Digest StateGeneration)
    (remainingChildren : SortedMap Digest Nat) (leaves : List Digest) (digest : Digest) :
    Except CommitError (SortedMap Digest Nat × List Digest) :=
  match previousOf generations digest with
  | none => .ok (remainingChildren, leaves)
  | some previous =>
    match remainingChildren.get? previous with
    | none => .ok (remainingChildren, leaves)
    | some 0 =>
      .error (.invalidStore "unreachable generation dependency accounting underflowed")
    | some (children + 1) =>
      .ok (remainingChildren.insert previous children,
        if children = 0 then sortedSet (previous :: leaves) else leaves)

/-- The loop over the leaves; no answer when the fuel runs out. -/
def takeLeaves (generations : SortedMap Digest StateGeneration) :
    Nat → SortedMap Digest Nat → List Digest → List Digest →
      Option (Except CommitError (List Digest))
  | _, _, [], ordered => some (.ok ordered)
  | 0, _, _ :: _, _ => none
  | fuel + 1, remainingChildren, digest :: leaves, ordered =>
    match releasePrevious generations remainingChildren leaves digest with
    | .error error => some (.error error)
    | .ok (remainingChildren, leaves) =>
      takeLeaves generations fuel remainingChildren leaves (ordered ++ [digest])

def orderGenerationRemovalsByCounts (generations : SortedMap Digest StateGeneration)
    (reachable : List Digest) : Option (Except CommitError (List Digest)) :=
  let removed := generations.keys.filter fun digest => digest ∉ reachable
  let noChildren := (generations.filterKeys fun digest => digest ∉ reachable).mapValues fun _ => 0
  let remainingChildren := removed.foldl (countChild generations) noChildren
  let leaves := (remainingChildren.entries.filter fun entry => entry.2 = 0).map Prod.fst
  (takeLeaves generations removed.length remainingChildren leaves []).map fun result => do
    let ordered ← result
    reject (ordered.length ≠ removed.length)
      (.invalidStore "unreachable state generations contain a dependency cycle")
    return ordered

variable {generations : SortedMap Digest StateGeneration}
  {removed left leaves ordered : List Digest} {counts : SortedMap Digest Nat} {digest : Digest}

/-! ## 2. The counts -/

theorem mem_childrenIn :
    child ∈ childrenIn generations left digest ↔
      child ∈ left ∧ previousOf generations child = some digest := by
  rw [childrenIn, mem_filter, decide_eq_true_eq, previousOf]

theorem length_childrenIn_cons (child : Digest) :
    (childrenIn generations (child :: left) digest).length =
      (childrenIn generations left digest).length +
        if previousOf generations child = some digest then 1 else 0 := by
  by_cases heq : previousOf generations child = some digest
  · rw [if_pos heq, childrenIn, filter_cons_of_pos (by simpa [previousOf] using heq)]
    rfl
  · rw [if_neg heq, childrenIn, filter_cons_of_neg (by simpa [previousOf] using heq)]
    rfl

theorem get?_foldl_countChild {base : SortedMap Digest Nat} :
    (left.foldl (countChild generations) base).get? digest =
      (base.get? digest).map (· + (childrenIn generations left digest).length) := by
  induction left generalizing base with
  | nil => simp [childrenIn]
  | cons child rest ih =>
    have hone : (countChild generations base child).get? digest = (base.get? digest).map
        (· + if previousOf generations child = some digest then 1 else 0) := by
      rw [countChild]
      cases hprev : previousOf generations child with
      | none => simp
      | some prev =>
        simp only [some.injEq]
        cases hget : base.get? prev with
        | none =>
          by_cases heq : prev = digest
          · subst heq
            simp [hget]
          · simp [heq]
        | some children =>
          simp only [get?_insert]
          by_cases heq : prev = digest
          · subst heq
            simp [hget]
          · simp [heq, Ne.symm heq]
    rw [foldl_cons, ih, hone, Option.map_map, length_childrenIn_cons]
    congr 1
    funext count
    simp only [Function.comp]
    omega

/-- What the loop knows about the generations that are left. -/
structure Counted (generations : SortedMap Digest StateGeneration) (removed left : List Digest)
    (counts : SortedMap Digest Nat) (leaves : List Digest) : Prop where
  sorted : left.Pairwise (· < ·)
  inside : left ⊆ removed
  counts : ∀ digest, counts.get? digest =
    if digest ∈ removed then some (childrenIn generations left digest).length else none
  taken : ∀ digest ∈ removed, digest ∉ left → childrenIn generations left digest = []
  leaves_sorted : leaves.Pairwise (· < ·)
  mem_leaves : ∀ digest, digest ∈ leaves ↔
    digest ∈ left ∧ childrenIn generations left digest = []

theorem counted_start (reachable : List Digest) :
    let removed := generations.keys.filter fun digest => digest ∉ reachable
    let counts := removed.foldl (countChild generations)
      ((generations.filterKeys fun digest => digest ∉ reachable).mapValues fun _ => 0)
    Counted generations removed removed counts
      ((counts.entries.filter fun e => e.2 = 0).map fst) := by
  intro removed counts
  have hcounts : ∀ digest, counts.get? digest =
      if digest ∈ removed then some (childrenIn generations removed digest).length else none := by
    intro digest
    rw [get?_foldl_countChild, get?_mapValues, get?_filterKeys]
    cases hget : generations.get? digest with
    | none =>
      have hout : digest ∉ removed := fun hmem =>
        get?_eq_none.1 hget (mem_of_mem_filter hmem)
      simp [hout]
    | some gen =>
      have hkey : digest ∈ generations.keys := mem_keys.2 ⟨gen, hget⟩
      by_cases hreach : digest ∈ reachable <;> simp [removed, hreach, hkey]
  refine ⟨generations.sorted.filter _, List.Subset.refl _, hcounts, ?_, ?_, ?_⟩
  · intro digest hmem hout
    exact absurd hmem hout
  · exact counts.sorted.sublist ((filter_sublist).map fst)
  · intro digest
    have hentry : digest ∈ (counts.entries.filter fun e => e.2 = 0).map fst ↔
        counts.get? digest = some 0 := by
      simp [get?_eq_some]
    rw [hentry, hcounts]
    by_cases hmem : digest ∈ removed
    · simp [hmem]
    · simp [hmem]

/-! ## 3. A turn of the loop -/

theorem Counted.leaves_eq (h : Counted generations removed left counts leaves) :
    leaves = left.filter fun digest => (childrenIn generations left digest).isEmpty := by
  refine List.Perm.eq_of_pairwise' h.leaves_sorted (h.sorted.filter _) ?_
  refine (perm_ext_iff_of_nodup (h.leaves_sorted.imp ne_of_lt)
    ((h.sorted.filter _).imp ne_of_lt)).2 fun digest => ?_
  rw [h.mem_leaves, mem_filter, List.isEmpty_iff]

theorem Counted.find?_eq (h : Counted generations removed left counts leaves) :
    left.find? (fun digest => (childrenIn generations left digest).isEmpty) = leaves.head? := by
  rw [h.leaves_eq, head?_filter]

section Step

variable (h : Counted generations removed left counts (digest :: leaves))

include h

theorem Counted.mem_erase {other : Digest} :
    other ∈ left.erase digest ↔ other ≠ digest ∧ other ∈ left := by
  have hnodup : left.Nodup := h.sorted.imp ne_of_lt
  exact hnodup.mem_erase_iff

theorem Counted.length_erase (other : Digest) : (childrenIn generations left other).length =
    (childrenIn generations (left.erase digest) other).length +
      if previousOf generations digest = some other then 1 else 0 := by
  have hmem := ((h.mem_leaves digest).1 mem_cons_self).1
  rw [← length_childrenIn_cons]
  exact ((perm_cons_erase hmem).filter _).length_eq

theorem Counted.taken_erase : ∀ other ∈ removed, other ∉ left.erase digest →
    childrenIn generations (left.erase digest) other = [] := by
  intro other hother hout
  have hzero : childrenIn generations left other = [] := by
    by_cases heq : other = digest
    · rw [heq, ((h.mem_leaves digest).1 mem_cons_self).2]
    · exact h.taken other hother fun hin => hout (h.mem_erase.2 ⟨heq, hin⟩)
  have hcount := h.length_erase other
  rw [hzero, length_nil] at hcount
  exact eq_nil_of_length_eq_zero (by omega)

theorem Counted.mem_rest (other : Digest) : other ∈ leaves ↔
    other ∈ left.erase digest ∧ childrenIn generations left other = [] := by
  obtain ⟨hfirst, -⟩ := pairwise_cons.1 h.leaves_sorted
  rw [h.mem_erase]
  constructor
  · intro hother
    obtain ⟨hin, hempty⟩ := (h.mem_leaves other).1 (mem_cons_of_mem digest hother)
    exact ⟨⟨(hfirst other hother).ne', hin⟩, hempty⟩
  · rintro ⟨⟨hne, hin⟩, hempty⟩
    exact (mem_cons.1 ((h.mem_leaves other).2 ⟨hin, hempty⟩)).resolve_left hne

/-- The parts that do not depend on the counts. -/
theorem Counted.erase {counts' : SortedMap Digest Nat} {leaves' : List Digest}
    (hcounts : ∀ other, counts'.get? other = if other ∈ removed
      then some (childrenIn generations (left.erase digest) other).length else none)
    (hsorted : leaves'.Pairwise (· < ·)) (hmem : ∀ other, other ∈ leaves' ↔
      other ∈ left.erase digest ∧ childrenIn generations (left.erase digest) other = []) :
    Counted generations removed (left.erase digest) counts' leaves' :=
  ⟨h.sorted.sublist erase_sublist, List.Subset.trans erase_subset h.inside, hcounts,
    h.taken_erase, hsorted, hmem⟩

/-- Without a predecessor among the removed ones no count changes. -/
theorem Counted.erase_free (hfree : ∀ other ∈ removed, previousOf generations digest ≠ some other) :
    Counted generations removed (left.erase digest) counts leaves := by
  have hsame : ∀ other ∈ removed, (childrenIn generations left other).length =
      (childrenIn generations (left.erase digest) other).length := by
    intro other hother
    rw [h.length_erase, if_neg (hfree other hother), Nat.add_zero]
  refine h.erase ?_ (pairwise_cons.1 h.leaves_sorted).2 ?_
  · intro other
    rw [h.counts]
    split
    · rename_i hother
      rw [hsame other hother]
    · rfl
  · intro other
    rw [h.mem_rest]
    refine and_congr_right fun hin => ?_
    rw [← length_eq_zero_iff, hsame other (h.inside (erase_subset hin)), length_eq_zero_iff]

/-- A generation with a child among those that are left is left itself. -/
theorem Counted.previous_left (hprev : previousOf generations digest = some prev)
    (hin : prev ∈ removed) :
    prev ∈ left.erase digest := by
  obtain ⟨hmem, hnone⟩ := (h.mem_leaves digest).1 mem_cons_self
  have hchild : digest ∈ childrenIn generations left prev := mem_childrenIn.2 ⟨hmem, hprev⟩
  refine h.mem_erase.2 ⟨?_, ?_⟩
  · rintro rfl
    rw [hnone] at hchild
    cases hchild
  · by_contra hout
    rw [h.taken prev hin hout] at hchild
    cases hchild

/-- The count of a predecessor that is removed goes down, to nothing after its last child. -/
theorem Counted.erase_child (hprev : previousOf generations digest = some prev)
    (hin : prev ∈ removed) :
    let children := (childrenIn generations (left.erase digest) prev).length
    Counted generations removed (left.erase digest) (counts.insert prev children)
      (if children = 0 then sortedSet (prev :: leaves) else leaves) := by
  intro children
  have hother : ∀ other, other ≠ prev → (childrenIn generations left other).length =
      (childrenIn generations (left.erase digest) other).length := by
    intro other hne
    rw [h.length_erase, hprev, if_neg (by simpa using hne.symm), Nat.add_zero]
  refine h.erase ?_ ?_ ?_
  · intro other
    rw [get?_insert, h.counts]
    by_cases heq : other = prev
    · rw [if_pos heq, heq, if_pos hin]
    · rw [if_neg heq, hother other heq]
  · split
    · exact Digraph.sorted_sortedSet _
    · exact (pairwise_cons.1 h.leaves_sorted).2
  · intro other
    rw [← length_eq_zero_iff]
    by_cases heq : other = prev
    · subst heq
      have hout : other ∉ leaves := by
        rw [h.mem_rest, ← length_eq_zero_iff, h.length_erase, if_pos hprev]
        simp
      by_cases hzero : (childrenIn generations (left.erase digest) other).length = 0
      · simp [children, hzero, h.previous_left hprev hin]
      · simp [children, hzero, hout]
    · have hleaf := h.mem_rest other
      rw [← length_eq_zero_iff, hother other heq] at hleaf
      rw [← hleaf]
      split
      · simp [heq]
      · rfl

theorem Counted.step :
    ∃ counts' leaves', releasePrevious generations counts leaves digest = .ok (counts', leaves') ∧
      Counted generations removed (left.erase digest) counts' leaves' := by
  cases hprev : previousOf generations digest with
  | none =>
    refine ⟨counts, leaves, ?_, h.erase_free (by simp [hprev])⟩
    rw [releasePrevious, hprev]
  | some prev =>
    by_cases hin : prev ∈ removed
    · have hone := h.length_erase prev
      rw [if_pos hprev] at hone
      refine ⟨_, _, ?_, h.erase_child hprev hin⟩
      rw [releasePrevious, hprev]
      simp only [h.counts, if_pos hin, hone]
    · refine ⟨counts, leaves, ?_, h.erase_free ?_⟩
      · rw [releasePrevious, hprev]
        simp only [h.counts, if_neg hin]
      · rintro other hother heq
        rw [hprev, some.injEq] at heq
        exact hin (heq ▸ hother)

end Step

theorem takeLeaves_eq (h : Counted generations removed left counts leaves)
    (hfuel : left.length ≤ fuel) :
    takeLeaves generations fuel counts leaves ordered =
      some (.ok (ordered ++ orderRemovals generations fuel left)) := by
  induction fuel generalizing left counts leaves ordered with
  | zero =>
    have hleft : left = [] := eq_nil_of_length_eq_zero (by omega)
    have hleaves : leaves = [] := by rw [h.leaves_eq, hleft, filter_nil]
    rw [hleaves, takeLeaves, orderRemovals, append_nil]
  | succ fuel ih =>
    have hfind := h.find?_eq
    rw [orderRemovals]
    cases leaves with
    | nil =>
      rw [hfind, head?_nil, takeLeaves, append_nil]
    | cons digest leaves =>
      obtain ⟨counts', leaves', hrelease, hnext⟩ := h.step
      have hmem := ((h.mem_leaves digest).1 mem_cons_self).1
      have hshort : (left.erase digest).length ≤ fuel := by
        rw [length_erase_of_mem hmem]
        omega
      rw [hfind, head?_cons, takeLeaves, hrelease]
      simp only
      rw [ih hnext hshort, append_assoc]
      rfl

/-- **The loop with its counts takes the least generation without a child.** -/
theorem orderGenerationRemovalsByCounts_eq (reachable : List Digest) :
    orderGenerationRemovalsByCounts generations reachable =
      some (orderGenerationRemovals generations reachable) := by
  unfold orderGenerationRemovalsByCounts orderGenerationRemovals
  simp only
  rw [takeLeaves_eq (counted_start reachable) le_rfl]
  rfl

/-! ## 4. The order -/

/-- A removed generation and its predecessor, when that one is removed too. -/
def Link (generations : SortedMap Digest StateGeneration) (removed : List Digest)
    (digest previous : Digest) : Prop :=
  digest ∈ removed ∧ previous ∈ removed ∧ previousOf generations digest = some previous

theorem exists_transGen_self {κ : Type} {r : κ → κ → Prop} {nodes : List κ} (hne : nodes ≠ [])
    (hback : ∀ node ∈ nodes, ∃ before ∈ nodes, r before node) :
    ∃ node, Relation.TransGen r node node := by
  by_contra hacyclic
  let below : {node // node ∈ nodes} → {node // node ∈ nodes} → Prop :=
    fun first snd => Relation.TransGen r first snd
  have htrans : IsTrans _ below := ⟨fun _ _ _ => Relation.TransGen.trans⟩
  have hirrefl : Std.Irrefl below := ⟨fun node hself => hacyclic ⟨node, hself⟩⟩
  have hfinite : Finite {node // node ∈ nodes} := nodes.finite_toSet
  have hfounded : WellFounded below := Finite.wellFounded_of_trans_of_irrefl below
  obtain ⟨first, hfirst⟩ := exists_mem_of_ne_nil nodes hne
  obtain ⟨least, -, hleast⟩ := hfounded.has_min Set.univ ⟨⟨first, hfirst⟩, trivial⟩
  obtain ⟨before, hbefore, hstep⟩ := hback least least.2
  exact hleast ⟨before, hbefore⟩ trivial (.single hstep)

theorem orderRemovals_before {before after : List Digest} {prev : Digest}
    (hsplit : orderRemovals generations fuel left = before ++ prev :: after)
    (hmem : digest ∈ left) (hprev : previousOf generations digest = some prev) :
    digest ∈ before := by
  induction fuel generalizing left before with
  | zero =>
    rw [orderRemovals] at hsplit
    simp at hsplit
  | succ fuel ih =>
    rw [orderRemovals] at hsplit
    cases hfind : left.find? fun digest => (childrenIn generations left digest).isEmpty with
    | none =>
      rw [hfind] at hsplit
      simp at hsplit
    | some first =>
      rw [hfind] at hsplit
      simp only at hsplit
      cases before with
      | nil =>
        obtain ⟨rfl, -⟩ := cons.inj hsplit
        have hempty := isEmpty_iff.1 (by simpa using find?_some hfind)
        have hchild := mem_childrenIn.2 ⟨hmem, hprev⟩
        rw [hempty] at hchild
        cases hchild
      | cons head before =>
        obtain ⟨rfl, htail⟩ := cons.inj hsplit
        by_cases heq : digest = first
        · exact heq ▸ mem_cons_self
        · exact mem_cons_of_mem first (ih htail ((mem_erase_of_ne heq).2 hmem))

theorem orderRemovals_complete (hinside : left ⊆ removed)
    (hacyclic : ¬∃ digest, Relation.TransGen (Link generations removed) digest digest)
    (hfuel : left.length ≤ fuel) :
    (orderRemovals generations fuel left).Perm left := by
  induction fuel generalizing left with
  | zero => rw [eq_nil_of_length_eq_zero (Nat.le_zero.1 hfuel), orderRemovals]
  | succ fuel ih =>
    rw [orderRemovals]
    cases hfind : left.find? fun digest => (childrenIn generations left digest).isEmpty with
    | none =>
      by_cases hnil : left = []
      · rw [hnil]
      · refine absurd (exists_transGen_self hnil fun digest hmem => ?_) hacyclic
        have hsome := find?_eq_none.1 hfind digest hmem
        obtain ⟨child, hchild⟩ := exists_mem_of_ne_nil _ (by simpa using hsome)
        obtain ⟨hleft, hprev⟩ := mem_childrenIn.1 hchild
        exact ⟨child, hleft, hinside hleft, hinside hmem, hprev⟩
    | some first =>
      have hmem := mem_of_find?_eq_some hfind
      have hshort : (left.erase first).length ≤ fuel := by
        rw [length_erase_of_mem hmem]
        omega
      exact ((ih (List.Subset.trans erase_subset hinside) hshort).cons first).trans
        (perm_cons_erase hmem).symm

/-- Every removed generation stands before its predecessor. -/
def PredecessorsLater (generations : SortedMap Digest StateGeneration)
    (removed ordered : List Digest) : Prop :=
  ∀ before prev after, ordered = before ++ prev :: after →
    ∀ digest ∈ removed, previousOf generations digest = some prev → digest ∈ before

theorem PredecessorsLater.acyclic (h : PredecessorsLater generations removed ordered)
    (hperm : ordered.Perm removed) :
    ¬∃ digest, Relation.TransGen (Link generations removed) digest digest := by
  have hless : ∀ digest prev, Link generations removed digest prev →
      ordered.idxOf digest < ordered.idxOf prev := by
    rintro digest prev ⟨hdigest, hin, hprev⟩
    obtain ⟨before, after, hsplit, hfresh⟩ := eq_append_cons_of_mem (hperm.mem_iff.2 hin)
    have hmem := h before prev after hsplit digest hdigest hprev
    rw [hsplit, idxOf_append_of_mem hmem, idxOf_append_of_notMem hfresh]
    exact Nat.lt_add_right _ (idxOf_lt_length_of_mem hmem)
  rintro ⟨digest, hcycle⟩
  have hself : Relation.TransGen (· < ·) (ordered.idxOf digest) (ordered.idxOf digest) :=
    hcycle.lift ordered.idxOf hless
  rw [Relation.transGen_eq_self] at hself
  exact lt_irrefl _ hself

/-- **A prune removes every generation before its predecessor**, unless the links of
the removed generations have a cycle. -/
theorem order_generation_removals_exact (generations : SortedMap Digest StateGeneration)
    (reachable : List Digest) :
    let removed := generations.keys.filter fun digest => digest ∉ reachable
    (∃ ordered, orderGenerationRemovalsByCounts generations reachable = some (.ok ordered) ∧
      ordered.Perm removed ∧ PredecessorsLater generations removed ordered ∧
      ¬∃ digest, Relation.TransGen (Link generations removed) digest digest) ∨
    orderGenerationRemovalsByCounts generations reachable = some (.error
        (.invalidStore "unreachable state generations contain a dependency cycle")) ∧
      ∃ digest, Relation.TransGen (Link generations removed) digest digest := by
  intro removed
  have hlater : PredecessorsLater generations removed
      (orderRemovals generations removed.length removed) :=
    fun _ _ _ hsplit _ hmem hprev => orderRemovals_before hsplit hmem hprev
  rw [orderGenerationRemovalsByCounts_eq]
  by_cases hcycle : ∃ digest, Relation.TransGen (Link generations removed) digest digest
  · refine Or.inr ⟨?_, hcycle⟩
    have hlen : (orderRemovals generations removed.length removed).length ≠ removed.length := by
      intro heq
      exact hlater.acyclic ((orderRemovals_subperm _ _).perm_of_length_le heq.ge) hcycle
    unfold orderGenerationRemovals
    simp only
    rw [reject, if_pos hlen]
    rfl
  · have hperm := orderRemovals_complete (List.Subset.refl removed) hcycle le_rfl
    refine Or.inl ⟨_, ?_, hperm, hlater, hcycle⟩
    unfold orderGenerationRemovals
    simp only
    rw [reject, if_neg (not_not.2 hperm.length_eq)]
    rfl

end Malm.Commit
