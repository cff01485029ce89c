/-
Malm.Lib.Topological — the topological sort that counts incoming edges.

A target that is listed twice counts as two edges. The loop takes a node with no
incoming edge left, counts it, and takes its own edges away. It visits nodes behind
all of their predecessors (`visit_progress`); every other node has a predecessor
that was not visited either (`Progress.preceded`).
-/
import Malm.Lib.SortedMap

namespace Topological

open List SortedMap

variable {κ : Type} [LinearOrder κ]

/-! ## 1. The loop -/

/-- An edge into `target` is taken away; without any left, the target is ready. -/
def release (state : List κ × SortedMap κ Nat) (target : κ) : List κ × SortedMap κ Nat :=
  let count := (state.2.get? target).getD 0 - 1
  (if count = 0 then state.1 ++ [target] else state.1, state.2.insert target count)

/-- The loop over the queue: how many were visited, and the edges that are left. -/
def visit (targets : κ → List κ) :
    Nat → List κ → SortedMap κ Nat → Nat → Nat × SortedMap κ Nat
  | 0, _, incoming, visited => (visited, incoming)
  | _ + 1, [], incoming, visited => (visited, incoming)
  | fuel + 1, node :: ready, incoming, visited =>
    let next := (targets node).foldl release (ready, incoming)
    visit targets fuel next.1 next.2 (visited + 1)

/-! ## 2. The edges that are left -/

section Waiting

variable (targets : κ → List κ) (nodes : Finset κ)

def waiting (done : Finset κ) (node : κ) : Nat :=
  (nodes \ done).sum fun before => (targets before).count node

variable {targets nodes} {done : Finset κ} {node before : κ}

theorem waiting_empty :
    waiting targets nodes ∅ node = nodes.sum fun before => (targets before).count node := by
  rw [waiting, Finset.sdiff_empty]

theorem waiting_insert (hmem : before ∈ nodes) (hdone : before ∉ done) :
    waiting targets nodes (insert before done) node + (targets before).count node =
      waiting targets nodes done node := by
  have hleft : before ∈ nodes \ done := Finset.mem_sdiff.2 ⟨hmem, hdone⟩
  have herase : nodes \ insert before done = (nodes \ done).erase before := by
    ext other
    simp only [Finset.mem_sdiff, Finset.mem_insert, Finset.mem_erase]
    tauto
  rw [waiting, waiting, herase]
  exact Finset.sum_erase_add _ _ hleft

theorem waiting_eq_zero :
    waiting targets nodes done node = 0 ↔
      ∀ before ∈ nodes, node ∈ targets before → before ∈ done := by
  rw [waiting, Finset.sum_eq_zero_iff]
  simp only [Finset.mem_sdiff, count_eq_zero, and_imp]
  constructor
  · intro h before hmem htarget
    by_contra hdone
    exact h before hmem hdone htarget
  · intro h before hmem hdone htarget
    exact hdone (h before hmem htarget)

end Waiting

/-! ## 3. One visit -/

section Release

variable {nodes : Finset κ} (rest : κ → Nat)

/-- Releasing the edges of a node counts each of them off, and readies those with none left. -/
theorem foldl_release : ∀ {edges ready : List κ} {incoming : SortedMap κ Nat},
    (∀ target ∈ edges, target ∈ nodes) → (∀ node, node ∈ incoming.keys ↔ node ∈ nodes) →
      (∀ node ∈ nodes, (incoming.get? node).getD 0 = rest node + edges.count node) →
      (∀ node ∈ ready, rest node + edges.count node = 0) → ready.Nodup →
      (∀ node, node ∈ (edges.foldl release (ready, incoming)).2.keys ↔ node ∈ nodes) ∧
      (∀ node ∈ nodes,
        ((edges.foldl release (ready, incoming)).2.get? node).getD 0 = rest node) ∧
      (∀ node, node ∈ (edges.foldl release (ready, incoming)).1 ↔
        node ∈ ready ∨ node ∈ edges ∧ rest node = 0) ∧
      (edges.foldl release (ready, incoming)).1.Nodup
  | [], ready, incoming, _, hkeys, hcounts, _, hnodup => by
    refine ⟨hkeys, ?_, ?_, hnodup⟩
    · simpa using hcounts
    · simp
  | target :: edges, ready, incoming, hinside, hkeys, hcounts, hready, hnodup => by
    obtain ⟨htarget, hinside⟩ := forall_mem_cons.1 hinside
    have hcount : (incoming.get? target).getD 0 - 1 = rest target + edges.count target := by
      rw [hcounts target htarget, count_cons_self]
      omega
    have hfresh : target ∉ ready := by
      intro hmem
      have hzero := hready target hmem
      rw [count_cons_self] at hzero
      omega
    rw [foldl_cons, release, hcount]
    have hkeys' : ∀ node,
        node ∈ (incoming.insert target (rest target + edges.count target)).keys ↔
          node ∈ nodes := by
      intro node
      rw [mem_keys_insert, hkeys]
      constructor
      · rintro (rfl | hmem)
        · exact htarget
        · exact hmem
      · exact .inr
    have hcounts' : ∀ node ∈ nodes,
        ((incoming.insert target (rest target + edges.count target)).get? node).getD 0 =
          rest node + edges.count node := by
      intro node hnode
      rw [get?_insert]
      by_cases heq : node = target
      · rw [if_pos heq, heq, Option.getD_some]
      · rw [if_neg heq, hcounts node hnode, count_cons_of_ne (Ne.symm heq)]
    have hkeep : ∀ node ∈ ready, rest node + edges.count node = 0 := by
      intro node hmem
      have hne : target ≠ node := fun heq => hfresh (heq ▸ hmem)
      rw [← count_cons_of_ne hne]
      exact hready node hmem
    by_cases hzero : rest target + edges.count target = 0
    · rw [if_pos hzero]
      have hready' : ∀ node ∈ ready ++ [target], rest node + edges.count node = 0 := by
        intro node hmem
        rcases mem_append.1 hmem with hmem | hmem
        · exact hkeep node hmem
        · rw [mem_singleton.1 hmem]
          exact hzero
      have hnodup' : (ready ++ [target]).Nodup := by
        refine hnodup.append (nodup_singleton _) ?_
        simpa using hfresh
      obtain ⟨hkeys'', hcounts'', hmem, hlast⟩ :=
        foldl_release hinside hkeys' hcounts' hready' hnodup'
      refine ⟨hkeys'', hcounts'', ?_, hlast⟩
      intro node
      have htargetzero : rest target = 0 := by omega
      rw [hmem, mem_append, mem_singleton, mem_cons]
      constructor
      · rintro ((hold | rfl) | ⟨hedge, hrest⟩)
        · exact .inl hold
        · exact .inr ⟨.inl rfl, htargetzero⟩
        · exact .inr ⟨.inr hedge, hrest⟩
      · rintro (hold | ⟨rfl | hedge, hrest⟩)
        · exact .inl (.inl hold)
        · exact .inl (.inr rfl)
        · exact .inr ⟨hedge, hrest⟩
    · rw [if_neg hzero]
      obtain ⟨hkeys'', hcounts'', hmem, hlast⟩ :=
        foldl_release hinside hkeys' hcounts' hkeep hnodup
      refine ⟨hkeys'', hcounts'', ?_, hlast⟩
      intro node
      rw [hmem, mem_cons]
      constructor
      · rintro (hold | ⟨hedge, hrest⟩)
        · exact .inl hold
        · exact .inr ⟨.inr hedge, hrest⟩
      · rintro (hold | ⟨rfl | hedge, hrest⟩)
        · exact .inl hold
        · refine .inr ⟨count_pos_iff.1 ?_, hrest⟩
          omega
        · exact .inr ⟨hedge, hrest⟩

end Release

/-! ## 4. The invariant -/

section Progress

variable (targets : κ → List κ) (nodes : Finset κ)

/-- Between two visits: `done` holds the nodes visited so far, in order. -/
structure Progress (done ready : List κ) (incoming : SortedMap κ Nat) : Prop where
  nodup : (done ++ ready).Nodup
  keys : ∀ node, node ∈ incoming.keys ↔ node ∈ nodes
  counts : ∀ node ∈ nodes,
    (incoming.get? node).getD 0 = waiting targets nodes done.toFinset node
  free : ∀ node, node ∈ done ++ ready ↔
    node ∈ nodes ∧ waiting targets nodes done.toFinset node = 0
  ordered : ∀ node ∈ done, ∀ before ∈ nodes, node ∈ targets before →
    before ∈ done ∧ done.idxOf before < done.idxOf node

variable {targets nodes} {done ready : List κ} {incoming : SortedMap κ Nat}

theorem progress_start (hkeys : ∀ node, node ∈ incoming.keys ↔ node ∈ nodes)
    (hcounts : ∀ node ∈ nodes, (incoming.get? node).getD 0 = waiting targets nodes ∅ node) :
    Progress targets nodes []
      ((incoming.entries.filter fun e => e.2 = 0).map Prod.fst) incoming := by
  refine ⟨?_, hkeys, hcounts, ?_, ?_⟩
  · have hsub := (filter_sublist (p := fun e : κ × Nat => e.2 = 0)
      (l := incoming.entries)).map Prod.fst
    exact hsub.nodup incoming.nodup_keys
  · intro node
    simp only [nil_append, mem_map, mem_filter, decide_eq_true_eq, Prod.exists,
      exists_and_right, exists_eq_right, toFinset_nil]
    constructor
    · intro hmem
      have hget := get?_eq_some.2 hmem
      have hnode : node ∈ nodes := (hkeys node).1 (mem_keys.2 ⟨_, hget⟩)
      refine ⟨hnode, ?_⟩
      rw [← hcounts node hnode, hget, Option.getD_some]
    · rintro ⟨hnode, hzero⟩
      obtain ⟨count, hget⟩ := mem_keys.1 ((hkeys node).2 hnode)
      have hcount := hcounts node hnode
      rw [hget, Option.getD_some, hzero] at hcount
      rw [hcount] at hget
      exact get?_eq_some.1 hget
  · intro node hmem
    simp at hmem

theorem Progress.length_le (h : Progress targets nodes done ready incoming) :
    done.length + ready.length ≤ nodes.card := by
  rw [← length_append, ← toFinset_card_of_nodup h.nodup]
  refine Finset.card_le_card ?_
  intro node hnode
  exact ((h.free node).1 (mem_toFinset.1 hnode)).1

/-- One turn settles the next ready node and releases what it leads to. -/
theorem Progress.step {node : κ} (hclosed : ∀ before ∈ nodes, ∀ t ∈ targets before,
      t ∈ nodes) (h : Progress targets nodes done (node :: ready) incoming) :
    Progress targets nodes (done ++ [node]) ((targets node).foldl release (ready, incoming)).1
      ((targets node).foldl release (ready, incoming)).2 := by
  obtain ⟨hnode, hnodezero⟩ := (h.free node).1 (by simp)
  obtain ⟨hfront, hback, hdisjoint⟩ := nodup_append.1 h.nodup
  have hnotdone : node ∉ done := by
    intro hmem
    exact hdisjoint node hmem node mem_cons_self rfl
  have hinsert : (done ++ [node]).toFinset = insert node done.toFinset := by
    ext other
    simp
  have hsplit : ∀ other, waiting targets nodes done.toFinset other =
      waiting targets nodes (done ++ [node]).toFinset other + (targets node).count other := by
    intro other
    rw [hinsert, waiting_insert hnode (by simpa using hnotdone)]
  obtain ⟨hkeys, hcounts, hmem, hnodup⟩ := foldl_release
    (waiting targets nodes (done ++ [node]).toFinset) (hclosed node hnode) h.keys
    (fun other hother => by rw [h.counts other hother, hsplit])
    (fun other (hother : other ∈ ready) => by
      rw [← hsplit]
      exact ((h.free other).1 (by simp [hother])).2)
    (nodup_cons.1 hback).2
  -- A t of the visited node still had an edge, so it was neither done nor ready.
  have htarget : ∀ other ∈ targets node, other ∉ done ++ node :: ready := by
    intro other hother hold
    have hzero := waiting_eq_zero.1 ((h.free other).1 hold).2 node hnode hother
    exact hnotdone (mem_toFinset.1 hzero)
  refine ⟨?_, hkeys, hcounts, ?_, ?_⟩
  · refine nodup_append.2 ⟨?_, hnodup, ?_⟩
    · exact hfront.append (nodup_singleton _) (by simpa using hnotdone)
    · rintro first hfirst snd hsecond rfl
      rcases (hmem first).1 hsecond with hold | ⟨hedge, -⟩
      · rcases mem_append.1 hfirst with hfirst | hfirst
        · exact hdisjoint first hfirst first (mem_cons_of_mem _ hold) rfl
        · rw [mem_singleton.1 hfirst] at hold
          exact (nodup_cons.1 hback).1 hold
      · refine htarget first hedge ?_
        rcases mem_append.1 hfirst with hfirst | hfirst
        · exact mem_append_left _ hfirst
        · rw [mem_singleton.1 hfirst]
          simp
  · intro other
    rw [mem_append, hmem]
    constructor
    · rintro (hother | hother | ⟨hedge, hzero⟩)
      · have hold : other ∈ done ++ node :: ready := by
          rcases mem_append.1 hother with hother | hother
          · exact mem_append_left _ hother
          · rw [mem_singleton.1 hother]
            simp
        obtain ⟨hin, hzero⟩ := (h.free other).1 hold
        exact ⟨hin, by rw [hsplit] at hzero; omega⟩
      · obtain ⟨hin, hzero⟩ := (h.free other).1 (by simp [hother])
        exact ⟨hin, by rw [hsplit] at hzero; omega⟩
      · exact ⟨hclosed node hnode other hedge, hzero⟩
    · rintro ⟨hin, hzero⟩
      by_cases hedge : other ∈ targets node
      · exact .inr (.inr ⟨hedge, hzero⟩)
      · have hold : other ∈ done ++ node :: ready := by
          refine (h.free other).2 ⟨hin, ?_⟩
          rw [hsplit, hzero, count_eq_zero.2 hedge]
        rcases mem_append.1 hold with hold | hold
        · exact .inl (mem_append_left _ hold)
        · rcases mem_cons.1 hold with rfl | hold
          · exact .inl (by simp)
          · exact .inr (.inl hold)
  · intro other hother before hbefore hedge
    rcases mem_append.1 hother with hother | hother
    · obtain ⟨hdone, hlt⟩ := h.ordered other hother before hbefore hedge
      refine ⟨mem_append_left _ hdone, ?_⟩
      rwa [idxOf_append_of_mem hdone, idxOf_append_of_mem hother]
    · obtain rfl := mem_singleton.1 hother
      have hdone : before ∈ done :=
        mem_toFinset.1 (waiting_eq_zero.1 hnodezero before hbefore hedge)
      refine ⟨mem_append_left _ hdone, ?_⟩
      rw [idxOf_append_of_mem hdone, idxOf_append_of_notMem hnotdone]
      exact Nat.lt_add_right _ (idxOf_lt_length_of_mem hdone)

theorem visit_progress (hclosed : ∀ before ∈ nodes, ∀ t ∈ targets before, t ∈ nodes) :
    ∀ {fuel : Nat} {done ready : List κ} {incoming : SortedMap κ Nat},
      Progress targets nodes done ready incoming → nodes.card ≤ fuel + done.length →
      ∃ visited left, visit targets fuel ready incoming done.length = (visited.length, left) ∧
        Progress targets nodes visited [] left := by
  intro fuel
  induction fuel with
  | zero =>
    intro done ready incoming h hfuel
    have hlen := h.length_le
    have hready : ready = [] := length_eq_zero_iff.1 (by omega)
    subst hready
    exact ⟨done, incoming, rfl, h⟩
  | succ fuel ih =>
    intro done ready incoming h hfuel
    cases ready with
    | nil => exact ⟨done, incoming, rfl, h⟩
    | cons node ready =>
      have hlen : (done ++ [node]).length = done.length + 1 := by simp
      obtain ⟨visited, left, hvisit, hprog⟩ := ih (h.step hclosed) (by omega)
      rw [hlen] at hvisit
      exact ⟨visited, left, hvisit, hprog⟩

/-! ## 5. What the end of the loop says -/

theorem Progress.card_keys (h : Progress targets nodes done ready incoming) :
    incoming.entries.length = nodes.card := by
  have hset : incoming.keys.toFinset = nodes := by
    ext node
    rw [mem_toFinset, h.keys]
  rw [← hset, toFinset_card_of_nodup incoming.nodup_keys, SortedMap.keys, length_map]

section

variable (h : Progress targets nodes done [] incoming)
include h

theorem Progress.length_eq_iff :
    done.length = nodes.card ↔ ∀ node ∈ nodes, node ∈ done := by
  have hnodup : done.Nodup := by simpa using h.nodup
  have hsub : done.toFinset ⊆ nodes := by
    intro node hnode
    exact ((h.free node).1 (by simpa using hnode)).1
  rw [← toFinset_card_of_nodup hnodup]
  constructor
  · intro hcard node hnode
    rw [← Finset.eq_of_subset_of_card_le hsub hcard.ge] at hnode
    exact mem_toFinset.1 hnode
  · intro hall
    congr 1
    refine Finset.Subset.antisymm hsub ?_
    intro node hnode
    exact mem_toFinset.2 (hall node hnode)

theorem Progress.rank (hall : ∀ node ∈ nodes, node ∈ done) :
    ∃ rank : κ → Nat, ∀ before ∈ nodes, ∀ t ∈ nodes, t ∈ targets before →
      rank t < rank before := by
  refine ⟨fun node => done.length - done.idxOf node, ?_⟩
  intro before hbefore t htarget hedge
  obtain ⟨-, hlt⟩ := h.ordered t (hall t htarget) before hbefore hedge
  have hlast : done.idxOf t < done.length := idxOf_lt_length_of_mem (hall t htarget)
  show done.length - done.idxOf t < done.length - done.idxOf before
  omega

theorem Progress.preceded {node : κ} (hnode : node ∈ nodes) (hdone : node ∉ done) :
    ∃ before ∈ nodes, before ∉ done ∧ node ∈ targets before := by
  by_contra hnone
  refine hdone ?_
  have hzero : waiting targets nodes done.toFinset node = 0 := by
    rw [waiting_eq_zero]
    intro before hbefore hedge
    by_contra hwaits
    exact hnone ⟨before, hbefore, by simpa using hwaits, hedge⟩
  simpa using (h.free node).2 ⟨hnode, hzero⟩

end

end Progress

omit [LinearOrder κ] in
/-- Nodes with one target each, all preceded by one of them, have their targets among them. -/
theorem closed_of_preceded {targets : κ → List κ} {nodes : Finset κ}
    (hsingle : ∀ node ∈ nodes, ∀ first ∈ targets node, ∀ snd ∈ targets node, first = snd)
    (hpreceded : ∀ node ∈ nodes, ∃ before ∈ nodes, node ∈ targets before) :
    ∀ node ∈ nodes, ∃ t ∈ nodes, t ∈ targets node := by
  choose before hbefore hedge using hpreceded
  let back : nodes → nodes := fun node => ⟨before node.1 node.2, hbefore node.1 node.2⟩
  have hinj : Function.Injective back := by
    intro first snd heq
    have hsame : before first.1 first.2 = before snd.1 snd.2 := congrArg Subtype.val heq
    refine Subtype.ext (hsingle _ (hbefore first.1 first.2) _ (hedge first.1 first.2) _ ?_)
    rw [hsame]
    exact hedge snd.1 snd.2
  intro node hnode
  obtain ⟨t, htarget⟩ := (Finite.injective_iff_surjective.1 hinj) ⟨node, hnode⟩
  refine ⟨t.1, t.2, ?_⟩
  have hsame : before t.1 t.2 = node := congrArg Subtype.val htarget
  rw [← hsame]
  exact hedge t.1 t.2

end Topological
