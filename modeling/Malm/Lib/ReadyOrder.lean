/-
Malm.Lib.ReadyOrder — the dependency order takes the least ready node.

A node is ready when all of its targets were taken (`dependencyOrder_leastFirst`). In the
loop with its maps every lookup and every subtraction of a count can fail, and on an
acyclic graph none does (`countedOrder_eq`).
-/
import Malm.Lib.Digraph

namespace Digraph

open List Prod Function SortedMap

variable {κ : Type} [LinearOrder κ] {nodes : List κ} {targets : κ → List κ}

/-! ## 1. The least ready node -/

def Ready (nodes : List κ) (targets : κ → List κ) (taken : List κ) (node : κ) : Prop :=
  node ∈ nodes ∧ node ∉ taken ∧ ∀ target ∈ targets node, target ∈ taken

/-- Every node of the order was the least ready one when it was taken. -/
def LeastFirst (nodes : List κ) (targets : κ → List κ) (order : List κ) : Prop :=
  ∀ before node after, order = before ++ node :: after →
    IsLeast {other | Ready nodes targets before other} node

variable {order : List κ} {node target : κ} {remaining : κ → Nat} {ready : List κ} {importer : κ}
  {graph : List (κ × List κ)}

theorem LeastFirst.concat (h : LeastFirst nodes targets order)
    (hnode : IsLeast {other | Ready nodes targets order other} node) :
    LeastFirst nodes targets (order ++ [node]) := by
  intro before other after hsplit
  rcases eq_nil_or_concat after with rfl | ⟨after, last, rfl⟩
  · obtain ⟨rfl, heq⟩ := append_inj' hsplit rfl
    cases heq
    exact hnode
  · rw [concat_eq_append, ← cons_append, ← append_assoc] at hsplit
    exact h before other after (append_inj' hsplit rfl).1

theorem LeastFirst.targets_before {before after : List κ} (h : LeastFirst nodes targets order)
    (hsplit : order = before ++ node :: after) (htarget : target ∈ targets node) :
    target ∈ before :=
  (h before node after hsplit).1.2.2 target htarget

theorem sorted_sortedSet (es : List κ) : (sortedSet es).Pairwise (· < ·) := by
  have hsorted : (sortedSet es).Pairwise (· ≤ ·) := pairwise_insertionSort _ _
  exact hsorted.imp₂ (fun _ _ hle hne => lt_of_le_of_ne hle hne) (nodup_sortedSet es)

theorem sorted_release {importers : List κ} (h : ready.Pairwise (· < ·)) :
    (release importers remaining ready).2.Pairwise (· < ·) := by
  induction importers generalizing remaining ready with
  | nil => exact h
  | cons importer rest ih =>
    rw [release]
    refine ih ?_
    split
    · exact sorted_sortedSet _
    · exact h

theorem Ordering.ready_iff (h : Ordering nodes targets remaining ready order) :
    node ∈ ready ↔ Ready nodes targets order node := by
  rw [h.mem_ready, Ready]
  refine and_congr_right fun hnode => and_congr_right fun _ => ?_
  exact h.remaining_eq_zero hnode

theorem Ordering.isLeast (h : Ordering nodes targets remaining (node :: ready) order)
    (hsorted : (node :: ready).Pairwise (· < ·)) :
    IsLeast {other | Ready nodes targets order other} node := by
  refine ⟨h.ready_iff.1 mem_cons_self, ?_⟩
  intro other hother
  rcases mem_cons.1 (h.ready_iff.2 hother) with rfl | hmem
  · exact le_refl other
  · exact le_of_lt ((pairwise_cons.1 hsorted).1 other hmem)

theorem takeReady_leastFirst {fuel : Nat} (h : Ordering nodes targets remaining ready order)
    (hsorted : ready.Pairwise (· < ·)) (hleast : LeastFirst nodes targets order) :
    LeastFirst nodes targets (takeReady nodes targets fuel remaining ready order) := by
  induction fuel generalizing remaining ready order with
  | zero => exact hleast
  | succ fuel ih =>
    cases ready with
    | nil => exact hleast
    | cons node ready =>
      rw [takeReady]
      exact ih h.step (sorted_release (pairwise_cons.1 hsorted).2)
        (hleast.concat (h.isLeast hsorted))

/-- **The order always takes the least ready node.** -/
theorem dependencyOrder_leastFirst : LeastFirst nodes targets (dependencyOrder nodes targets) := by
  refine takeReady_leastFirst ordering_start (sorted_sortedSet _) ?_
  intro before node after hsplit
  cases before <;> cases hsplit

/-! ## 2. The loop with its maps -/

/-- The nodes that import each target, with repetitions until the lists are sorted. -/
def pushDependents (dependents : SortedMap κ (List κ)) (node : κ × List κ) : SortedMap κ (List κ) :=
  node.2.foldl (fun dependents target =>
    dependents.insert target ((dependents.get? target).getD [] ++ [node.1])) dependents

/-- The importers of each target, once each and in order. -/
def dependentsOf (graph : List (κ × List κ)) : SortedMap κ (List κ) :=
  (graph.foldl pushDependents .empty).mapValues sortedSet

/-- `*count -= 1`: no answer without a count, or at zero. -/
def countDown (remaining : SortedMap κ Nat) (importer : κ) : Option Nat :=
  match remaining.get? importer with
  | some (count + 1) => some count
  | some 0 => none
  | none => none

/-- The loop over the importers of the node that was taken. -/
def releaseCounted : List κ → SortedMap κ Nat → List κ → Option (SortedMap κ Nat × List κ)
  | [], remaining, ready => some (remaining, ready)
  | importer :: rest, remaining, ready => do
    let count ← countDown remaining importer
    releaseCounted rest (remaining.insert importer count)
      (if count = 0 then sortedSet (importer :: ready) else ready)

/-- The loop that takes the first ready node, until none is left. -/
def takeCounted (dependents : SortedMap κ (List κ)) :
    Nat → SortedMap κ Nat → List κ → List κ → Option (List κ)
  | _, _, [], order => some order
  | 0, _, _ :: _, _ => none
  | fuel + 1, remaining, node :: ready, order => do
    let (remaining, ready) ← releaseCounted ((dependents.get? node).getD []) remaining ready
    takeCounted dependents fuel remaining ready (order ++ [node])

/-- The number of distinct targets of each node. -/
def startCounts (graph : List (κ × List κ)) : SortedMap κ Nat :=
  graph.foldl (fun counts node => counts.insert node.1 (sortedSet node.2).length) .empty

/-- The order of the nodes of a graph; a turn takes one node. -/
def countedOrder (graph : List (κ × List κ)) : Option (List κ) :=
  let ready := ((startCounts graph).entries.filter fun entry => entry.2 = 0).map Prod.fst
  takeCounted (dependentsOf graph) graph.length (startCounts graph) (sortedSet ready) []

theorem mem_pushDependents {dependents : SortedMap κ (List κ)} {node : κ × List κ} :
    importer ∈ ((pushDependents dependents node).get? target).getD [] ↔
      importer ∈ (dependents.get? target).getD [] ∨ importer = node.1 ∧ target ∈ node.2 := by
  obtain ⟨src, edges⟩ := node
  rw [pushDependents]
  induction edges generalizing dependents with
  | nil => simp
  | cons first rest ih =>
    rw [foldl_cons, ih, get?_insert]
    by_cases heq : target = first
    · subst heq
      simp
      tauto
    · simp [heq]

theorem mem_foldl_pushDependents {dependents : SortedMap κ (List κ)} :
    importer ∈ ((graph.foldl pushDependents dependents).get? target).getD [] ↔
      importer ∈ (dependents.get? target).getD [] ∨
        ∃ node ∈ graph, importer = node.1 ∧ target ∈ node.2 := by
  induction graph generalizing dependents with
  | nil => simp
  | cons node rest ih =>
    rw [foldl_cons, ih, mem_pushDependents, or_assoc]
    simp

theorem get?_dependentsOf (hgraph : ∀ node ∈ graph, targets node.1 = node.2) (target : κ) :
    ((dependentsOf graph).get? target).getD [] =
      dependents (graph.map fst) targets target := by
  have hmap : ((dependentsOf graph).get? target).getD [] =
      sortedSet (((graph.foldl pushDependents .empty).get? target).getD []) := by
    rw [dependentsOf, get?_mapValues]
    cases (graph.foldl pushDependents .empty).get? target with
    | none => rfl
    | some importers => rfl
  rw [hmap, dependents]
  refine sortedSet_congr fun importer => ?_
  rw [mem_foldl_pushDependents, mem_filter, decide_eq_true_eq, mem_map]
  constructor
  · intro h
    rcases h with h | ⟨node, hnode, rfl, htarget⟩
    · cases h
    · exact ⟨⟨node, hnode, rfl⟩, hgraph node hnode ▸ htarget⟩
  · intro h
    obtain ⟨⟨node, hnode, rfl⟩, htarget⟩ := h
    exact Or.inr ⟨node, hnode, rfl, hgraph node hnode ▸ htarget⟩

def Counts (nodes : List κ) (counts : SortedMap κ Nat) (remaining : κ → Nat) : Prop :=
  ∀ node ∈ nodes, counts.get? node = some (remaining node)

theorem releaseCounted_eq {importers : List κ} {counts : SortedMap κ Nat}
    (hcounts : Counts nodes counts remaining) (hnodup : importers.Nodup)
    (himporters : ∀ importer ∈ importers, importer ∈ nodes ∧ 0 < remaining importer) :
    ∃ counts', releaseCounted importers counts ready =
        some (counts', (release importers remaining ready).2) ∧
      Counts nodes counts' (release importers remaining ready).1 := by
  induction importers generalizing counts remaining ready with
  | nil => exact ⟨counts, rfl, hcounts⟩
  | cons importer rest ih =>
    obtain ⟨hnot, hrest⟩ := nodup_cons.1 hnodup
    obtain ⟨hmem, hpos⟩ := himporters importer mem_cons_self
    have hdown : countDown counts importer = some (remaining importer - 1) := by
      rw [countDown, hcounts importer hmem]
      obtain ⟨count, hcount⟩ := Nat.exists_eq_succ_of_ne_zero (Nat.pos_iff_ne_zero.1 hpos)
      rw [hcount]
      rfl
    have hcounts' : Counts nodes (counts.insert importer (remaining importer - 1))
        (Function.update remaining importer (remaining importer - 1)) := by
      intro node hnode
      rw [get?_insert, update_apply]
      split
      · rfl
      · exact hcounts node hnode
    have hrest' : ∀ other ∈ rest, other ∈ nodes ∧
        0 < Function.update remaining importer (remaining importer - 1) other := by
      intro other hother
      have hne : other ≠ importer := fun heq => hnot (heq ▸ hother)
      rw [update_of_ne hne]
      exact himporters other (mem_cons_of_mem importer hother)
    rw [releaseCounted, hdown, release]
    exact ih hcounts' hrest hrest'

theorem Ordering.count_pos (h : Ordering nodes targets remaining ready order)
    (hnode : node ∉ order) (himporter : importer ∈ dependents nodes targets node) :
    importer ∈ nodes ∧ 0 < remaining importer := by
  have hmem : importer ∈ nodes ∧ node ∈ targets importer := by simpa [dependents] using himporter
  refine ⟨hmem.1, Nat.pos_iff_ne_zero.2 fun hzero => hnode ?_⟩
  exact (h.remaining_eq_zero hmem.1).1 hzero node hmem.2

theorem takeCounted_eq {importers : SortedMap κ (List κ)}
    (himporters : ∀ node, (importers.get? node).getD [] = dependents nodes targets node)
    {fuel : Nat} {counts : SortedMap κ Nat} (h : Ordering nodes targets remaining ready order)
    (hcounts : Counts nodes counts remaining) (hfuel : nodes.length ≤ fuel + order.length) :
    takeCounted importers fuel counts ready order =
      some (takeReady nodes targets fuel remaining ready order) := by
  induction fuel generalizing counts remaining ready order with
  | zero =>
    cases ready with
    | nil => rfl
    | cons node ready =>
      -- Every node was taken, so that none can be ready.
      obtain ⟨hnode, hfresh, -⟩ := (h.mem_ready node).1 mem_cons_self
      have hperm := (h.order_nodup.subperm h.order_nodes).perm_of_length_le (by omega)
      exact absurd (hperm.mem_iff.2 hnode) hfresh
  | succ fuel ih =>
    cases ready with
    | nil => rfl
    | cons node ready =>
      obtain ⟨-, hfresh, -⟩ := (h.mem_ready node).1 mem_cons_self
      have hnodup : (dependents nodes targets node).Nodup := nodup_sortedSet _
      obtain ⟨counts', hrelease, hcounts'⟩ : ∃ counts', releaseCounted
          (dependents nodes targets node) counts ready = some (counts', _) ∧ _ :=
        releaseCounted_eq hcounts hnodup fun importer hmem => h.count_pos hfresh hmem
      rw [takeCounted, himporters, hrelease, takeReady]
      refine ih h.step hcounts' ?_
      rw [length_append, length_singleton]
      omega

section

variable (hnodup : (graph.map fst).Nodup) (hgraph : ∀ node ∈ graph, targets node.1 = node.2)

include hnodup hgraph

theorem get?_startCounts {count : Nat} :
    (startCounts graph).get? node = some count ↔
      node ∈ graph.map fst ∧ (sortedSet (targets node)).length = count := by
  have hkeys : ((graph.map fun e => (e.1, (sortedSet e.2).length)).map
      fst).Nodup := by
    rw [List.map_map]
    exact hnodup
  have hfold : ((graph.map fun e => (e.1, (sortedSet e.2).length)).foldl
      (fun counts e => counts.insert e.1 e.2) (.empty : SortedMap κ Nat)).get? node =
        some count ↔ _ := get?_foldl_insert hkeys
  rw [foldl_map] at hfold
  rw [startCounts, hfold]
  simp only [mem_map, get?_empty, reduceCtorEq, and_false, or_false, Prod.mk.injEq]
  constructor
  · intro h
    obtain ⟨e, hentry, rfl, hcount⟩ := h
    exact ⟨⟨e, hentry, rfl⟩, hgraph e hentry ▸ hcount⟩
  · intro h
    obtain ⟨⟨e, hentry, rfl⟩, hcount⟩ := h
    exact ⟨e, hentry, rfl, hgraph e hentry ▸ hcount⟩

/-- **No lookup and no subtraction fails** in the loop with its maps. -/
theorem countedOrder_eq :
    countedOrder graph = some (dependencyOrder (graph.map fst) targets) := by
  have hcounts : Counts (graph.map fst) (startCounts graph)
      fun node => (sortedSet (targets node)).length := by
    intro node hnode
    exact (get?_startCounts hnodup hgraph).2 ⟨hnode, rfl⟩
  have hready : sortedSet (((startCounts graph).entries.filter fun e => e.2 = 0).map
      fst) =
      sortedSet ((graph.map fst).filter fun node => (sortedSet (targets node)).length = 0) := by
    refine sortedSet_congr fun node => ?_
    have hentry : ∀ count, (node, count) ∈ (startCounts graph).entries ↔
        node ∈ graph.map fst ∧ (sortedSet (targets node)).length = count := by
      intro count
      rw [← get?_eq_some]
      exact get?_startCounts hnodup hgraph
    rw [mem_filter, mem_map, decide_eq_true_eq]
    constructor
    · intro h
      obtain ⟨e, hmem, rfl⟩ := h
      rw [mem_filter, decide_eq_true_eq] at hmem
      obtain ⟨hnode, hcount⟩ := (hentry e.2).1 hmem.1
      exact ⟨hnode, hcount.trans hmem.2⟩
    · intro h
      exact ⟨(node, 0), mem_filter.2 ⟨(hentry 0).2 h, rfl⟩, rfl⟩
  have hlen : (graph.map fst).length ≤ graph.length + ([] : List κ).length := by simp
  rw [countedOrder, hready, takeCounted_eq (get?_dependentsOf hgraph) ordering_start hcounts hlen,
    dependencyOrder, length_map]

end

end Digraph
