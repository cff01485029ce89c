/-
Malm.Lib.Digraph — searches over a finite directed graph.

Three loops with an explicit work list: for a cycle (`findCycle_none`,
`findCycle_isCycle`), for what is reachable (`reachable_sound`, `mem_reachable`), and for
the order in which every node follows its targets (`dependencyOrder_perm`). They take
fuel; `findCycle` answers a cycle when it runs out, the other two stop.
-/
import Malm.Lib.SortedMap

namespace Digraph

open List Prod Option List.Subset

variable {κ : Type}

/-! ## 1. Depth-first search for a cycle -/

section Cycle

variable (targets : κ → List κ)

/-- Every node of the list has its targets further down the list. -/
def Settled : List κ → Prop
  | [] => True
  | node :: rest => (∀ target ∈ targets node, target ∈ rest) ∧ Settled rest

/-- Every target of an entry was followed, is still to be followed, or is the entry above. -/
def Pending (complete : List κ) : Option κ → List (κ × List κ) → Prop
  | _, [] => True
  | above, (node, rest) :: stack =>
    (∀ target ∈ targets node, target ∈ complete ∨ target ∈ rest ∨ above = some target) ∧
      Pending complete (some node) stack

theorem Pending.mono {targets : κ → List κ} {complete complete' : List κ} (hsub : complete ⊆ complete') :
    ∀ {above : Option κ} {stack : List (κ × List κ)},
      Pending targets complete above stack → Pending targets complete' above stack
  | _, [], _ => trivial
  | _, (_, _) :: _, ⟨hentry, hstack⟩ =>
    ⟨fun t htarget => (hentry t htarget).imp_left fun h => hsub h,
      Pending.mono hsub hstack⟩

theorem Pending.complete_above {targets : κ → List κ} {complete : List κ} {node : κ} {stack : List (κ × List κ)}
    (h : Pending targets complete (some node) stack) :
    Pending targets (node :: complete) none stack := by
  cases stack with
  | nil => trivial
  | cons e stack =>
    obtain ⟨below, rest⟩ := e
    obtain ⟨hentry, hstack⟩ := h
    refine ⟨?_, hstack.mono (subset_cons_self node complete)⟩
    intro t htarget
    rcases hentry t htarget with hmem | hmem | heq
    · exact .inl (mem_cons_of_mem node hmem)
    · exact .inr (.inl hmem)
    · cases heq
      exact .inl mem_cons_self

variable [DecidableEq κ]

/-- The loop over the stack of visited nodes with the targets still to follow; `complete` holds
the ended ones. A target on the stack closes a cycle. -/
def visit : Nat → List (κ × List κ) → List κ → Except (List κ) (List κ)
  | 0, _, _ => .error []
  | _ + 1, [], complete => .ok complete
  | fuel + 1, (current, []) :: stack, complete => visit fuel stack (current :: complete)
  | fuel + 1, (current, target :: rest) :: stack, complete =>
    if target ∈ complete then
      visit fuel ((current, rest) :: stack) complete
    else if target ∈ current :: stack.map Prod.fst then
      .error ((((current :: stack.map Prod.fst).reverse.dropWhile (· ≠ target))) ++ [target])
    else
      visit fuel ((target, targets target) :: (current, rest) :: stack) complete

def visitAll (fuel : Nat) : List κ → List κ → Except (List κ) (List κ)
  | [], complete => .ok complete
  | start :: nodes, complete =>
    if start ∈ complete then
      visitAll fuel nodes complete
    else do
      let complete ← visit targets fuel [(start, targets start)] complete
      visitAll fuel nodes complete

/-- A cycle of the graph, or nothing. -/
def findCycle (nodes : List κ) : Option (List κ) :=
  let fuel := 1 + nodes.length + (nodes.map fun node => (targets node).length).sum
  match visitAll targets fuel nodes [] with
  | .ok _ => none
  | .error cycle => some cycle

variable {targets}

theorem visit_settled :
    ∀ {fuel : Nat} {stack : List (κ × List κ)} {complete complete' : List κ},
      visit targets fuel stack complete = .ok complete' →
      Settled targets complete → Pending targets complete none stack →
      Settled targets complete' ∧ complete ⊆ complete' ∧
        ∀ e ∈ stack, e.1 ∈ complete'
  | fuel + 1, [], complete, complete', h, hsettled, _ => by
    rw [visit] at h
    cases h
    exact ⟨hsettled, refl _, by simp⟩
  | fuel + 1, (cur, []) :: stack, complete, complete', h, hsettled, hpend => by
    rw [visit] at h
    obtain ⟨hentry, hstack⟩ := hpend
    have hcurrent : Settled targets (cur :: complete) := by
      refine ⟨fun t htarget => ?_, hsettled⟩
      rcases hentry t htarget with hmem | hmem | heq
      · exact hmem
      · cases hmem
      · cases heq
    obtain ⟨hsettled', hsub, hmem⟩ := visit_settled h hcurrent hstack.complete_above
    refine ⟨hsettled', fun node hnode => hsub (mem_cons_of_mem cur hnode), ?_⟩
    intro e hin
    rcases mem_cons.1 hin with rfl | hin
    · exact hsub mem_cons_self
    · exact hmem e hin
  | fuel + 1, (cur, t :: rest) :: stack, complete, complete', h, hsettled, hpend => by
    rw [visit] at h
    obtain ⟨hentry, hstack⟩ := hpend
    by_cases hcomplete : t ∈ complete
    · rw [if_pos hcomplete] at h
      have hnext : Pending targets complete none ((cur, rest) :: stack) := by
        refine ⟨fun other hother => ?_, hstack⟩
        rcases hentry other hother with hmem | hmem | heq
        · exact .inl hmem
        · rcases mem_cons.1 hmem with rfl | hmem
          · exact .inl hcomplete
          · exact .inr (.inl hmem)
        · cases heq
      obtain ⟨hsettled', hsub, hmem⟩ := visit_settled h hsettled hnext
      refine ⟨hsettled', hsub, fun e hin => ?_⟩
      rcases mem_cons.1 hin with rfl | hin
      · exact hmem (cur, rest) mem_cons_self
      · exact hmem e (mem_cons_of_mem _ hin)
    · rw [if_neg hcomplete] at h
      by_cases hstacked : t ∈ cur :: stack.map fst
      · rw [if_pos hstacked] at h
        cases h
      · rw [if_neg hstacked] at h
        have hnext : Pending targets complete none
            ((t, targets t) :: (cur, rest) :: stack) := by
          refine ⟨fun other hother => .inr (.inl hother), fun other hother => ?_, hstack⟩
          rcases hentry other hother with hmem | hmem | heq
          · exact .inl hmem
          · rcases mem_cons.1 hmem with rfl | hmem
            · exact .inr (.inr rfl)
            · exact .inr (.inl hmem)
          · cases heq
        obtain ⟨hsettled', hsub, hmem⟩ := visit_settled h hsettled hnext
        refine ⟨hsettled', hsub, fun e hin => ?_⟩
        rcases mem_cons.1 hin with rfl | hin
        · exact hmem (cur, rest) (mem_cons_of_mem _ mem_cons_self)
        · exact hmem e (mem_cons_of_mem _ (mem_cons_of_mem _ hin))

theorem visitAll_settled {fuel : Nat} :
    ∀ {nodes complete complete' : List κ},
      visitAll targets fuel nodes complete = .ok complete' → Settled targets complete →
      Settled targets complete' ∧ complete ⊆ complete' ∧ nodes ⊆ complete'
  | [], complete, complete', h, hsettled => by
    rw [visitAll] at h
    cases h
    exact ⟨hsettled, refl _, nil_subset _⟩
  | start :: nodes, complete, complete', h, hsettled => by
    rw [visitAll] at h
    by_cases hstart : start ∈ complete
    · rw [if_pos hstart] at h
      obtain ⟨hsettled', hsub, hnodes⟩ := visitAll_settled h hsettled
      exact ⟨hsettled', hsub, cons_subset.2 ⟨hsub hstart, hnodes⟩⟩
    · rw [if_neg hstart] at h
      cases hvisit : visit targets fuel [(start, targets start)] complete with
      | error cycle =>
        rw [hvisit] at h
        cases h
      | ok mid =>
        rw [hvisit] at h
        have hpend : Pending targets complete none [(start, targets start)] :=
          ⟨fun _ htarget => .inr (.inl htarget), trivial⟩
        obtain ⟨hmiddle, hsub, hmem⟩ := visit_settled hvisit hsettled hpend
        obtain ⟨hsettled', hsub', hnodes⟩ := visitAll_settled h hmiddle
        exact ⟨hsettled', fun node hnode => hsub' (hsub hnode),
          cons_subset.2 ⟨hsub' (hmem _ mem_cons_self), hnodes⟩⟩

/-- A graph on which the search finds no cycle has its nodes on a settled
list. -/
theorem findCycle_none {nodes : List κ} (h : findCycle targets nodes = none) :
    ∃ settled, Settled targets settled ∧ nodes ⊆ settled := by
  dsimp only [findCycle] at h
  split at h
  · rename_i complete hvisit
    obtain ⟨hsettled, -, hnodes⟩ := visitAll_settled hvisit trivial
    exact ⟨complete, hsettled, hnodes⟩
  · cases h

end Cycle

/-- On a settled list no property passes from a node to one of its targets
for ever. -/
theorem Settled.no_descent {targets : κ → List κ} {p : κ → Prop}
    (hstep : ∀ node, p node → ∃ t ∈ targets node, p t) :
    ∀ {settled : List κ}, Settled targets settled → ∀ node ∈ settled, ¬ p node
  | first :: rest, ⟨hfirst, hrest⟩, node, hnode => by
    rcases mem_cons.1 hnode with rfl | hnode
    · intro hp
      obtain ⟨t, htarget, hp'⟩ := hstep node hp
      exact no_descent hstep hrest t (hfirst t htarget) hp'
    · exact no_descent hstep hrest node hnode

/-! ## 2. Reachable nodes -/

section Reachable

variable [DecidableEq κ] (targets : κ → List κ)

/-- The loop over the nodes still to look at, the next one first. -/
def collect : Nat → List κ → List κ → List κ
  | 0, _, reached => reached
  | _ + 1, [], reached => reached
  | fuel + 1, current :: pending, reached =>
    if current ∈ reached then
      collect fuel pending reached
    else
      collect fuel (targets current ++ pending) (current :: reached)

/-- The nodes collected from a root: every turn takes the root, or a node once for each edge. -/
def reachable (nodes : List κ) (root : κ) : List κ :=
  collect targets (1 + (nodes.map fun node => (targets node).length).sum) [root] []

variable {targets}

theorem collect_sound {root : κ} :
    ∀ {fuel : Nat} {pending reached : List κ},
      (∀ node ∈ pending, Relation.ReflTransGen (fun a b => b ∈ targets a) root node) →
      (∀ node ∈ reached, Relation.ReflTransGen (fun a b => b ∈ targets a) root node) →
      ∀ node ∈ collect targets fuel pending reached,
        Relation.ReflTransGen (fun a b => b ∈ targets a) root node
  | 0, _, _, _, hreached => hreached
  | _ + 1, [], _, _, hreached => hreached
  | fuel + 1, cur :: pending, reached, hpend, hreached => by
    rw [collect]
    have hcurrent := hpend cur mem_cons_self
    have hrest : ∀ node ∈ pending, Relation.ReflTransGen (fun a b => b ∈ targets a) root node :=
      fun node hnode => hpend node (mem_cons_of_mem cur hnode)
    split
    · exact collect_sound hrest hreached
    · refine collect_sound ?_ ?_
      · intro node hnode
        rcases mem_append.1 hnode with hnode | hnode
        · exact hcurrent.tail hnode
        · exact hrest node hnode
      · intro node hnode
        rcases mem_cons.1 hnode with rfl | hnode
        · exact hcurrent
        · exact hreached node hnode

theorem reachable_sound {nodes : List κ} {root node : κ}
    (h : node ∈ reachable targets nodes root) :
    Relation.ReflTransGen (fun a b => b ∈ targets a) root node := by
  refine collect_sound ?_ ?_ node h
  · intro other hother
    rw [mem_singleton.1 hother]
  · intro other hother
    cases hother

end Reachable

/-! ## 3. Targets before their importers -/

section Order

variable [LinearOrder κ] (nodes : List κ) (targets : κ → List κ)

/-- The nodes with an edge to a node, once each and in order. -/
def dependents (node : κ) : List κ :=
  sortedSet (nodes.filter fun importer => node ∈ targets importer)

/-- Count down for each importer; one without targets left becomes ready. -/
def release : List κ → (κ → Nat) → List κ → (κ → Nat) × List κ
  | [], remaining, ready => (remaining, ready)
  | importer :: rest, remaining, ready =>
    let count := remaining importer - 1
    release rest (Function.update remaining importer count)
      (if count = 0 then sortedSet (importer :: ready) else ready)

/-- The loop that takes the first ready node. -/
def takeReady : Nat → (κ → Nat) → List κ → List κ → List κ
  | 0, _, _, order => order
  | _ + 1, _, [], order => order
  | fuel + 1, remaining, node :: ready, order =>
    let released := release (dependents nodes targets node) remaining ready
    takeReady fuel released.1 released.2 (order ++ [node])

/-- The nodes behind their targets, the smallest ready node first. -/
def dependencyOrder : List κ :=
  let remaining := fun node => (sortedSet (targets node)).length
  takeReady nodes targets nodes.length remaining
    (sortedSet (nodes.filter fun node => remaining node = 0)) []

variable {nodes targets}

theorem release_remaining : ∀ {importers : List κ} {rem : κ → Nat} {ready : List κ},
    importers.Nodup → ∀ node, (release importers rem ready).1 node =
      if node ∈ importers then rem node - 1 else rem node
  | [], _, _, _, node => by simp [release]
  | importer :: rest, rem, ready, h, node => by
    obtain ⟨hnot, hrest⟩ := nodup_cons.1 h
    rw [release, release_remaining hrest]
    by_cases heq : node = importer
    · subst heq
      simp [hnot]
    · simp [heq]

theorem mem_release : ∀ {importers : List κ} {rem : κ → Nat} {ready : List κ},
    importers.Nodup → ∀ node, node ∈ (release importers rem ready).2 ↔
      node ∈ ready ∨ node ∈ importers ∧ rem node - 1 = 0
  | [], _, _, _, node => by simp [release]
  | importer :: rest, rem, ready, h, node => by
    obtain ⟨hnot, hrest⟩ := nodup_cons.1 h
    rw [release, mem_release hrest]
    by_cases heq : node = importer
    · subst heq
      by_cases hzero : rem node - 1 = 0 <;> simp [hnot, hzero]
    · have hready : node ∈ (if rem importer - 1 = 0 then sortedSet (importer :: ready)
          else ready) ↔ node ∈ ready := by
        split <;> simp [heq]
      simp [hready, heq]

theorem nodup_release : ∀ {importers : List κ} {rem : κ → Nat} {ready : List κ},
    ready.Nodup → (release importers rem ready).2.Nodup
  | [], _, _, h => h
  | importer :: rest, rem, ready, h => by
    rw [release]
    refine nodup_release ?_
    split
    · exact nodup_sortedSet _
    · exact h

/-- What the loop keeps: the counts, the ready nodes, and an order behind the targets. -/
structure Ordering (nodes : List κ) (targets : κ → List κ) (remaining : κ → Nat)
    (ready order : List κ) : Prop where
  remaining_eq : ∀ node ∈ nodes,
    remaining node = ((sortedSet (targets node)).filter (· ∉ order)).length
  mem_ready : ∀ node, node ∈ ready ↔ node ∈ nodes ∧ node ∉ order ∧ remaining node = 0
  ready_nodup : ready.Nodup
  order_nodup : order.Nodup
  order_nodes : ∀ node ∈ order, node ∈ nodes
  targets_first : ∀ node ∈ order, ∀ target ∈ targets node, target ∈ order

theorem Ordering.remaining_eq_zero {rem : κ → Nat} {ready order : List κ}
    (h : Ordering nodes targets rem ready order) {node : κ} (hnode : node ∈ nodes) :
    rem node = 0 ↔ ∀ t ∈ targets node, t ∈ order := by
  rw [h.remaining_eq node hnode, length_eq_zero_iff, filter_eq_nil_iff]
  simp

/-- Placing a ready node releases its dependents and keeps the invariant. -/
theorem Ordering.step {rem : κ → Nat} {node : κ} {ready order : List κ}
    (h : Ordering nodes targets rem (node :: ready) order) :
    Ordering nodes targets
      (release (dependents nodes targets node) rem ready).1
      (release (dependents nodes targets node) rem ready).2 (order ++ [node]) := by
  have hdependents : ∀ {other : κ}, other ∈ dependents nodes targets node ↔
      other ∈ nodes ∧ node ∈ targets other := by
    intro other
    simp [dependents]
  have hnodup : (dependents nodes targets node).Nodup := nodup_sortedSet _
  obtain ⟨hnode, hfresh, hzero⟩ := (h.mem_ready node).1 mem_cons_self
  obtain ⟨hnotready, hready⟩ := nodup_cons.1 h.ready_nodup
  have hnotself : ∀ other, node ∈ targets other → other ∈ nodes → other ∉ order ∧ other ≠ node := by
    intro other hedge hother
    refine ⟨fun hmem => hfresh (h.targets_first other hmem node hedge), ?_⟩
    rintro rfl
    exact hfresh ((h.remaining_eq_zero hnode).1 hzero other hedge)
  constructor
  case remaining_eq =>
    intro other hother
    rw [release_remaining hnodup]
    have hfilter : (sortedSet (targets other)).filter (· ∉ order ++ [node]) =
        ((sortedSet (targets other)).filter (· ∉ order)).filter (· ≠ node) := by
      rw [List.filter_filter]
      refine filter_congr fun t _ => ?_
      simp [and_comm]
    rw [hfilter, h.remaining_eq other hother]
    by_cases hedge : node ∈ targets other
    · have hmem : node ∈ (sortedSet (targets other)).filter (· ∉ order) := by
        simp [hedge, hfresh]
      have herase := ((nodup_sortedSet (targets other)).filter (· ∉ order)).erase_eq_filter node
      rw [if_pos (hdependents.2 ⟨hother, hedge⟩), ← length_erase_of_mem hmem, herase]
      congr 1
      refine filter_congr fun t _ => ?_
      by_cases heq : t = node <;> simp [heq]
    · rw [if_neg fun hmem => hedge (hdependents.1 hmem).2]
      congr 1
      symm
      rw [filter_eq_self]
      intro t htarget
      have hne : t ≠ node := by
        rintro rfl
        exact hedge (mem_sortedSet.1 (mem_of_mem_filter htarget))
      simpa using hne
  case mem_ready =>
    intro other
    rw [mem_release hnodup, release_remaining hnodup]
    constructor
    · rintro (hmem | ⟨himporter, hcount⟩)
      · obtain ⟨hother, hnot, hcount⟩ := (h.mem_ready other).1 (mem_cons_of_mem _ hmem)
        have hne : other ≠ node := fun heq => hnotready (heq ▸ hmem)
        refine ⟨hother, by simp [hnot, hne], ?_⟩
        split
        · omega
        · exact hcount
      · obtain ⟨hother, hedge⟩ := hdependents.1 himporter
        obtain ⟨hnot, hne⟩ := hnotself other hedge hother
        rw [if_pos himporter]
        exact ⟨hother, by simp [hnot, hne], hcount⟩
    · rintro ⟨hother, hnot, hcount⟩
      have hnot' : other ∉ order ∧ other ≠ node := by simpa using hnot
      by_cases hedge : node ∈ targets other
      · have himporter := hdependents.2 ⟨hother, hedge⟩
        rw [if_pos himporter] at hcount
        exact .inr ⟨himporter, hcount⟩
      · rw [if_neg fun hmem => hedge (hdependents.1 hmem).2] at hcount
        have hmem := (h.mem_ready other).2 ⟨hother, hnot'.1, hcount⟩
        exact .inl ((mem_cons.1 hmem).resolve_left hnot'.2)
  case ready_nodup => exact nodup_release hready
  case order_nodup =>
    rw [nodup_append]
    refine ⟨h.order_nodup, nodup_singleton node, ?_⟩
    intro a ha b hb heq
    rw [mem_singleton.1 hb] at heq
    exact hfresh (heq ▸ ha)
  case order_nodes =>
    intro other hother
    rcases mem_append.1 hother with hother | hother
    · exact h.order_nodes other hother
    · rw [mem_singleton.1 hother]
      exact hnode
  case targets_first =>
    intro other hother t htarget
    rcases mem_append.1 hother with hother | hother
    · exact mem_append_left _ (h.targets_first other hother t htarget)
    · rw [mem_singleton.1 hother] at htarget
      exact mem_append_left _ ((h.remaining_eq_zero hnode).1 hzero t htarget)

theorem takeReady_complete {settled : List κ} (hsettled : Settled targets settled)
    (hnodes : nodes ⊆ settled) (hclosed : ∀ node ∈ nodes, ∀ t ∈ targets node, t ∈ nodes) :
    ∀ {fuel : Nat} {rem : κ → Nat} {ready order : List κ},
      Ordering nodes targets rem ready order → nodes.length ≤ fuel + order.length →
      (takeReady nodes targets fuel rem ready order).Nodup ∧
        ∀ node, node ∈ takeReady nodes targets fuel rem ready order ↔ node ∈ nodes
  | 0, rem, ready, order, h, hfuel => by
    rw [takeReady]
    refine ⟨h.order_nodup, fun node => ⟨h.order_nodes node, fun hnode => ?_⟩⟩
    have hperm := (h.order_nodup.subperm h.order_nodes).perm_of_length_le (by omega)
    exact hperm.mem_iff.2 hnode
  | fuel + 1, rem, [], order, h, _ => by
    rw [takeReady]
    refine ⟨h.order_nodup, fun node => ⟨h.order_nodes node, fun hnode => ?_⟩⟩
    -- A node outside the order has a t outside the order, and so on.
    by_contra hnot
    refine hsettled.no_descent (p := fun other => other ∈ nodes ∧ other ∉ order) ?_
      node (hnodes hnode) ⟨hnode, hnot⟩
    rintro other ⟨hother, hout⟩
    have hcount : rem other ≠ 0 := by
      intro hzero
      cases (h.mem_ready other).2 ⟨hother, hout, hzero⟩
    rw [Ne, h.remaining_eq_zero hother] at hcount
    push Not at hcount
    obtain ⟨t, htarget, hlate⟩ := hcount
    exact ⟨t, htarget, hclosed other hother t htarget, hlate⟩
  | fuel + 1, rem, node :: ready, order, h, hfuel => by
    rw [takeReady]
    refine takeReady_complete hsettled hnodes hclosed h.step ?_
    rw [length_append, length_singleton]
    omega

theorem ordering_start : Ordering nodes targets (fun node => (sortedSet (targets node)).length)
    (sortedSet (nodes.filter fun node => (sortedSet (targets node)).length = 0)) [] := by
  constructor
  case remaining_eq => simp
  case mem_ready => simp
  case ready_nodup => exact nodup_sortedSet _
  case order_nodup => exact nodup_nil
  case order_nodes => simp
  case targets_first => simp

theorem dependencyOrder_perm {settled : List κ} (hsettled : Settled targets settled)
    (hnodes : nodes ⊆ settled) (hclosed : ∀ node ∈ nodes, ∀ t ∈ targets node, t ∈ nodes)
    (hnodup : nodes.Nodup) : (dependencyOrder nodes targets).Perm nodes := by
  obtain ⟨horder, hmem⟩ := takeReady_complete hsettled hnodes hclosed ordering_start
    (Nat.le_add_right nodes.length 0)
  exact (perm_ext_iff_of_nodup horder hnodup).2 hmem

end Order

/-! ## 4. The searches find what is there -/

section Complete

theorem sum_filter_add_le (weight : κ → Nat) (keep fewer : κ → Bool) {node : κ}
    (hkeep : keep node = true) (hfewer : fewer node = false)
    (hsub : ∀ other, fewer other = true → keep other = true) :
    ∀ {nodes : List κ}, node ∈ nodes →
      ((nodes.filter fewer).map weight).sum + weight node ≤ ((nodes.filter keep).map weight).sum := by
  have hmono : ∀ nodes : List κ,
      ((nodes.filter fewer).map weight).sum ≤ ((nodes.filter keep).map weight).sum := by
    intro nodes
    exact List.Sublist.sum_le_sum ((monotone_filter_right nodes hsub).map weight)
      fun _ _ => Nat.zero_le _
  intro nodes hmem
  induction nodes with
  | nil => cases hmem
  | cons first rest ih =>
    rcases mem_cons.1 hmem with rfl | hrest
    · rw [filter_cons_of_neg (by simp [hfewer]), filter_cons_of_pos hkeep, map_cons, sum_cons]
      have hle := hmono rest
      omega
    · have hle := ih hrest
      by_cases hfirst : fewer first = true
      · rw [filter_cons_of_pos hfirst, filter_cons_of_pos (hsub first hfirst),
          map_cons, map_cons, sum_cons, sum_cons]
        omega
      · rw [filter_cons_of_neg hfirst]
        refine le_trans hle ?_
        by_cases hkept : keep first = true
        · rw [filter_cons_of_pos hkept, map_cons, sum_cons]
          omega
        · rw [filter_cons_of_neg hkept]

variable (targets : κ → List κ)

/-- A path down from the last entry of the stack, with targets left to follow. -/
def Descends : List (κ × List κ) → Prop
  | [] => True
  | [(node, rest)] => rest ⊆ targets node
  | (node, rest) :: (below, left) :: stack =>
    rest ⊆ targets node ∧ node ∈ targets below ∧ Descends ((below, left) :: stack)

variable {targets}

variable {stack : List (κ × List κ)}

theorem Descends.head {node : κ} {rest : List κ} (h : Descends targets ((node, rest) :: stack)) :
    rest ⊆ targets node := by
  cases stack with
  | nil => exact h
  | cons => exact h.1

theorem Descends.below {e : κ × List κ} (h : Descends targets (e :: stack)) :
    Descends targets stack := by
  cases stack with
  | nil => trivial
  | cons => exact h.2.2

theorem Descends.shrink {node : κ} {rest fewer : List κ}
    (h : Descends targets ((node, rest) :: stack)) (hsub : fewer ⊆ rest) :
    Descends targets ((node, fewer) :: stack) := by
  cases stack with
  | nil => exact fun other hother => h (hsub hother)
  | cons => exact ⟨fun other hother => h.1 (hsub hother), h.2⟩

theorem Descends.isChain (h : Descends targets stack) :
    (stack.map fst).IsChain fun a b => a ∈ targets b := by
  induction stack with
  | nil => exact .nil
  | cons e stack ih =>
    cases stack with
    | nil => exact isChain_singleton e.1
    | cons => exact isChain_cons_cons.2 ⟨h.2.1, ih h.below⟩

variable (targets)

/-- A path along the edges that ends where it starts. -/
structure IsCycle (cycle : List κ) : Prop where
  path : cycle.IsChain fun a b => b ∈ targets a
  closed : ∃ node inner, cycle = node :: (inner ++ [node])

variable {targets}

theorem IsCycle.transGen {cycle : List κ} (h : IsCycle targets cycle) :
    ∃ node, Relation.TransGen (fun a b => b ∈ targets a) node node := by
  obtain ⟨node, inner, rfl⟩ := h.closed
  have hpath := h.path
  cases hinner : inner ++ [node] with
  | nil => exact absurd hinner (by simp)
  | cons snd rest =>
    rw [hinner, isChain_cons_cons] at hpath
    have hreach := relationReflTransGen_of_exists_isChain_cons rest hpath.2 rfl
    have hlast : (snd :: rest).getLast (cons_ne_nil snd rest) = node := by
      simp only [← hinner, getLast_concat]
    rw [hlast] at hreach
    exact ⟨node, Relation.TransGen.head' hpath.1 hreach⟩

theorem isCycle_dropWhile [DecidableEq κ] {path : List κ} {t : κ}
    (hpath : path.IsChain fun a b => b ∈ targets a)
    (hlast : ∀ node ∈ path.getLast?, t ∈ targets node) (hmem : t ∈ path) :
    IsCycle targets (path.dropWhile (· ≠ t) ++ [t]) := by
  obtain ⟨before, after, rfl, hbefore⟩ := eq_append_cons_of_mem hmem
  have hdrop : (before ++ t :: after).dropWhile (· ≠ t) = t :: after := by
    rw [dropWhile_append_of_pos, dropWhile_cons_of_neg (by simp)]
    intro node hnode
    exact decide_eq_true fun heq => hbefore (heq ▸ hnode)
  rw [hdrop]
  constructor
  · refine (hpath.suffix (suffix_append before _)).append (isChain_singleton t) ?_
    intro node hnode closing hclosing
    rw [List.head?_cons, mem_some_iff] at hclosing
    subst hclosing
    refine hlast node ?_
    rw [getLast?_append, mem_def.1 hnode]
    rfl
  · exact ⟨t, after, rfl⟩

variable [DecidableEq κ] (targets)

def unmet (nodes : List κ) (stack : List (κ × List κ)) (complete : List κ) : List κ :=
  nodes.filter fun node => node ∉ complete ∧ node ∉ stack.map Prod.fst

/-- The turns that a visit can still take. -/
def work (nodes : List κ) (stack : List (κ × List κ)) (complete : List κ) : Nat :=
  (stack.map fun entry => entry.2.length + 1).sum +
    ((unmet nodes stack complete).map fun node => (targets node).length + 1).sum

variable {targets}

variable {nodes : List κ} {node : κ} {complete : List κ} {fuel : Nat}

theorem unmet_complete (rest : List κ) {stack : List (κ × List κ)} :
    unmet nodes stack (node :: complete) = unmet nodes ((node, rest) :: stack) complete := by
  refine filter_congr fun other _ => ?_
  simp only [mem_cons, map_cons, not_or, decide_eq_decide]
  tauto

section

variable (hclosed : ∀ node ∈ nodes, targets node ⊆ nodes)
include hclosed

/-- With fuel for the edges left, a visit ends with a result or a real cycle. -/
theorem visit_ends {stack : List (κ × List κ)} (hdescends : Descends targets stack)
    (hnodes : ∀ e ∈ stack, e.1 ∈ nodes) (hwork : work targets nodes stack complete < fuel) :
    (∃ complete', visit targets fuel stack complete = .ok complete') ∨
      ∃ cycle, visit targets fuel stack complete = .error cycle ∧ IsCycle targets cycle := by
  induction fuel generalizing stack complete with
  | zero => exact absurd hwork (Nat.not_lt_zero _)
  | succ fuel ih =>
    match stack, hdescends, hnodes, hwork with
    | [], _, _, _ => exact .inl ⟨complete, rfl⟩
    | (current, []) :: stack, hdescends, hnodes, hwork =>
      rw [visit]
      refine ih hdescends.below (fun e hentry => hnodes e (mem_cons_of_mem _ hentry)) ?_
      simp only [work, map_cons, sum_cons] at hwork
      simp only [work, unmet_complete []]
      omega
    | (current, t :: rest) :: stack, hdescends, hnodes, hwork =>
      have htarget : t ∈ targets current := hdescends.head mem_cons_self
      have hrest := hdescends.shrink (subset_cons_self t rest)
      have hcurrent : ∀ e ∈ (current, rest) :: stack, e.1 ∈ nodes := by
        intro e hentry
        rcases mem_cons.1 hentry with rfl | hentry
        · exact hnodes (current, t :: rest) mem_cons_self
        · exact hnodes e (mem_cons_of_mem _ hentry)
      rw [visit]
      by_cases hcomplete : t ∈ complete
      · rw [if_pos hcomplete]
        refine ih hrest hcurrent ?_
        simp only [work, unmet, map_cons, sum_cons, length_cons] at hwork ⊢
        omega
      · rw [if_neg hcomplete]
        by_cases hstacked : t ∈ current :: stack.map fst
        · rw [if_pos hstacked]
          refine .inr ⟨_, rfl, isCycle_dropWhile (isChain_reverse.2 hrest.isChain) ?_
            (mem_reverse.2 hstacked)⟩
          intro node hnode
          rw [getLast?_reverse, List.head?_cons, mem_some_iff] at hnode
          subst hnode
          exact htarget
        · rw [if_neg hstacked]
          have hin : t ∈ nodes := hclosed current (hnodes _ mem_cons_self) htarget
          refine ih ⟨refl _, htarget, hrest⟩ ?_ ?_
          · intro e hentry
            rcases mem_cons.1 hentry with rfl | hentry
            · exact hin
            · exact hcurrent e hentry
          · have hpool := sum_filter_add_le (fun node => (targets node).length + 1)
              (fun node => node ∉ complete ∧
                node ∉ ((current, t :: rest) :: stack).map fst)
              (fun node => node ∉ complete ∧
                node ∉ ((t, targets t) :: (current, rest) :: stack).map fst)
              (by simpa [hcomplete] using hstacked) (by simp)
              (by simp only [map_cons, mem_cons, not_or, decide_eq_true_eq]; tauto) hin
            simp only [work, unmet, map_cons, sum_cons, length_cons] at hwork hpool ⊢
            omega

theorem visitAll_ends (hfuel : (nodes.map fun node => (targets node).length + 1).sum < fuel)
    {starts : List κ} (hstarts : starts ⊆ nodes) :
    (∃ complete', visitAll targets fuel starts complete = .ok complete') ∨
      ∃ cycle, visitAll targets fuel starts complete = .error cycle ∧ IsCycle targets cycle := by
  induction starts generalizing complete with
  | nil => exact .inl ⟨complete, rfl⟩
  | cons start starts ih =>
    obtain ⟨hstart, hrest⟩ := cons_subset.1 hstarts
    rw [visitAll]
    by_cases hmem : start ∈ complete
    · rw [if_pos hmem]
      exact ih hrest
    · rw [if_neg hmem]
      have hwork : work targets nodes [(start, targets start)] complete < fuel := by
        have hpool := sum_filter_add_le (fun node => (targets node).length + 1) (fun _ => true)
          (fun node => node ∉ complete ∧ node ∉ [(start, targets start)].map fst)
          rfl (by simp) (fun _ _ => rfl) hstart
        rw [filter_true] at hpool
        simp only [work, unmet, map_cons, map_nil, sum_cons, sum_nil] at hpool ⊢
        omega
      have hdescends : Descends targets [(start, targets start)] := refl (targets start)
      rcases visit_ends hclosed hdescends
        (fun e hentry => by rw [mem_singleton.1 hentry]; exact hstart) hwork with
        ⟨mid, hvisit⟩ | ⟨cycle, hvisit, hcycle⟩
      · rw [hvisit]
        exact ih hrest
      · rw [hvisit]
        exact .inr ⟨cycle, rfl, hcycle⟩

theorem findCycle_isCycle {cycle : List κ} (h : findCycle targets nodes = some cycle)
    : IsCycle targets cycle := by
  have hfuel : (nodes.map fun node => (targets node).length + 1).sum <
      1 + nodes.length + (nodes.map fun node => (targets node).length).sum := by
    rw [sum_map_add, map_const', sum_replicate_nat]
    omega
  simp only [findCycle] at h
  have hends : (∃ complete, visitAll targets _ nodes [] = .ok complete) ∨
      ∃ cycle, visitAll targets _ nodes [] = .error cycle ∧ IsCycle targets cycle :=
    visitAll_ends hclosed hfuel (refl nodes)
  rcases hends with ⟨complete, hvisit⟩ | ⟨found, hvisit, hcycle⟩
  · rw [hvisit] at h
    cases h
  · rw [hvisit] at h
    cases h
    exact hcycle

theorem findCycle_eq_none
    (hacyclic : ∀ node, ¬ Relation.TransGen (fun a b => b ∈ targets a) node node) :
    findCycle targets nodes = none := by
  cases h : findCycle targets nodes with
  | none => rfl
  | some cycle =>
    obtain ⟨node, hnode⟩ := (findCycle_isCycle hclosed h).transGen
    exact absurd hnode (hacyclic node)

end

omit [DecidableEq κ] in
theorem Settled.acyclic {settled : List κ} (h : Settled targets settled) (hmem : node ∈ settled) :
    ¬ Relation.TransGen (fun a b => b ∈ targets a) node node := by
  refine h.no_descent (p := fun node => Relation.TransGen (fun a b => b ∈ targets a) node node)
    ?_ node hmem
  intro other hcycle
  obtain ⟨t, htarget, hback⟩ := Relation.TransGen.head'_iff.1 hcycle
  exact ⟨t, htarget, Relation.TransGen.tail' hback htarget⟩

theorem collect_closed (hclosed : ∀ node ∈ nodes, targets node ⊆ nodes)
    {pending reached : List κ} (hnodes : pending ⊆ nodes)
    (hopen : ∀ node ∈ reached, ∀ t ∈ targets node, t ∈ reached ∨ t ∈ pending)
    (hwork : pending.length +
      ((nodes.filter fun node => node ∉ reached).map fun node => (targets node).length).sum ≤ fuel) :
    reached ⊆ collect targets fuel pending reached ∧
      pending ⊆ collect targets fuel pending reached ∧
      ∀ node ∈ collect targets fuel pending reached,
        targets node ⊆ collect targets fuel pending reached := by
  have hdone : ∀ {reached : List κ},
      (∀ node ∈ reached, ∀ t ∈ targets node, t ∈ reached ∨ t ∈ ([] : List κ)) →
      ∀ node ∈ reached, targets node ⊆ reached := by
    intro reached hopen node hnode t htarget
    rcases hopen node hnode t htarget with hmem | hmem
    · exact hmem
    · cases hmem
  induction fuel generalizing pending reached with
  | zero =>
    obtain rfl : pending = [] := eq_nil_of_length_eq_zero (by omega)
    exact ⟨refl _, nil_subset _, hdone hopen⟩
  | succ fuel ih =>
    cases pending with
    | nil => exact ⟨refl _, nil_subset _, hdone hopen⟩
    | cons cur pending =>
      obtain ⟨hcurrent, hrest⟩ := cons_subset.1 hnodes
      rw [length_cons] at hwork
      rw [collect]
      by_cases hmem : cur ∈ reached
      · rw [if_pos hmem]
        have hstill : ∀ node ∈ reached, ∀ t ∈ targets node,
            t ∈ reached ∨ t ∈ pending := by
          intro node hnode t htarget
          rcases hopen node hnode t htarget with hin | hin
          · exact .inl hin
          · rcases mem_cons.1 hin with rfl | hin
            · exact .inl hmem
            · exact .inr hin
        obtain ⟨hreached, hpend, hends⟩ := ih hrest hstill (by omega)
        exact ⟨hreached, cons_subset.2 ⟨hreached hmem, hpend⟩, hends⟩
      · rw [if_neg hmem]
        have hstill : ∀ node ∈ cur :: reached, ∀ t ∈ targets node,
            t ∈ cur :: reached ∨ t ∈ targets cur ++ pending := by
          intro node hnode t htarget
          rcases mem_cons.1 hnode with rfl | hnode
          · exact .inr (mem_append_left _ htarget)
          · rcases hopen node hnode t htarget with hin | hin
            · exact .inl (mem_cons_of_mem _ hin)
            · rcases mem_cons.1 hin with rfl | hin
              · exact .inl mem_cons_self
              · exact .inr (mem_append_right _ hin)
        have hpool := sum_filter_add_le (fun node => (targets node).length)
          (fun node => node ∉ reached) (fun node => node ∉ cur :: reached)
          (by simpa using hmem) (by simp)
          (by simp only [mem_cons, not_or, decide_eq_true_eq]; tauto) hcurrent
        obtain ⟨hreached, hpend, hends⟩ := ih
          (append_subset.2 ⟨hclosed cur hcurrent, hrest⟩) hstill
          (by rw [length_append]; omega)
        refine ⟨(cons_subset.1 hreached).2, cons_subset.2 ⟨?_, ?_⟩, hends⟩
        · exact hreached mem_cons_self
        · exact (append_subset.1 hpend).2

theorem mem_reachable (hclosed : ∀ node ∈ nodes, targets node ⊆ nodes) {root : κ}
    (hroot : root ∈ nodes) (h : Relation.ReflTransGen (fun a b => b ∈ targets a) root node) :
    node ∈ reachable targets nodes root := by
  have hwork : [root].length +
      ((nodes.filter fun node => node ∉ ([] : List κ)).map fun node => (targets node).length).sum ≤
      1 + (nodes.map fun node => (targets node).length).sum := by
    simp
  obtain ⟨-, hpend, hends⟩ := collect_closed hclosed (cons_subset.2 ⟨hroot, nil_subset _⟩)
    (fun other hother => by cases hother) hwork
  induction h with
  | refl => exact hpend mem_cons_self
  | tail _ hedge ih => exact hends _ ih hedge

end Complete

end Digraph
