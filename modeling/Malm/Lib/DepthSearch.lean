/-
Malm.Lib.DepthSearch — depth-first searches with a limit on the depth.

A search finishes a node after its targets and does not visit it again; it gives up at a
node that it is still visiting, and below a given depth. It carries data that it may check
and change on its way (`Keeps`). The depth is only counted on the way by which a node is
met first, so `Fits` gets easier to satisfy as more nodes are finished.
-/
import Malm.Lib.Failures
import Malm.Lib.Digraph

namespace DepthSearch

open Digraph Checks List

/-! ## 1. The search -/

/-- What a search reads and what it does on its way. -/
structure Search (κ ι σ ε : Type) where
  edges : κ → List ι
  target : ι → κ
  enter : κ → σ → Except ε σ
  follow : κ → ι → σ → Except ε σ
  /-- Whether the depth is checked before the marks. -/
  depthFirst : Bool
  tooDeep : κ → ε
  cycle : κ → List κ → ε

/-- The nodes being visited and the finished ones, the latest last. -/
structure State (κ σ : Type) where
  stack : List κ
  complete : List κ
  data : σ

variable {κ ι σ ε : Type}

section Visit

variable (search : Search κ ι σ ε)

def Search.targets (node : κ) : List κ := (search.edges node).map search.target

def followEdge (visitTarget : κ → State κ σ → Except ε (State κ σ)) (node : κ) (state : State κ σ)
    (edge : ι) : Except ε (State κ σ) := do
  let data ← search.follow node edge state.data
  visitTarget (search.target edge) { state with data := data }

variable [DecidableEq κ]

/-- Visit a node with the given number of levels left, its own included. -/
def visit : Nat → κ → State κ σ → Except ε (State κ σ)
  | 0, node, state =>
    if search.depthFirst then .error (search.tooDeep node)
    else if node ∈ state.complete then .ok state
    else if node ∈ state.stack then .error (search.cycle node state.stack)
    else .error (search.tooDeep node)
  | remaining + 1, node, state =>
    if node ∈ state.complete then .ok state
    else if node ∈ state.stack then .error (search.cycle node state.stack)
    else do
      let data ← search.enter node state.data
      let state ← (search.edges node).foldlM (followEdge search (visit remaining) node)
        ⟨state.stack ++ [node], state.complete, data⟩
      return ⟨state.stack.dropLast, state.complete ++ [node], state.data⟩

end Visit

/-! ## 2. What a visit has done -/

section Extends

variable [DecidableEq κ] (search : Search κ ι σ ε) (J : Finset κ → σ → Prop)

def State.entered (state : State κ σ) : Finset κ := (state.stack ++ state.complete).toFinset

/-- The invariant of the data is kept. -/
structure Keeps : Prop where
  enter : ∀ {entered node data data'}, J entered data → node ∉ entered →
    search.enter node data = .ok data' → J (insert node entered) data'
  follow : ∀ {entered node edge data data'}, J entered data →
    search.follow node edge data = .ok data' → J entered data'

/-- No node is finished twice, and none that is being visited. -/
def State.Apart (state : State κ σ) : Prop :=
  state.complete.Nodup ∧ state.stack.Disjoint state.complete

/-- The search has gone on below a node. -/
structure Extends (node : κ) (before after : State κ σ) : Prop where
  stack : after.stack = before.stack
  complete : ∃ added, after.complete = before.complete ++ added ∧
    ∀ other ∈ added, Relation.ReflTransGen (fun a b => b ∈ search.targets a) node other
  settled : Settled search.targets before.complete.reverse →
    Settled search.targets after.complete.reverse
  apart : before.Apart → after.Apart
  keeps : J before.entered before.data → J after.entered after.data

variable {search J}

theorem Extends.refl (node : κ) (state : State κ σ) : Extends search J node state state :=
  ⟨rfl, ⟨[], (append_nil _).symm, by simp⟩, id, id, id⟩

variable {node : κ} {before after : State κ σ}

theorem Extends.trans {mid : State κ σ} (h : Extends search J node before mid)
    (h' : Extends search J node mid after) : Extends search J node before after := by
  obtain ⟨added, hadded, hreach⟩ := h.complete
  obtain ⟨more, hmore, hreach'⟩ := h'.complete
  refine ⟨h'.stack.trans h.stack, ⟨added ++ more, ?_, ?_⟩, h'.settled ∘ h.settled,
    h'.apart ∘ h.apart, h'.keeps ∘ h.keeps⟩
  · rw [hmore, hadded, append_assoc]
  · intro other hother
    rcases mem_append.1 hother with hother | hother
    · exact hreach other hother
    · exact hreach' other hother

theorem Extends.above {t : κ} (h : Extends search J t before after)
    (hedge : t ∈ search.targets node) : Extends search J node before after := by
  obtain ⟨added, hadded, hreach⟩ := h.complete
  exact { h with complete := ⟨added, hadded, fun other hother => (hreach other hother).head hedge⟩ }

theorem Extends.subset (h : Extends search J node before after) :
    before.complete ⊆ after.complete := by
  obtain ⟨added, hadded, -⟩ := h.complete
  rw [hadded]
  exact subset_append_left _ _

theorem followEdges_extends (hkeeps : Keeps search J)
    {visitTarget : κ → State κ σ → Except ε (State κ σ)}
    (hvisit : ∀ {node before after}, visitTarget node before = .ok after →
      Extends search J node before after ∧ node ∈ after.complete) {edges : List ι}
    (hedges : edges ⊆ search.edges node)
    (h : edges.foldlM (followEdge search visitTarget node) before = .ok after) :
    Extends search J node before after ∧ ∀ edge ∈ edges, search.target edge ∈ after.complete := by
  induction edges generalizing before with
  | nil =>
    cases h
    exact ⟨Extends.refl node _, by simp⟩
  | cons edge edges ih =>
    obtain ⟨hedge, hrest⟩ := cons_subset.1 hedges
    simp only [foldlM_cons, bind_ok, followEdge] at h
    obtain ⟨middle, ⟨data, hfollow, htarget⟩, h⟩ := h
    have hdata : Extends search J node before { before with data := data } :=
      ⟨rfl, ⟨[], (append_nil _).symm, by simp⟩, id, id,
        fun hJ => hkeeps.follow hJ hfollow⟩
    obtain ⟨hbelow, hmem⟩ := hvisit htarget
    obtain ⟨hafter, hall⟩ := ih hrest h
    refine ⟨(hdata.trans (hbelow.above (mem_map_of_mem hedge))).trans hafter, ?_⟩
    exact forall_mem_cons.2 ⟨hafter.subset hmem, hall⟩

theorem entered_push {data : σ} :
    State.entered (⟨before.stack ++ [node], before.complete, data⟩ : State κ σ) =
      insert node before.entered := by
  ext other
  simp [State.entered]

/-- Leaving a node: its targets are complete, so it joins them. -/
theorem Extends.finish (hkeeps : Keeps search J) {below : State κ σ} {data : σ}
    (hnew : node ∉ before.complete) (hfresh : node ∉ before.stack)
    (henter : search.enter node before.data = .ok data)
    (h : Extends search J node ⟨before.stack ++ [node], before.complete, data⟩ below)
    (htargets : ∀ edge ∈ search.edges node, search.target edge ∈ below.complete) :
    Extends search J node before
      ⟨below.stack.dropLast, below.complete ++ [node], below.data⟩ := by
  obtain ⟨added, hadded, hreach⟩ := h.complete
  have hstack : below.stack.dropLast = before.stack := by
    rw [h.stack, dropLast_concat]
  refine ⟨hstack, ⟨added ++ [node], ?_, ?_⟩, ?_, ?_, ?_⟩
  · simp only [hadded, append_assoc]
  · intro other hother
    rcases mem_append.1 hother with hother | hother
    · exact hreach other hother
    · rw [mem_singleton.1 hother]
  · intro hsettled
    simp only [reverse_append, reverse_cons, reverse_nil, nil_append, cons_append]
    refine ⟨fun t htarget => ?_, h.settled hsettled⟩
    obtain ⟨edge, hedge, rfl⟩ := mem_map.1 htarget
    exact mem_reverse.2 (htargets edge hedge)
  · intro hapart
    have hentered : State.Apart (⟨before.stack ++ [node], before.complete, data⟩ : State κ σ) := by
      refine ⟨hapart.1, ?_⟩
      simp only [disjoint_append_left, singleton_disjoint]
      exact ⟨hapart.2, hnew⟩
    obtain ⟨hnodup, hdisjoint⟩ := h.apart hentered
    rw [h.stack] at hdisjoint
    simp only [disjoint_append_left, singleton_disjoint] at hdisjoint
    constructor
    · exact nodup_append.2 ⟨hnodup, nodup_singleton node, by
        intro a ha b hb heq
        rw [mem_singleton.1 hb] at heq
        exact hdisjoint.2 (heq ▸ ha)⟩
    · show (below.stack.dropLast).Disjoint (below.complete ++ [node])
      rw [hstack]
      simp only [disjoint_append_right, disjoint_singleton]
      exact ⟨hdisjoint.1, hfresh⟩
  · intro hJ
    have hout : node ∉ before.entered := by
      simp [State.entered, hfresh, hnew]
    -- leaving the node moves it from the stack to the finished ones
    have hsame : State.entered (⟨below.stack.dropLast, below.complete ++ [node], below.data⟩ :
        State κ σ) = below.entered := by
      show (below.stack.dropLast ++ (below.complete ++ [node])).toFinset =
        (below.stack ++ below.complete).toFinset
      rw [hstack, h.stack]
      ext other
      simp only [mem_toFinset, mem_append, mem_singleton]
      tauto
    rw [hsame]
    refine h.keeps ?_
    rw [entered_push]
    exact hkeeps.enter hJ hout henter

/-- **A visit that ends** finishes the node and what it leads to. -/
theorem visit_extends (hkeeps : Keeps search J) {remaining : Nat}
    (h : visit search remaining node before = .ok after) :
    Extends search J node before after ∧ node ∈ after.complete := by
  induction remaining generalizing node before after with
  | zero =>
    rw [visit] at h
    split at h
    · cases h
    · split at h
      · rename_i hcomplete
        cases h
        exact ⟨Extends.refl node before, hcomplete⟩
      · split at h
        · cases h
        · cases h
  | succ remaining ih =>
    rw [visit] at h
    split at h
    · rename_i hcomplete
      cases h
      exact ⟨Extends.refl node before, hcomplete⟩
    split at h
    · cases h
    rename_i hnew hfresh
    simp only [bind_ok, pure_ok] at h
    obtain ⟨data, henter, below, hbelow, rfl⟩ := h
    obtain ⟨hext, htargets⟩ := followEdges_extends hkeeps ih (List.Subset.refl _) hbelow
    exact ⟨hext.finish hkeeps hnew hfresh henter htargets,
      mem_append_right _ mem_cons_self⟩

theorem visitAll_extends (hkeeps : Keeps search J) {remaining : Nat} {starts : List κ}
    (h : starts.foldlM (fun state start => visit search remaining start state) before = .ok after) :
    (Settled search.targets before.complete.reverse →
        Settled search.targets after.complete.reverse) ∧
      before.complete ⊆ after.complete ∧ starts ⊆ after.complete := by
  induction starts generalizing before with
  | nil =>
    cases h
    exact ⟨id, List.Subset.refl _, nil_subset _⟩
  | cons start starts ih =>
    rw [foldlM_cons, bind_ok] at h
    obtain ⟨mid, hvisit, h⟩ := h
    obtain ⟨hext, hmem⟩ := visit_extends hkeeps hvisit
    obtain ⟨hsettled, hsub, hall⟩ := ih h
    exact ⟨hsettled ∘ hext.settled, List.Subset.trans hext.subset hsub,
      cons_subset.2 ⟨hsub hmem, hall⟩⟩

end Extends

theorem targets_before {κ : Type} {ts : κ → List κ} {order before later : List κ} {node : κ}
    (h : Settled ts order.reverse) (hsplit : order = before ++ node :: later) :
    ts node ⊆ before := by
  have hdrop : ∀ front : List κ, Settled ts (front ++ node :: before.reverse) →
      Settled ts (node :: before.reverse) := by
    intro front
    induction front with
    | nil => exact id
    | cons first front ih => exact fun hsettled => ih hsettled.2
  rw [hsplit, reverse_append, reverse_cons, append_assoc] at h
  intro t htarget
  exact mem_reverse.1 ((hdrop later.reverse h).1 t htarget)

/-! ## 3. When a visit ends -/

variable {nodes : κ → Prop}

section Ends

variable (search : Search κ ι σ ε)

/-- Every path from the node to a finished one stays above the limit. -/
def Fits (complete : List κ) : Nat → κ → Prop
  | 0, node => search.depthFirst = false ∧ node ∈ complete
  | remaining + 1, node =>
    node ∈ complete ∨ ∀ edge ∈ search.edges node, Fits complete remaining (search.target edge)

variable {search}

theorem Fits.mono {complete more : List κ} (hsub : complete ⊆ more) {remaining : Nat} {node : κ}
    (h : Fits search complete remaining node) : Fits search more remaining node := by
  induction remaining generalizing node with
  | zero => exact ⟨h.1, hsub h.2⟩
  | succ remaining ih =>
    rcases h with h | h
    · exact Or.inl (hsub h)
    · exact Or.inr fun edge hedge => ih (h edge hedge)

theorem fits_of_paths (complete : List κ) {remaining : Nat} {node : κ}
    (hpaths : ∀ path : List κ, (node :: path).IsChain (fun a b => b ∈ search.targets a) →
      (node :: path).length ≤ remaining) : Fits search complete remaining node := by
  induction remaining generalizing node with
  | zero => exact absurd (hpaths [] (isChain_singleton node)) (by simp)
  | succ remaining ih =>
    refine Or.inr fun edge hedge => ih fun path hpath => ?_
    have hle := hpaths (search.target edge :: path)
      (isChain_cons_cons.2 ⟨mem_map_of_mem hedge, hpath⟩)
    rw [length_cons] at hle
    omega

variable [DecidableEq κ] (search) (J : Finset κ → σ → Prop)

/-- On the given nodes the data never refuse, and the edges do not lead out. -/
structure Admits (nodes : κ → Prop) : Prop extends Keeps search J where
  enter_ok : ∀ {entered node data}, J entered data → nodes node → node ∉ entered →
    ∃ data', search.enter node data = .ok data'
  follow_ok : ∀ {entered node edge data}, J entered data → nodes node → edge ∈ search.edges node →
    ∃ data', search.follow node edge data = .ok data'
  closed : ∀ {node edge}, nodes node → edge ∈ search.edges node → nodes (search.target edge)

variable {search J}

variable {remaining : Nat} {state : State κ σ}

theorem followEdges_ok (hadmits : Admits search J nodes)
    {visitTarget : κ → State κ σ → Except ε (State κ σ)}
    (hext : ∀ {node before after}, visitTarget node before = .ok after →
      Extends search J node before after ∧ node ∈ after.complete)
    (hvisit : ∀ {node} {state : State κ σ}, nodes node → Fits search state.complete remaining node →
      (∀ other ∈ state.stack, Relation.TransGen (fun a b => b ∈ search.targets a) other node) →
      J state.entered state.data → ∃ state', visitTarget node state = .ok state') {node : κ}
    (hnode : nodes node) {edges : List ι} (hedges : edges ⊆ search.edges node)
    (hfits : ∀ edge ∈ edges, Fits search state.complete remaining (search.target edge))
    (hstack : ∀ other ∈ state.stack,
      Relation.ReflTransGen (fun a b => b ∈ search.targets a) other node)
    (hJ : J state.entered state.data) :
    ∃ state', edges.foldlM (followEdge search visitTarget node) state = .ok state' := by
  induction edges generalizing state with
  | nil => exact ⟨state, rfl⟩
  | cons edge edges ih =>
    obtain ⟨hedge, hrest⟩ := cons_subset.1 hedges
    obtain ⟨hfirst, hfits⟩ := forall_mem_cons.1 hfits
    obtain ⟨data, hfollow⟩ := hadmits.follow_ok hJ hnode hedge
    obtain ⟨middle, hmiddle⟩ : ∃ middle,
        visitTarget (search.target edge) { state with data := data } = .ok middle := by
      refine hvisit (hadmits.closed hnode hedge) hfirst ?_ (hadmits.follow hJ hfollow)
      intro other hother
      exact Relation.TransGen.tail' (hstack other hother) (mem_map_of_mem hedge)
    have hbelow := (hext hmiddle).1
    have hstep : followEdge search visitTarget node state edge = .ok middle := by
      rw [followEdge, hfollow]
      exact hmiddle
    rw [foldlM_cons, hstep]
    refine ih hrest (fun other hother => (hfits other hother).mono hbelow.subset) ?_
      (hbelow.keeps (hadmits.follow hJ hfollow))
    rw [hbelow.stack]
    exact hstack

section

variable (hadmits : Admits search J nodes)
  (hacyclic : ∀ node, ¬ Relation.TransGen (fun a b => b ∈ search.targets a) node node)

include hadmits hacyclic

/-- **Without a cycle a visit ends** where the node fits. -/
theorem visit_ok {node : κ} (hnode : nodes node)
    (hfits : Fits search state.complete remaining node)
    (hstack : ∀ other ∈ state.stack, Relation.TransGen (fun a b => b ∈ search.targets a) other node)
    (hJ : J state.entered state.data) :
    ∃ state', visit search remaining node state = .ok state' := by
  induction remaining generalizing node state with
  | zero =>
    obtain ⟨hfirst, hcomplete⟩ := hfits
    refine ⟨state, ?_⟩
    rw [visit, hfirst, if_neg Bool.false_ne_true, if_pos hcomplete]
  | succ remaining ih =>
    rw [visit]
    by_cases hcomplete : node ∈ state.complete
    · rw [if_pos hcomplete]
      exact ⟨state, rfl⟩
    · have hfresh : node ∉ state.stack := fun hmem => hacyclic node (hstack node hmem)
      have hout : node ∉ state.entered := by
        simp [State.entered, hcomplete, hfresh]
      obtain ⟨data, henter⟩ := hadmits.enter_ok hJ hnode hout
      have hstack' : ∀ other ∈ state.stack ++ [node],
          Relation.ReflTransGen (fun a b => b ∈ search.targets a) other node := by
        intro other hother
        rcases mem_append.1 hother with hother | hother
        · exact (hstack other hother).to_reflTransGen
        · rw [mem_singleton.1 hother]
      have hJ' : J (State.entered (⟨state.stack ++ [node], state.complete, data⟩ : State κ σ))
          data := by
        rw [entered_push]
        exact hadmits.enter hJ hout henter
      obtain ⟨below, hbelow⟩ : ∃ below, (search.edges node).foldlM
          (followEdge search (visit search remaining) node)
          ⟨state.stack ++ [node], state.complete, data⟩ = .ok below :=
        followEdges_ok hadmits (visit_extends hadmits.toKeeps) ih hnode (List.Subset.refl _)
          (hfits.resolve_left hcomplete) hstack' hJ'
      rw [if_neg hcomplete, if_neg hfresh, henter, ok_bind, hbelow]
      exact ⟨_, rfl⟩

theorem visitAll_ok {starts : List κ} (hnodes : ∀ start ∈ starts, nodes start)
    (hfits : ∀ earlier start later, starts = earlier ++ start :: later →
      Fits search (earlier ++ state.complete) remaining start) (hstack : state.stack = [])
    (hJ : J state.entered state.data) :
    ∃ state', starts.foldlM (fun state start => visit search remaining start state) state =
      .ok state' := by
  induction starts generalizing state with
  | nil => exact ⟨state, rfl⟩
  | cons start starts ih =>
    obtain ⟨hstart, hrest⟩ := forall_mem_cons.1 hnodes
    obtain ⟨mid, hmiddle⟩ := visit_ok hadmits hacyclic hstart
      (hfits [] start starts rfl) (by simp [hstack]) hJ
    obtain ⟨hext, hmem⟩ := visit_extends hadmits.toKeeps hmiddle
    rw [foldlM_cons, hmiddle]
    refine ih hrest ?_ (hext.stack.trans hstack) (hext.keeps hJ)
    intro earlier other later hsplit
    refine (hfits (start :: earlier) other later (by rw [hsplit]; rfl)).mono ?_
    intro node hnode
    rcases mem_append.1 hnode with hnode | hnode
    · rcases mem_cons.1 hnode with rfl | hnode
      · exact mem_append_right _ hmem
      · exact mem_append_left _ hnode
    · exact mem_append_right _ (hext.subset hnode)

end

end Ends

/-! ## 4. How a visit fails -/

section Fails

variable [DecidableEq κ] {search : Search κ ι σ ε} {allowed : ε → Prop}

/-- **A chain of first edges beyond the levels left** is not visited to its end. -/
theorem visit_too_deep {remaining : Nat} {node : κ} {path : List κ} {state after : State κ σ}
    (hchain : (node :: path).IsChain fun a b => ∃ rest, search.targets a = b :: rest)
    (hlen : remaining ≤ path.length) (hnone : state.complete = []) :
    visit search remaining node state ≠ .ok after := by
  intro h
  induction remaining generalizing node path state after with
  | zero =>
    rw [visit, hnone] at h
    grind
  | succ remaining ih =>
    cases path with
    | nil => cases hlen
    | cons next path =>
      obtain ⟨⟨rest, htargets⟩, hchain⟩ := isChain_cons_cons.1 hchain
      obtain ⟨edge, edges, hedges, rfl, -⟩ := map_eq_cons_iff.1 htargets
      rw [visit, hnone, if_neg not_mem_nil] at h
      split at h
      · cases h
      · -- nothing is finished before the first edge is followed
        simp only [bind_ok, hedges, foldlM_cons, followEdge] at h
        obtain ⟨_, -, _, ⟨_, ⟨_, -, hbelow⟩, -⟩, -⟩ := h
        exact ih hchain (Nat.le_of_succ_le_succ hlen) rfl hbelow

theorem visit_onlyFails (hdeep : ∀ node, allowed (search.tooDeep node))
    (hcycle : ∀ node stack, allowed (search.cycle node stack))
    (henter : ∀ node data, nodes node → OnlyFails allowed (search.enter node data))
    (hfollow : ∀ node edge data, edge ∈ search.edges node → nodes node →
      OnlyFails allowed (search.follow node edge data) ∧
        ∀ data', search.follow node edge data = .ok data' → nodes (search.target edge)) :
    ∀ {remaining : Nat} {node : κ} {state : State κ σ}, nodes node →
      OnlyFails allowed (visit search remaining node state)
  | 0, node, state, _ => by
    rw [visit]
    split
    · exact onlyFails_error (hdeep node)
    · split
      · exact onlyFails_ok state
      · split
        · exact onlyFails_error (hcycle node _)
        · exact onlyFails_error (hdeep node)
  | remaining + 1, node, state, hnode => by
    rw [visit]
    split
    · exact onlyFails_ok state
    · split
      · exact onlyFails_error (hcycle node _)
      · refine onlyFails_bind (henter node _ hnode) fun data _ => ?_
        refine onlyFails_bind ?_ fun after _ => onlyFails_ok _
        refine @onlyFails_foldlM _ _ _ _ _ (fun _ => True) _ _ trivial ?_
          fun _ _ _ _ _ _ => trivial
        intro edge hedge before _
        obtain ⟨hfails, htarget⟩ := hfollow node edge before.data hedge hnode
        exact onlyFails_bind hfails fun data' hdata =>
          visit_onlyFails hdeep hcycle henter hfollow (htarget data' hdata)

end Fails

end DepthSearch
