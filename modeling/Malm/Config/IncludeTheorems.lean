/-
Malm.Config.IncludeTheorems — what include resolution accepts.

A set of documents is resolvable from an entry when every target is captured, no
doc includes itself, every doc is reached and all pass the preflight
together (`Resolvable`). What is accepted is resolvable, and conversely when no
chain of includes is longer than the limit, in any order of the includes.
-/
import Malm.Config.PreflightTheorems
import Malm.Config.Includes

namespace Malm.Config

open Budget Checks List SortedMap

variable {id : CapturedDocumentId}

variable {allowed : CapturedConfigDocument → Prop}
  {cost : CapturedConfigDocument → PreflightBudget} {doc : CapturedConfigDocument}

/-! ## 1. The include graph -/

section Graph

variable (captured : CapturedDocumentSet)

def Includes (source target : CapturedDocumentId) : Prop :=
  ∃ doc, captured.documents.get? source = some doc ∧
    ∃ edge ∈ doc.includes, edge.target = target

/-- Every document passes its preflight, with one budget for all of them. -/
def PreflightPasses : Prop :=
  ∃ budget, (captured.documents.entries.map Prod.snd).foldlM
    (fun budget doc => validateDocumentRanges doc budget) (0, 0) = .ok budget

/-- The documents can be resolved from the entry. -/
@[mk_iff] structure Resolvable (entry : CapturedDocumentId) : Prop where
  authority : entry.authority = captured.rootAuthority
  entry_mem : entry ∈ captured.documents.keys
  targets : ∀ source target, Includes captured source target → target ∈ captured.documents.keys
  acyclic : ∀ id, ¬ Relation.TransGen (Includes captured) id id
  reachable : ∀ id ∈ captured.documents.keys, Relation.ReflTransGen (Includes captured) entry id
  preflight : PreflightPasses captured

def IncludeChainsWithin (entry : CapturedDocumentId) (limit : Nat) : Prop :=
  ∀ chain, (entry :: chain).IsChain (Includes captured) → (entry :: chain).length ≤ limit

variable {captured}

theorem mem_targets {src target : CapturedDocumentId} :
    target ∈ (includeSearch captured).targets src ↔ Includes captured src target := by
  unfold DepthSearch.Search.targets Includes
  simp only [includeSearch, includesOf, mem_map]
  cases captured.documents.get? src with
  | none => simp
  | some doc => simp

theorem includes_eq : (fun a b => b ∈ (includeSearch captured).targets a) = Includes captured := by
  funext source target
  exact propext mem_targets

end Graph

/-! ## 2. The budget of the documents that were entered -/

section Entered

variable {captured : CapturedDocumentSet} {allowed : CapturedConfigDocument → Prop}
  {cost : CapturedConfigDocument → PreflightBudget}

variable (captured cost) in
def costOf (id : CapturedDocumentId) : PreflightBudget :=
  match captured.documents.get? id with
  | some doc => cost doc
  | none => 0

theorem costOf_of (h : captured.documents.get? id = some doc) :
    costOf captured cost id = cost doc := by
  rw [costOf, h]

variable (captured allowed cost) in
/-- The budget is the cost of the entered documents, and these are allowed. -/
def Spent (entered : Finset CapturedDocumentId) (state : ResolutionState) : Prop :=
  (∀ id ∈ entered, ∃ doc, captured.documents.get? id = some doc ∧ allowed doc) ∧
    state.2 = entered.sum (costOf captured cost) ∧ state.2 ≤ preflightLimit

variable (hcharges : ∀ doc, Charges preflightLimit
  (fun budget => validateDocumentRanges doc budget) (allowed doc) (cost doc))
include hcharges

theorem enterDocument_ok {s state' : ResolutionState} (hlimit : s.2 ≤ preflightLimit) :
    enterDocument captured id s = .ok state' ↔
      ∃ doc, captured.documents.get? id = some doc ∧ allowed doc ∧
        s.2 + cost doc ≤ preflightLimit ∧ state' = (s.1, s.2 + cost doc) := by
  simp only [enterDocument, bind_ok, require_ok, mapError_ok, pure_ok]
  refine exists_congr fun doc => and_congr_right fun _ => ?_
  constructor
  · intro h
    obtain ⟨budget, hbudget, rfl⟩ := h
    obtain ⟨hallowed, hfits, rfl⟩ := (hcharges doc _ budget hlimit).1 hbudget
    exact ⟨hallowed, hfits, rfl⟩
  · intro h
    obtain ⟨hallowed, hfits, rfl⟩ := h
    exact ⟨_, (hcharges doc _ _ hlimit).2 ⟨hallowed, hfits, rfl⟩, rfl⟩

theorem includeSearch_keeps :
    DepthSearch.Keeps (includeSearch captured) (Spent captured allowed cost) := by
  constructor
  · intro entered id s state' hspent hfresh henter
    obtain ⟨hallowed, hsum, hlimit⟩ := hspent
    obtain ⟨doc, hdocument, hok, hfits, rfl⟩ := (enterDocument_ok hcharges hlimit).1 henter
    refine ⟨?_, ?_, hfits⟩
    · intro other hother
      rcases Finset.mem_insert.1 hother with rfl | hother
      · exact ⟨doc, hdocument, hok⟩
      · exact hallowed other hother
    · rw [Finset.sum_insert hfresh, costOf_of hdocument, hsum, add_comm]
  · intro entered id edge s state' hspent hfollow
    simp only [includeSearch, followInclude, bind_ok, require_ok, pure_ok] at hfollow
    obtain ⟨t, -, rfl⟩ := hfollow
    exact hspent

omit hcharges in
theorem sum_costOf : captured.documents.keys.toFinset.sum (costOf captured cost) =
    ((captured.documents.entries.map Prod.snd).map cost).sum := by
  rw [sum_toFinset _ captured.documents.nodup_keys, SortedMap.keys, map_map, map_map]
  congr 1
  refine map_congr_left fun entry hentry => ?_
  exact costOf_of (get?_eq_some.2 hentry)

theorem preflightPasses_iff : PreflightPasses captured ↔
    (∀ id doc, captured.documents.get? id = some doc → allowed doc) ∧
      captured.documents.keys.toFinset.sum (costOf captured cost) ≤ preflightLimit := by
  have hfold : Charges preflightLimit (fun budget =>
      (captured.documents.entries.map Prod.snd).foldlM
        (fun budget doc => validateDocumentRanges doc budget) budget) _ _ :=
    Charges.foldlM fun doc _ => hcharges doc
  have hzero : ((0, 0) : PreflightBudget) ≤ preflightLimit := ⟨Nat.zero_le _, Nat.zero_le _⟩
  have hadd : ∀ sum : PreflightBudget, (0, 0) + sum = sum := fun sum => zero_add sum
  simp only [PreflightPasses, hfold _ _ hzero, hadd, ← sum_costOf, exists_and_left, exists_eq,
    and_true]
  refine and_congr ?_ Iff.rfl
  constructor
  · intro h id doc hdocument
    exact h doc (mem_map.2 ⟨(id, doc), get?_eq_some.1 hdocument, rfl⟩)
  · intro h doc hdocument
    obtain ⟨entry, hentry, rfl⟩ := mem_map.1 hdocument
    exact h entry.1 entry.2 (get?_eq_some.2 hentry)

theorem includeSearch_admits
    (htargets : ∀ src t, Includes captured src t → t ∈ captured.documents.keys)
    (hpasses : PreflightPasses captured) :
    DepthSearch.Admits (includeSearch captured) (Spent captured allowed cost)
      (· ∈ captured.documents.keys) := by
  obtain ⟨hallowed, htotal⟩ := (preflightPasses_iff hcharges).1 hpasses
  refine { toKeeps := includeSearch_keeps hcharges, enter_ok := ?_, follow_ok := ?_, closed := ?_ }
  · intro entered id s hspent hid hfresh
    obtain ⟨hentered, hsum, hlimit⟩ := hspent
    obtain ⟨doc, hdocument⟩ := mem_keys.1 hid
    refine ⟨_, (enterDocument_ok hcharges hlimit).2
      ⟨doc, hdocument, hallowed id doc hdocument, ?_, rfl⟩⟩
    -- The entered documents and this one are some of the captured ones.
    have hsub : insert id entered ⊆ captured.documents.keys.toFinset := by
      intro other hother
      rw [mem_toFinset]
      rcases Finset.mem_insert.1 hother with rfl | hother
      · exact hid
      · obtain ⟨found, hfound, -⟩ := hentered other hother
        exact mem_keys.2 ⟨found, hfound⟩
    have hle := Finset.sum_le_sum_of_subset (f := costOf captured cost) hsub
    rw [Finset.sum_insert hfresh, costOf_of hdocument, ← hsum, add_comm] at hle
    exact le_trans hle htotal
  · intro entered id edge s _ _ hedge
    have hincludes : Includes captured id edge.target := mem_targets.1 (mem_map_of_mem hedge)
    obtain ⟨t, htarget⟩ := mem_keys.1 (htargets id edge.target hincludes)
    simp only [includeSearch, followInclude, htarget]
    exact ⟨_, rfl⟩
  · intro id edge _ hedge
    exact htargets id edge.target (mem_targets.1 (mem_map_of_mem hedge))

end Entered

/-! ## 3. Resolution -/

section Resolution

variable {captured : CapturedDocumentSet} {entry : CapturedDocumentId}

theorem spent_start :
    Spent captured allowed cost ∅ ([], (0, 0)) :=
  ⟨by simp, rfl, Nat.zero_le _, Nat.zero_le _⟩

theorem resolveIncludeGraph_ok {graph : ResolvedGraph} :
    resolveIncludeGraph captured entry = .ok graph ↔
      entry.authority = captured.rootAuthority ∧ entry ∈ captured.documents.keys ∧
      ∃ s, visitDocument captured maxRichIncludeDepth entry ⟨[], [], ([], (0, 0))⟩ = .ok s ∧
        s.complete.length = captured.documents.entries.length ∧
        ⟨s.complete, s.data.1, s.data.2⟩ = graph := by
  simp only [resolveIncludeGraph, bind_ok, exists_unit, reject_ok, not_not,
    Bool.not_eq_false, SortedMap.contains_iff, pure_ok]

/-- What a visit of the entry has done. -/
structure Resolved (captured : CapturedDocumentSet) (entry : CapturedDocumentId)
    (order : List CapturedDocumentId) : Prop where
  nodup : order.Nodup
  mem_iff : ∀ id, id ∈ order ↔ Relation.ReflTransGen (Includes captured) entry id
  captured_of_mem : ∀ id ∈ order, id ∈ captured.documents.keys
  before : ∀ earlier id later, order = earlier ++ id :: later →
    ∀ target, Includes captured id target → target ∈ earlier
  acyclic : ∀ id ∈ order, ¬ Relation.TransGen (Includes captured) id id

theorem visitDocument_resolved (hcharges : ∀ doc, Charges preflightLimit
      (fun budget => validateDocumentRanges doc budget) (allowed doc) (cost doc))
    {s : DepthSearch.State CapturedDocumentId ResolutionState}
    (h : visitDocument captured maxRichIncludeDepth entry ⟨[], [], ([], (0, 0))⟩ = .ok s) :
    Resolved captured entry s.complete ∧
      Spent captured allowed cost s.complete.toFinset s.data := by
  obtain ⟨hext, hmem⟩ := DepthSearch.visit_extends (includeSearch_keeps hcharges) h
  obtain ⟨added, hadded, hreach⟩ := hext.complete
  rw [nil_append] at hadded
  rw [includes_eq] at hreach
  have hspent := hext.keeps spent_start
  have hentered : s.entered = s.complete.toFinset := by
    rw [DepthSearch.State.entered, hext.stack, nil_append]
  rw [hentered] at hspent
  have hbefore : ∀ earlier id later, s.complete = earlier ++ id :: later →
      ∀ t, Includes captured id t → t ∈ earlier := by
    intro earlier id later hsplit t htarget
    exact DepthSearch.targets_before (hext.settled trivial) hsplit (mem_targets.2 htarget)
  refine ⟨⟨(hext.apart ⟨nodup_nil, by simp⟩).1, fun id => ⟨?_, ?_⟩, ?_, hbefore, ?_⟩, hspent⟩
  · intro hid
    exact hreach id (hadded ▸ hid)
  · intro hid
    induction hid with
    | refl => exact hmem
    | tail _ hincludes ih =>
      obtain ⟨earlier, later, hsplit⟩ := append_of_mem ih
      rw [hsplit]
      exact mem_append_left _ (hbefore earlier _ later hsplit _ hincludes)
  · intro id hid
    obtain ⟨doc, hdocument, -⟩ := hspent.1 id (mem_toFinset.2 hid)
    exact mem_keys.2 ⟨doc, hdocument⟩
  · intro id hid
    rw [← includes_eq]
    exact (hext.settled trivial).acyclic (mem_reverse.2 hid)

theorem Resolved.perm {order : List CapturedDocumentId} (h : Resolved captured entry order)
    (hlen : order.length = captured.documents.entries.length) :
    order.Perm captured.documents.keys := by
  refine (h.nodup.subperm h.captured_of_mem).perm_of_length_le ?_
  rw [hlen, SortedMap.keys, length_map]

/-- What is accepted is resolvable, in an order that has every document once. -/
theorem resolvable_of_ok {graph : ResolvedGraph}
    (h : resolveIncludeGraph captured entry = .ok graph) :
    Resolvable captured entry ∧ graph.order.Perm captured.documents.keys ∧
      ∀ earlier id later, graph.order = earlier ++ id :: later →
        ∀ t, Includes captured id t → t ∈ earlier := by
  obtain ⟨hauth, hentry, s, hvisit, hlen, rfl⟩ := resolveIncludeGraph_ok.1 h
  choose allowed cost hcharges using validateDocumentRanges_metered
  obtain ⟨hresolved, hspent⟩ := visitDocument_resolved hcharges hvisit
  have hperm := hresolved.perm hlen
  refine ⟨⟨hauth, hentry, ?_, ?_, ?_, ?_⟩, hperm, hresolved.before⟩
  · intro src t hincludes
    obtain ⟨doc, hdocument, hedge⟩ := hincludes
    have hsource := hperm.mem_iff.2 (mem_keys.2 ⟨doc, hdocument⟩)
    refine hresolved.captured_of_mem t ((hresolved.mem_iff t).2 ?_)
    exact ((hresolved.mem_iff src).1 hsource).tail ⟨doc, hdocument, hedge⟩
  · intro id hcycle
    obtain ⟨t, ⟨doc, hdocument, -⟩, -⟩ := Relation.TransGen.head'_iff.1 hcycle
    exact hresolved.acyclic id (hperm.mem_iff.2 (mem_keys.2 ⟨doc, hdocument⟩)) hcycle
  · intro id hid
    exact (hresolved.mem_iff id).1 (hperm.mem_iff.2 hid)
  · have hkeys : s.complete.toFinset = captured.documents.keys.toFinset :=
      toFinset_eq_of_perm _ _ hperm
    rw [hkeys] at hspent
    obtain ⟨hallowed, hsum, hlimit⟩ := hspent
    refine (preflightPasses_iff hcharges).2 ⟨?_, hsum ▸ hlimit⟩
    intro id doc hdocument
    obtain ⟨found, hfound, hok⟩ := hallowed id
      (mem_toFinset.2 (mem_keys.2 ⟨doc, hdocument⟩))
    rw [hdocument] at hfound
    cases hfound
    exact hok

theorem ok_of_resolvable (h : Resolvable captured entry)
    (hchains : IncludeChainsWithin captured entry maxRichIncludeDepth) :
    ∃ graph, resolveIncludeGraph captured entry = .ok graph := by
  choose allowed cost hcharges using validateDocumentRanges_metered
  obtain ⟨state, hstate⟩ : ∃ state, visitDocument captured maxRichIncludeDepth entry
      ⟨[], [], ([], (0, 0))⟩ = .ok state := by
    refine DepthSearch.visit_ok (includeSearch_admits hcharges h.targets h.preflight)
      (includes_eq ▸ h.acyclic) h.entry_mem ?_ (by simp) spent_start
    refine DepthSearch.fits_of_paths [] fun path hpath => ?_
    rw [includes_eq] at hpath
    exact hchains path hpath
  obtain ⟨hresolved, -⟩ := visitDocument_resolved hcharges hstate
  have hperm : state.complete.Perm captured.documents.keys := by
    refine (perm_ext_iff_of_nodup hresolved.nodup captured.documents.nodup_keys).2 fun id => ?_
    exact ⟨hresolved.captured_of_mem id, fun hid => (hresolved.mem_iff id).2 (h.reachable id hid)⟩
  have hlen := hperm.length_eq
  rw [SortedMap.keys, length_map] at hlen
  exact ⟨_, resolveIncludeGraph_ok.2 ⟨h.authority, h.entry_mem, state, hstate, hlen, rfl⟩⟩

/-! ## 4. The order of the includes -/

/-- The same documents with their includes written in another order. -/
def CapturedDocumentSet.reorder (captured : CapturedDocumentSet)
    (order : CapturedDocumentId → List CapturedInclude) : CapturedDocumentSet where
  rootAuthority := captured.rootAuthority
  documents := captured.documents.mapValues fun document =>
    { document with includes := order document.id }
  ids := by
    intro entry hentry
    obtain ⟨found, hfound, rfl⟩ := List.mem_map.1 hentry
    exact captured.ids found hfound

def Reorders (captured : CapturedDocumentSet) (order : CapturedDocumentId → List CapturedInclude) :
    Prop :=
  ∀ id doc, captured.documents.get? id = some doc → (order id).Perm doc.includes

variable {order : CapturedDocumentId → List CapturedInclude}

theorem get?_reorder :
    (captured.reorder order).documents.get? id = some doc ↔
      ∃ found, captured.documents.get? id = some found ∧
        { found with includes := order id } = doc := by
  rw [CapturedDocumentSet.reorder, get?_mapValues, Option.map_eq_some_iff]
  refine exists_congr fun found => and_congr_right fun hfound => ?_
  rw [captured.ids _ (get?_eq_some.1 hfound)]

theorem mem_keys_reorder :
    id ∈ (captured.reorder order).documents.keys ↔ id ∈ captured.documents.keys := by
  simp only [SortedMap.mem_keys, get?_reorder]
  constructor
  · intro h
    obtain ⟨-, found, hfound, -⟩ := h
    exact ⟨found, hfound⟩
  · intro h
    obtain ⟨found, hfound⟩ := h
    exact ⟨_, found, hfound, rfl⟩

theorem includes_reorder (h : Reorders captured order) :
    Includes (captured.reorder order) = Includes captured := by
  funext src target
  refine propext ?_
  simp only [Includes, get?_reorder]
  constructor
  · intro hincludes
    obtain ⟨-, ⟨found, hfound, rfl⟩, edge, hedge, htarget⟩ := hincludes
    exact ⟨found, hfound, edge, (h src found hfound).mem_iff.1 hedge, htarget⟩
  · intro hincludes
    obtain ⟨found, hfound, edge, hedge, htarget⟩ := hincludes
    exact ⟨_, ⟨found, hfound, rfl⟩, edge, (h src found hfound).mem_iff.2 hedge, htarget⟩

theorem preflight_reorder (h : Reorders captured order) :
    PreflightPasses (captured.reorder order) ↔ PreflightPasses captured := by
  have hvalues : (captured.reorder order).documents.entries.map Prod.snd =
      (captured.documents.entries.map Prod.snd).map fun doc =>
        { doc with includes := order doc.id } := by
    show ((captured.documents.entries.map fun entry => _).map Prod.snd) = _
    rw [map_map, map_map]
    rfl
  unfold PreflightPasses
  rw [hvalues, foldlM_map]
  refine exists_congr fun budget => SameOk.foldlM (fun before doc hdocument => ?_) budget
  obtain ⟨entry, hentry, rfl⟩ := mem_map.1 hdocument
  have hperm := h entry.1 entry.2 (get?_eq_some.2 hentry)
  intro after
  -- Only the loop over the ranges of the includes differs.
  simp only [validateDocumentRanges, bind_unit_ok, forM_ok, captured.ids entry hentry,
    hperm.mem_iff]

theorem resolvable_reorder (h : Reorders captured order) :
    Resolvable (captured.reorder order) entry ↔ Resolvable captured entry := by
  simp only [resolvable_iff, includes_reorder h, mem_keys_reorder, preflight_reorder h]
  rfl

/-- The includes can be written so that a chain follows the first of each document. -/
theorem exists_straight_order {head : CapturedDocumentId} {chain : List CapturedDocumentId}
    (hchain : (head :: chain).IsChain (Includes captured)) (hnodup : (head :: chain).Nodup) :
    ∃ order, Reorders captured order ∧ (head :: chain).IsChain fun a b =>
      a ∈ captured.documents.keys ∧ ∃ rest, (order a).map CapturedInclude.target = b :: rest := by
  induction chain generalizing head with
  | nil =>
    refine ⟨includesOf captured, fun id doc hdocument => ?_, isChain_singleton _⟩
    rw [includesOf, hdocument]
  | cons next chain ih =>
    obtain ⟨⟨doc, hdocument, edge, hedge, rfl⟩, hchain⟩ := isChain_cons_cons.1 hchain
    obtain ⟨hhead, hnodup⟩ := nodup_cons.1 hnodup
    obtain ⟨order, horder, hfirst⟩ := ih hchain hnodup
    obtain ⟨before, later, hincludes⟩ := append_of_mem hedge
    refine ⟨Function.update order head (edge :: (before ++ later)), fun id found hfound => ?_,
      isChain_cons_cons.2
        ⟨⟨mem_keys.2 ⟨doc, hdocument⟩, _, by rw [Function.update_self]; rfl⟩, ?_⟩⟩
    · by_cases hid : id = head
      · subst hid
        obtain rfl := Option.some.inj (hdocument.symm.trans hfound)
        rw [Function.update_self, hincludes]
        exact perm_middle.symm
      · rw [Function.update_of_ne hid]
        exact horder id found hfound
    · refine hfirst.imp_of_mem_imp fun a b ha _ h => ?_
      rwa [Function.update_of_ne (ne_of_mem_of_not_mem ha hhead)]

theorem over_deep_refused (h : ¬ IncludeChainsWithin captured entry maxRichIncludeDepth) :
    ∃ order, Reorders captured order ∧
      ∀ graph, resolveIncludeGraph (captured.reorder order) entry ≠ .ok graph := by
  simp only [IncludeChainsWithin, not_forall, not_le] at h
  obtain ⟨chain, hchain, hlong⟩ := h
  by_cases hacyclic : ∀ id, ¬ Relation.TransGen (Includes captured) id id
  · have hnodup : (entry :: chain).Nodup := by
      refine (hchain.imp fun _ _ => Relation.TransGen.single).pairwise.imp ?_
      rintro a _ htrans rfl
      exact hacyclic a htrans
    obtain ⟨order, horder, hfirst⟩ := exists_straight_order hchain hnodup
    refine ⟨order, horder, fun graph hok => ?_⟩
    obtain ⟨-, -, s, hvisit, -⟩ := resolveIncludeGraph_ok.1 hok
    refine DepthSearch.visit_too_deep ?_ (Nat.le_of_lt_succ hlong) rfl hvisit
    refine hfirst.imp fun a b ⟨hmem, rest, hrest⟩ => ⟨rest, ?_⟩
    obtain ⟨doc, hdocument⟩ := mem_keys.1 hmem
    simp only [← hrest, DepthSearch.Search.targets, includeSearch, includesOf,
      get?_reorder.2 ⟨doc, hdocument, rfl⟩]
  · obtain ⟨order, horder, -⟩ := exists_straight_order (isChain_singleton entry)
      (nodup_singleton entry)
    refine ⟨order, horder, fun graph hok => hacyclic ?_⟩
    exact ((resolvable_reorder horder).1 (resolvable_of_ok hok).1).acyclic

end Resolution

/-- **Include resolution.** What is accepted is resolvable, in an order of all documents. A
resolvable set without a chain beyond the limit is accepted, however its includes are ordered;
one with such a chain is refused in some order. -/
theorem resolveIncludeGraph_resolvable (captured : CapturedDocumentSet)
    (entry : CapturedDocumentId) :
    (∀ graph, resolveIncludeGraph captured entry = .ok graph →
      Resolvable captured entry ∧ graph.order.Perm captured.documents.keys ∧
        ∀ earlier id later, graph.order = earlier ++ id :: later →
          ∀ target, Includes captured id target → target ∈ earlier) ∧
    (IncludeChainsWithin captured entry maxRichIncludeDepth →
      ((∃ graph, resolveIncludeGraph captured entry = .ok graph) ↔ Resolvable captured entry) ∧
      ∀ order, Reorders captured order →
        ((∃ graph, resolveIncludeGraph (captured.reorder order) entry = .ok graph) ↔
          Resolvable captured entry)) ∧
    (¬ IncludeChainsWithin captured entry maxRichIncludeDepth →
      ∃ order, Reorders captured order ∧
        ∀ graph, resolveIncludeGraph (captured.reorder order) entry ≠ .ok graph) := by
  have hiff : ∀ {others : CapturedDocumentSet},
      IncludeChainsWithin others entry maxRichIncludeDepth →
      ((∃ graph, resolveIncludeGraph others entry = .ok graph) ↔ Resolvable others entry) := by
    intro others hchains
    constructor
    · intro hok
      obtain ⟨graph, hgraph⟩ := hok
      exact (resolvable_of_ok hgraph).1
    · intro hresolvable
      exact ok_of_resolvable hresolvable hchains
  refine ⟨fun graph => resolvable_of_ok,
    fun hchains => ⟨hiff hchains, fun order horder => ?_⟩, over_deep_refused⟩
  rw [← resolvable_reorder horder]
  refine hiff ?_
  rw [IncludeChainsWithin, includes_reorder horder]
  exact hchains

/-! ## 5. A range beyond the bytes -/

def soloId : CapturedDocumentId := ⟨⟨['p'], by decide⟩, ⟨⟨0⟩, by decide⟩, ⟨['p'], by decide⟩⟩

/-- An empty document whose only statement is at its first byte. -/
def soloDocument : CapturedConfigDocument where
  id := soloId
  bytes := []
  digest := ⟨⟨0⟩, by decide⟩
  includes := []
  body := ⟨.empty, .empty, [.compose ⟨['f'], by decide⟩ ⟨0, 1, by decide⟩]⟩

def soloSet : CapturedDocumentSet where
  rootAuthority := soloId.authority
  documents := SortedMap.empty.insert soloId soloDocument
  ids := by
    intro entry hentry
    obtain rfl := List.mem_singleton.1 hentry
    rfl

/-- A document without includes is refused for a source range. -/
theorem soloSet_refused : ¬ ((∃ graph, resolveIncludeGraph soloSet soloId = .ok graph) ↔
    (∀ source target, Includes soloSet source target → target ∈ soloSet.documents.keys) ∧
      (∀ id, ¬ Relation.TransGen (Includes soloSet) id id) ∧
      (∀ id ∈ soloSet.documents.keys, Relation.ReflTransGen (Includes soloSet) soloId id) ∧
      IncludeChainsWithin soloSet soloId maxRichIncludeDepth) := by
  have hnone : ∀ source target, ¬ Includes soloSet source target := by
    intro source target h
    obtain ⟨doc, hdocument, edge, hedge, -⟩ := h
    obtain ⟨-, rfl⟩ := Prod.mk.inj (mem_singleton.1 (get?_eq_some.1 hdocument))
    cases hedge
  have hrefused : resolveIncludeGraph soloSet soloId =
      .error (.preflight (.invalidSourceRange ⟨soloId, ⟨0, 1, by decide⟩⟩ 0)) := by
    rfl
  intro h
  obtain ⟨graph, hgraph⟩ := h.2 ⟨fun source target hedge => absurd hedge (hnone source target),
    fun id hcycle => by
      obtain ⟨target, hedge, -⟩ := Relation.TransGen.head'_iff.1 hcycle
      exact hnone id target hedge,
    fun id hid => by
      rw [mem_singleton.1 hid],
    fun chain hchain => by
      cases chain with
      | nil => decide
      | cons target chain => exact absurd (isChain_cons_cons.1 hchain).1 (hnone _ _)⟩
  rw [hrefused] at hgraph
  cases hgraph

end Malm.Config
