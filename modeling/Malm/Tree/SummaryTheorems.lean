/-
Malm.Tree.SummaryTheorems — a graph is accepted for its unfolded tree.

A visit adds what one entry adds (`visitOccurrence_ok`), so the loop succeeds exactly when
the entries are consistent and their totals within the limits (`foldlM_visit_ok`). Supplied
objects are known by their identities, whatever their order (`indexObjects_ok`).
-/
import Malm.Tree.Unfolding

namespace Malm.Tree

open Checks List Option Except WalkState SortedMap

variable {listed : List Occurrence} {state : WalkState} {summary : TreeSummary}

/-! ## 1. What a visit adds -/

def SameLengths (lengths : List (Digest × Nat)) : Prop :=
  ∀ digest byteLen otherLen, (digest, byteLen) ∈ lengths → (digest, otherLen) ∈ lengths →
    byteLen = otherLen

theorem SameLengths.of_subset {lengths more : List (Digest × Nat)} (h : SameLengths more)
    (hsubset : lengths ⊆ more) : SameLengths lengths :=
  fun d byteLen otherLen hfirst hsecond =>
    h d byteLen otherLen (hsubset hfirst) (hsubset hsecond)

theorem sameLengths_cons (d : Digest) (byteLen : Nat) {lengths : List (Digest × Nat)}
    (h : SameLengths lengths) :
    SameLengths ((d, byteLen) :: lengths) ↔
      (lengths.lookup d).filter (fun first => first ≠ byteLen) = none := by
  have hmem : ∀ found, lengths.lookup d = some found → (d, found) ∈ lengths := by
    intro found hlookup
    obtain ⟨before, after, heq, -⟩ := lookup_eq_some_iff.1 hlookup
    rw [heq]
    exact mem_append_right _ mem_cons_self
  rw [filter_eq_none_iff]
  simp only [decide_eq_true_eq, not_not]
  constructor
  · intro hsame found hlookup
    exact hsame d found byteLen (mem_cons_of_mem _ (hmem found hlookup))
      mem_cons_self
  · intro hlookup other first snd hfirst hsecond
    -- the lookup finds one of the lengths that were noted, and they are all the same
    have hfound : ∀ noted, (d, noted) ∈ lengths → noted = byteLen := by
      intro noted hnoted
      cases hget : lengths.lookup d with
      | none =>
        have hnone := lookup_eq_none_iff.1 hget _ hnoted
        simp at hnone
      | some found =>
        rw [h d noted found hnoted (hmem found hget), hlookup found hget]
    rcases mem_cons.1 hfirst with heq | hfirst
    · cases heq
      rcases mem_cons.1 hsecond with heq | hsecond
      · cases heq
        rfl
      · exact (hfound snd hsecond).symm
    · rcases mem_cons.1 hsecond with heq | hsecond
      · cases heq
        exact hfound first hfirst
      · exact h other first snd hfirst hsecond

def WalkState.add (state : WalkState) (occurrence : Occurrence) : WalkState where
  entries := state.entries + 1
  fileBytes := state.fileBytes + occurrence.fileBytes
  depth := max state.depth occurrence.names.length
  fileLengths := occurrence.fileLength.toList ++ state.fileLengths
  links :=
    match occurrence.entry.kind with
    | .safeRelativeSymlink digest => state.links.insert (pathOf occurrence.names) digest.val
    | _ => state.links

/-- The totals of a state are within the limits, and its lengths agree. -/
structure WalkState.Fits (state : WalkState) : Prop where
  entries : state.entries ≤ maxTreeEntries
  fileBytes : state.fileBytes ≤ maxTreeAggregateFileBytes
  lengths : SameLengths state.fileLengths

variable {sha256 : List UInt8 → Digest} {trees : SortedMap Digest (TreeObject sha256)}
  {symlinks : SortedMap Digest SymlinkObject}

section Visit

variable {state after : WalkState} {occurrence : Occurrence}

/-- What an entry has to be on its own. -/
structure Entered (trees : SortedMap Digest (TreeObject sha256))
    (symlinks : SortedMap Digest SymlinkObject) (occurrence : Occurrence) : Prop where
  depth : occurrence.names.length ≤ maxTreeDepth
  pathBytes : (pathOf occurrence.names).byteLen ≤ maxTreePathBytes
  directory : ∀ child, occurrence.entry.kind = .directory child →
    ∃ tree, trees.get? child.val = some tree ∧ occurrence.entry.mode = tree.rootMode
  link : ∀ digest, occurrence.entry.kind = .safeRelativeSymlink digest →
    symlinks.contains digest.val = true

theorem visitOccurrence_ok (hfits : state.Fits) :
    visitOccurrence trees symlinks state occurrence = .ok after ↔
      Entered trees symlinks occurrence ∧ (state.add occurrence).Fits ∧
        after = state.add occurrence := by
  obtain ⟨names, name, mode, kind⟩ := occurrence
  have henter : ∀ {path : Text} {depth : Nat} {entered : WalkState},
      enterEntry path depth state = .ok entered ↔
        depth ≤ maxTreeDepth ∧ path.byteLen ≤ maxTreePathBytes ∧
          state.entries + 1 ≤ maxTreeEntries ∧
          { state with entries := state.entries + 1, depth := max state.depth depth } =
            entered := by
    intro path depth entered
    simp only [enterEntry, bind_ok, exists_unit, reject_ok, pure_ok, not_lt]
  simp only [visitOccurrence, bind_ok, henter]
  cases kind with
  | file d byteLen =>
    have hlengths := sameLengths_cons d.val byteLen hfits.lengths
    constructor
    · intro h
      obtain ⟨entered, ⟨hdepth, hpath, hentries, rfl⟩, hfile⟩ := h
      simp only [enterFile, bind_ok, exists_unit, reject_ok,
        rejectSome_ok, pure_ok, not_lt] at hfile
      obtain ⟨hbytes, hsame, rfl⟩ := hfile
      exact ⟨⟨hdepth, hpath, by simp, by simp⟩, ⟨hentries, hbytes, hlengths.2 hsame⟩, rfl⟩
    · intro h
      obtain ⟨hentered, hadded, rfl⟩ := h
      refine ⟨_, ⟨hentered.depth, hentered.pathBytes, hadded.entries, rfl⟩, ?_⟩
      simp only [enterFile, bind_ok, exists_unit, reject_ok, rejectSome_ok, pure_ok, not_lt]
      exact ⟨hadded.fileBytes, hlengths.1 hadded.lengths, rfl⟩
  | directory child =>
    simp only [bind_ok, require_ok, exists_unit, reject_ok, pure_ok, not_not]
    constructor
    · intro h
      obtain ⟨entered, ⟨hdepth, hpath, hentries, rfl⟩, tree, htree, hmode, rfl⟩ := h
      refine ⟨⟨hdepth, hpath, ?_, by simp⟩, ⟨hentries, hfits.fileBytes, hfits.lengths⟩, rfl⟩
      intro other heq
      cases heq
      exact ⟨tree, htree, hmode⟩
    · intro h
      obtain ⟨hentered, hadded, rfl⟩ := h
      obtain ⟨tree, htree, hmode⟩ := hentered.directory child rfl
      exact ⟨_, ⟨hentered.depth, hentered.pathBytes, hadded.entries, rfl⟩, tree, htree, hmode, rfl⟩
  | safeRelativeSymlink d =>
    simp only [enterSymlink, bind_ok, exists_unit, reject_ok, pure_ok, Bool.not_eq_false]
    constructor
    · intro h
      obtain ⟨entered, ⟨hdepth, hpath, hentries, rfl⟩, hcontains, rfl⟩ := h
      refine ⟨⟨hdepth, hpath, by simp, ?_⟩, ⟨hentries, hfits.fileBytes, hfits.lengths⟩, rfl⟩
      intro other heq
      cases heq
      exact hcontains
    · intro h
      obtain ⟨hentered, hadded, rfl⟩ := h
      exact ⟨_, ⟨hentered.depth, hentered.pathBytes, hadded.entries, rfl⟩, hentered.link d rfl,
        rfl⟩

theorem foldl_add : ∀ (listed : List Occurrence) (state : WalkState),
    (listed.foldl add state).entries = state.entries + listed.length ∧
      (listed.foldl add state).fileBytes =
        state.fileBytes + (listed.map Occurrence.fileBytes).sum ∧
      (listed.foldl add state).depth =
        max state.depth (listed.toFinset.sup fun occurrence => occurrence.names.length) ∧
      ∀ noted, noted ∈ (listed.foldl add state).fileLengths ↔
        noted ∈ state.fileLengths ∨ ∃ occurrence ∈ listed, occurrence.fileLength = some noted
  | [], state => by simp
  | occurrence :: listed, state => by
    obtain ⟨hentries, hbytes, hdepth, hlengths⟩ := foldl_add listed (state.add occurrence)
    rw [foldl_cons]
    refine ⟨?_, ?_, ?_, ?_⟩
    · rw [hentries, length_cons]
      exact Nat.add_right_comm _ _ _ |>.trans (Nat.add_assoc _ _ _)
    · rw [hbytes, map_cons, sum_cons]
      exact Nat.add_assoc _ _ _
    · rw [hdepth, toFinset_cons, Finset.sup_insert]
      exact max_assoc _ _ _
    · intro noted
      rw [hlengths]
      simp only [add, mem_append, mem_toList, exists_mem_cons_iff]
      tauto

theorem WalkState.Fits.of_add
    (h : (listed.foldl add state).Fits) : state.Fits := by
  obtain ⟨hentries, hbytes, -, hlengths⟩ := foldl_add listed state
  have hbound := h.entries
  have htotal := h.fileBytes
  rw [hentries] at hbound
  rw [hbytes] at htotal
  exact ⟨by omega, by omega, h.lengths.of_subset fun noted hnoted => (hlengths noted).2 (.inl hnoted)⟩

theorem foldlM_visit_ok : ∀ {listed : List Occurrence} {state : WalkState}, state.Fits →
    (listed.foldlM (visitOccurrence trees symlinks) state = .ok after ↔
      (∀ occurrence ∈ listed, Entered trees symlinks occurrence) ∧
        (listed.foldl add state).Fits ∧ after = listed.foldl add state)
  | [], state, hfits => by
    rw [foldlM_nil, pure_ok]
    simp [hfits, eq_comm]
  | occurrence :: listed, state, hfits => by
    rw [foldlM_cons, bind_ok, foldl_cons, forall_mem_cons]
    constructor
    · intro h
      obtain ⟨mid, hfirst, hrest⟩ := h
      obtain ⟨hentered, hadded, rfl⟩ := (visitOccurrence_ok hfits).1 hfirst
      obtain ⟨hall, hlast, heq⟩ := (foldlM_visit_ok hadded).1 hrest
      exact ⟨⟨hentered, hall⟩, hlast, heq⟩
    · intro h
      obtain ⟨⟨hentered, hall⟩, hlast, heq⟩ := h
      have hadded : (state.add occurrence).Fits := hlast.of_add
      exact ⟨_, (visitOccurrence_ok hfits).2 ⟨hentered, hadded, rfl⟩,
        (foldlM_visit_ok hadded).2 ⟨hall, hlast, heq⟩⟩

end Visit

/-! ## 2. Accepted graphs -/

section Graphs

variable {root : Digest} {all : Finset Occurrence}

theorem unfolds_listing (hshallow : Shallow trees root) :
    Unfolds trees root (unfoldTree trees maxTreeDepth root []).toFinset := by
  intro occurrence
  rw [List.mem_toFinset, mem_unfoldTree rfl]
  constructor
  · exact fun h => h.1
  · intro hoccurs
    have hbound := hshallow _ _ hoccurs.nodeAt
    obtain ⟨front, d, tree, -, -, -, hnames⟩ := id hoccurs
    refine ⟨hoccurs, nil_prefix, ?_, ?_⟩
    · rw [hnames]
      simp
    · rw [length_nil]
      omega

theorem Unfolds.eq_listing (hunfolds : Unfolds trees root all) (hshallow : Shallow trees root) :
    all = (unfoldTree trees maxTreeDepth root []).toFinset := by
  ext occurrence
  rw [hunfolds, unfolds_listing hshallow]

theorem Unfolds.shallow (hunfolds : Unfolds trees root all) (hlimits : WithinLimits all) :
    Shallow trees root := by
  intro names node hnode
  by_cases hnil : names = []
  · rw [hnil]
    exact Nat.zero_le _
  · obtain ⟨e, hoccurs, -⟩ := occurs_of_nodeAt hnode hnil
    have hmem : (⟨names, e⟩ : Occurrence) ∈ all := (hunfolds _).2 hoccurs
    exact (Finset.le_sup (f := fun occurrence : Occurrence => occurrence.names.length) hmem).trans
      hlimits.depth

theorem summaryOf_toFinset (hnodup : listed.Nodup) :
    summaryOf listed.toFinset =
      ⟨(listed.foldl add .default).entries,
        (listed.foldl WalkState.add .default).fileBytes,
        (listed.foldl WalkState.add .default).depth⟩ := by
  obtain ⟨hentries, hbytes, hdepth, -⟩ := foldl_add listed .default
  rw [hentries, hbytes, hdepth, summaryOf, toFinset_card_of_nodup hnodup, sum_toFinset _ hnodup]
  simp [WalkState.default]

theorem walkTree_ok (hunfolds : Unfolds trees root all) (hshallow : Shallow trees root)
    (hroot : trees.contains root = true) :
    walkTree trees symlinks maxTreeDepth root [] 0 [] .default = .ok state ↔
      Consistent trees symlinks root all ∧ WithinLimits all ∧
        state = (unfoldTree trees maxTreeDepth root []).foldl add .default := by
  have hall := hunfolds.eq_listing hshallow
  have hnode : nodeAt trees root [] = some (.directory root) := rfl
  have hloop : walkTree trees symlinks maxTreeDepth root [] 0 [] .default =
      (unfoldTree trees maxTreeDepth root []).foldlM (visitOccurrence trees symlinks) .default :=
    walkTree_eq hshallow hnode hroot (by simp) (by simp)
  have hstart : default.Fits := by
    refine ⟨Nat.zero_le _, Nat.zero_le _, ?_⟩
    intro d byteLen otherLen hmem
    cases hmem
  have hsummary := summaryOf_toFinset (nodup_unfoldTree trees maxTreeDepth root []).1
  obtain ⟨-, -, -, hlengths⟩ := foldl_add (unfoldTree trees maxTreeDepth root []) .default
  rw [hloop, foldlM_visit_ok hstart]
  rw [← hall] at hsummary
  have hmem : ∀ occurrence, occurrence ∈ unfoldTree trees maxTreeDepth root [] ↔
      occurrence ∈ all := by
    intro occurrence
    rw [hall, List.mem_toFinset]
  simp only [hmem] at hlengths ⊢
  constructor
  · intro h
    obtain ⟨hentered, hfits, heq⟩ := h
    refine ⟨⟨hroot, fun occurrence hin => (hentered occurrence hin).directory,
      fun occurrence hin => (hentered occurrence hin).link, ?_⟩, ⟨?_, ?_, ?_,
      fun occurrence hin => (hentered occurrence hin).pathBytes⟩, heq⟩
    · intro occurrence hin other hother d byteLen otherLen hlen hotherLength
      exact hfits.lengths d byteLen otherLen
        ((hlengths _).2 (.inr ⟨occurrence, hin, hlen⟩))
        ((hlengths _).2 (.inr ⟨other, hother, hotherLength⟩))
    · rw [hsummary]
      exact hfits.entries
    · rw [hsummary]
      exact hfits.fileBytes
    · exact Finset.sup_le fun occurrence hin => (hentered occurrence hin).depth
  · intro h
    obtain ⟨hconsistent, hlimits, heq⟩ := h
    have hentries := hlimits.entries
    have hbytes := hlimits.fileBytes
    rw [hsummary] at hentries hbytes
    refine ⟨fun occurrence hin => ⟨?_, hlimits.pathBytes occurrence hin,
      hconsistent.directories occurrence hin, hconsistent.links occurrence hin⟩,
      ⟨hentries, hbytes, ?_⟩, heq⟩
    · exact (Finset.le_sup (f := fun occurrence : Occurrence => occurrence.names.length) hin).trans
        hlimits.depth
    · intro d byteLen otherLen hfirst hsecond
      rcases (hlengths _).1 hfirst with hnone | hfirst
      · cases hnone
      rcases (hlengths _).1 hsecond with hnone | hsecond
      · cases hnone
      obtain ⟨occurrence, hin, hlen⟩ := hfirst
      obtain ⟨other, hother, hotherLength⟩ := hsecond
      exact hconsistent.lengths occurrence hin other hother d byteLen otherLen hlen
        hotherLength

theorem validateSymlinks_ok (hunfolds : Unfolds trees root all)
    (hwalk : walkTree trees symlinks maxTreeDepth root [] 0 [] .default = .ok state) :
    validateSymlinks state.links symlinks = .ok () ↔ SafelyLinked trees symlinks root all := by
  have hwalked := walkTree_walked hwalk
  have hsafe : SafeLinks state.links symlinks ↔ ∀ occurrence ∈ all, ∀ d obj,
      occurrence.entry.kind = .safeRelativeSymlink d →
      symlinks.get? d.val = some obj →
      ∃ resolved, safeTargetPath (pathOf occurrence.names) obj.val = .ok resolved := by
    constructor
    · intro hlinks occurrence hin d obj hkind hobj
      have hnode := ((hunfolds _).1 hin).nodeAt
      rw [hkind] at hnode
      exact hlinks _ _ obj ((hwalked.linkAt _ _).1 hnode).2 hobj
    · intro htargets path d obj hlink hobj
      obtain ⟨front, name, hfront, hname, rfl⟩ :=
        hwalked.plain path (mem_keys.2 ⟨d, hlink⟩)
      have hplain : ∀ other ∈ front ++ [name], Plain other :=
        forall_mem_append.2 ⟨hfront, forall_mem_singleton.2 hname⟩
      obtain ⟨e, hoccurs, hkind⟩ :=
        occurs_of_nodeAt ((hwalked.linkAt _ d).2 ⟨hplain, hlink⟩) (by simp)
      cases hentry : e.kind with
      | file other byteLen => rw [hentry] at hkind; cases hkind
      | directory other => rw [hentry] at hkind; cases hkind
      | safeRelativeSymlink other =>
        rw [hentry] at hkind
        cases hkind
        exact htargets _ ((hunfolds _).2 hoccurs) other obj hentry hobj
  have hterminates : (∀ occurrence ∈ all, Terminates trees root symlinks [] occurrence.names) ↔
      ∀ names node, nodeAt trees root names = some node →
        Terminates trees root symlinks [] names := by
    constructor
    · intro hall names node hnode
      by_cases hnil : names = []
      · exact ⟨1, .found [], by rw [hnil]; rfl⟩
      · obtain ⟨e, hoccurs, -⟩ := occurs_of_nodeAt hnode hnil
        exact hall _ ((hunfolds _).2 hoccurs)
    · intro hall occurrence hin
      exact hall _ _ ((hunfolds _).1 hin).nodeAt
  constructor
  · intro hvalid
    have hlinks : SafeLinks state.links symlinks := by
      simp only [validateSymlinks, bind_ok] at hvalid
      obtain ⟨ts, htargets, -⟩ := hvalid
      intro path d obj hlink hobj
      obtain ⟨hkeys, hmem⟩ := resolveTargets_ok htargets
      have hkey : path ∈ ts.map Prod.fst := by
        rw [hkeys]
        exact mem_keys.2 ⟨d, hlink⟩
      obtain ⟨⟨found, resolved⟩, htarget, rfl⟩ := mem_map.1 hkey
      obtain ⟨digest', object', hlink', hobj', hresolved⟩ := (hmem _ _).1 htarget
      obtain rfl := some.inj (hlink.symm.trans hlink')
      obtain rfl := some.inj (hobj.symm.trans hobj')
      exact ⟨resolved, hresolved⟩
    exact ⟨hsafe.1 hlinks,
      hterminates.2 ((validateSymlinks_iff_terminates hwalked hlinks).1 hvalid)⟩
  · intro hlinked
    exact (validateSymlinks_iff_terminates hwalked (hsafe.2 hlinked.targets)).2
      (hterminates.1 hlinked.resolves)

/-- A graph is accepted exactly for a finite, consistent, safely linked tree within the limits. -/
theorem validateGraph_ok :
    validateGraph root trees symlinks = .ok summary ↔
      ∃ all, Unfolds trees root all ∧ Consistent trees symlinks root all ∧ WithinLimits all ∧
        SafelyLinked trees symlinks root all ∧ summary = summaryOf all := by
  simp only [validateGraph, bind_ok, exists_unit, reject_ok, pure_ok, Bool.not_eq_false]
  have hsummary := summaryOf_toFinset (nodup_unfoldTree trees maxTreeDepth root []).1
  constructor
  · intro h
    obtain ⟨hroot, state, hwalk, hlinks, rfl⟩ := h
    have hshallow : Shallow trees root := (walkTree_walked hwalk).depth
    have hunfolds := unfolds_listing hshallow
    obtain ⟨hconsistent, hlimits, heq⟩ := (walkTree_ok hunfolds hshallow hroot).1 hwalk
    refine ⟨_, hunfolds, hconsistent, hlimits, (validateSymlinks_ok hunfolds hwalk).1 hlinks, ?_⟩
    rw [hsummary, heq]
  · intro h
    obtain ⟨all, hunfolds, hconsistent, hlimits, hlinked, rfl⟩ := h
    have hshallow := hunfolds.shallow hlimits
    have hwalk := (walkTree_ok hunfolds hshallow hconsistent.root).2 ⟨hconsistent, hlimits, rfl⟩
    refine ⟨hconsistent.root, _, hwalk, (validateSymlinks_ok hunfolds hwalk).2 hlinked, ?_⟩
    rw [hunfolds.eq_listing hshallow, hsummary]

end Graphs

/-! ## 3. The supplied objects -/

section Index

variable {α : Type} {identity : α → Digest}

theorem IndexOf.unique {objects : List α} {index other : SortedMap Digest α}
    (h : IndexOf identity objects index) (hother : IndexOf identity objects other) :
    index = other := by
  refine ext_get? fun d => ?_
  ext object
  rw [h, hother]

variable [DecidableEq α]

/-- One object of the loop of `TreeGraphV1::new`. -/
def indexObject (identity : α → Digest) (index : SortedMap Digest α) (object : α) :
    Except TreeGraphError (SortedMap Digest α) := do
  reject ((index.get? (identity object)).any (· ≠ object))
    (.objectDigestCollision (identity object))
  return index.insert (identity object) object

theorem get?_insert_object {index : SortedMap Digest α} {obj : α}
    (hagrees : (index.get? (identity obj)).any (· ≠ obj) ≠ true) (d : Digest)
    (found : α) :
    (index.insert (identity obj) obj).get? d = some found ↔
      index.get? d = some found ∨ (found = obj ∧ identity obj = d) := by
  rw [get?_insert]
  by_cases hdigest : d = identity obj
  · subst hdigest
    rw [if_pos rfl, some.injEq]
    constructor
    · rintro rfl
      exact .inr ⟨rfl, rfl⟩
    · intro h
      rcases h with hget | ⟨rfl, -⟩
      · rw [hget] at hagrees
        simpa using Eq.symm (by simpa using hagrees)
      · rfl
  · rw [if_neg hdigest]
    constructor
    · exact .inl
    · intro h
      rcases h with hget | ⟨-, rfl⟩
      · exact hget
      · exact absurd rfl hdigest

variable (identity) in
theorem indexObjects_loop : ∀ (objects : List α) (index : SortedMap Digest α),
    (∃ d, objects.foldlM (indexObject identity) index =
        .error (.objectDigestCollision d) ∧
      ∀ after : SortedMap Digest α, ¬ ∀ d obj, after.get? d = some obj ↔
        index.get? d = some obj ∨ (obj ∈ objects ∧ identity obj = d)) ∨
    ∃ after : SortedMap Digest α, objects.foldlM (indexObject identity) index = .ok after ∧
      ∀ d obj, after.get? d = some obj ↔
        index.get? d = some obj ∨ (obj ∈ objects ∧ identity obj = d)
  | [], index => Or.inr ⟨index, rfl, by simp⟩
  | obj :: objects, index => by
    rw [foldlM_cons]
    by_cases hcollides : (index.get? (identity obj)).any (· ≠ obj) = true
    · left
      have hfail : indexObject identity index obj =
          .error (.objectDigestCollision (identity obj)) := by
        rw [indexObject, reject, if_pos hcollides]
        rfl
      refine ⟨identity obj, by rw [hfail, error_bind], ?_⟩
      intro after hafter
      obtain ⟨found, hfound, hne⟩ := (any_eq_true _ _).1 hcollides
      have hold := (hafter (identity obj) found).2 (.inl hfound)
      have hnew := (hafter (identity obj) obj).2 (.inr ⟨mem_cons_self, rfl⟩)
      rw [hold] at hnew
      exact of_decide_eq_true hne (some.inj hnew)
    · have hstep : ∀ d found, (index.insert (identity obj) obj).get? d =
          some found ∨ (found ∈ objects ∧ identity found = d) ↔
            index.get? d = some found ∨
              (found ∈ obj :: objects ∧ identity found = d) := by
        intro d found
        rw [get?_insert_object hcollides, mem_cons]
        constructor
        · intro h
          rcases h with (hget | ⟨rfl, hdigest⟩) | ⟨hmem, hdigest⟩
          · exact .inl hget
          · exact .inr ⟨.inl rfl, hdigest⟩
          · exact .inr ⟨.inr hmem, hdigest⟩
        · intro h
          rcases h with hget | ⟨rfl | hmem, hdigest⟩
          · exact .inl (.inl hget)
          · exact .inl (.inr ⟨rfl, hdigest⟩)
          · exact .inr ⟨hmem, hdigest⟩
      have hok : indexObject identity index obj =
          .ok (index.insert (identity obj) obj) := by
        rw [indexObject, reject, if_neg hcollides]
        rfl
      rw [hok, ok_bind]
      rcases indexObjects_loop objects (index.insert (identity obj) obj)
        with ⟨d, hloop, hnone⟩ | ⟨after, hloop, hafter⟩
      · refine .inl ⟨d, hloop, ?_⟩
        intro after hafter
        exact hnone after fun d found => (hafter d found).trans (hstep d found).symm
      · exact .inr ⟨after, hloop, fun d found =>
          (hafter d found).trans (hstep d found)⟩

variable (identity) in
theorem indexObjects_cases (objects : List α) :
    (∃ d, indexObjects identity objects = .error (.objectDigestCollision d) ∧
      ∀ index, ¬ IndexOf identity objects index) ∨
    ∃ index, indexObjects identity objects = .ok index ∧ IndexOf identity objects index := by
  rcases indexObjects_loop identity objects .empty
    with ⟨d, hloop, hnone⟩ | ⟨index, hloop, hindex⟩
  · refine .inl ⟨d, hloop, ?_⟩
    intro index hindex
    refine hnone index fun d obj => ?_
    rw [hindex, get?_empty]
    simp
  · refine .inr ⟨index, hloop, fun d obj => ?_⟩
    rw [hindex, get?_empty]
    simp

theorem indexObjects_ok {objects : List α} {index : SortedMap Digest α} :
    indexObjects identity objects = .ok index ↔ IndexOf identity objects index := by
  rcases indexObjects_cases identity objects
    with ⟨d, hcollision, hnone⟩ | ⟨found, hfound, hindex⟩
  · rw [hcollision]
    constructor
    · intro h
      cases h
    · intro h
      exact absurd h (hnone index)
  · rw [hfound, ok.injEq]
    constructor
    · rintro rfl
      exact hindex
    · exact hindex.unique

end Index

section Result

/-- Two results are the same, or both report objects that share an identity. -/
def SameOutcome (left right : Except TreeGraphError (TreeGraph sha256)) : Prop :=
  left = right ∨ ∃ digest other, left = .error (.objectDigestCollision digest) ∧
    right = .error (.objectDigestCollision other)

theorem TreeGraph.new_ok {root : Digest} {trees : List (TreeObject sha256)}
    {symlinks : List SymlinkObject} :
    (∃ graph, TreeGraph.new root trees symlinks = .ok graph ∧ graph.summary = summary) ↔
      ∃ treeIndex symlinkIndex, indexObjects treeObjectDigest trees = .ok treeIndex ∧
        indexObjects (symlinkObjectDigest sha256) symlinks = .ok symlinkIndex ∧
        validateGraph root treeIndex symlinkIndex = .ok summary := by
  simp only [TreeGraph.new, bind_ok]
  constructor
  · intro h
    obtain ⟨graph, ⟨treeIndex, htrees, symlinkIndex, hsymlinks, hgraph⟩, rfl⟩ := h
    refine ⟨treeIndex, symlinkIndex, htrees, hsymlinks, ?_⟩
    split at hgraph
    · rename_i summary hvalid
      cases hgraph
      exact hvalid
    · cases hgraph
  · intro h
    obtain ⟨treeIndex, symlinkIndex, htrees, hsymlinks, hvalid⟩ := h
    refine ⟨⟨root, treeIndex, symlinkIndex, summary, hvalid⟩,
      ⟨treeIndex, htrees, symlinkIndex, hsymlinks, ?_⟩, rfl⟩
    split
    · rename_i found hfound
      obtain rfl := ok.inj (hvalid.symm.trans hfound)
      rfl
    · rename_i error herror
      rw [hvalid] at herror
      cases herror

/-- **The summary of the unfolded tree**: a graph is accepted with this summary exactly when
identities name one object and its tree is consistent, within the limits and safely linked. -/
theorem TreeGraph.new_unfolds (root : Digest) (trees : List (TreeObject sha256))
    (symlinks : List SymlinkObject) :
    (∀ summary, (∃ graph, TreeGraph.new root trees symlinks = .ok graph ∧
        graph.summary = summary) ↔
      ∃ treeIndex symlinkIndex all, IndexOf treeObjectDigest trees treeIndex ∧
        IndexOf (symlinkObjectDigest sha256) symlinks symlinkIndex ∧
        Unfolds treeIndex root all ∧ Consistent treeIndex symlinkIndex root all ∧
        WithinLimits all ∧ SafelyLinked treeIndex symlinkIndex root all ∧
        summary = summaryOf all) ∧
    ∀ (trees' : List (TreeObject sha256)) (symlinks' : List SymlinkObject),
      (∀ tree, tree ∈ trees ↔ tree ∈ trees') → (∀ object, object ∈ symlinks ↔ object ∈ symlinks') →
      SameOutcome (TreeGraph.new root trees symlinks) (TreeGraph.new root trees' symlinks') := by
  constructor
  · intro summary
    simp only [TreeGraph.new_ok, indexObjects_ok, validateGraph_ok]
    constructor
    · intro h
      obtain ⟨treeIndex, symlinkIndex, htrees, hsymlinks, all, hvalid⟩ := h
      exact ⟨treeIndex, symlinkIndex, all, htrees, hsymlinks, hvalid⟩
    · intro h
      obtain ⟨treeIndex, symlinkIndex, all, htrees, hsymlinks, hvalid⟩ := h
      exact ⟨treeIndex, symlinkIndex, htrees, hsymlinks, all, hvalid⟩
  · intro trees' symlinks' htrees hsymlinks
    have hsameTrees : ∀ index, IndexOf treeObjectDigest trees index ↔
        IndexOf treeObjectDigest trees' index := by
      intro index
      simp only [IndexOf, htrees]
    have hsameSymlinks : ∀ index, IndexOf (symlinkObjectDigest sha256) symlinks index ↔
        IndexOf (symlinkObjectDigest sha256) symlinks' index := by
      intro index
      simp only [IndexOf, hsymlinks]
    rcases indexObjects_cases treeObjectDigest trees
      with ⟨digest, hcollision, hnone⟩ | ⟨treeIndex, hindex, htreeIndex⟩
    · rcases indexObjects_cases treeObjectDigest trees'
        with ⟨other, hother, -⟩ | ⟨index, -, hsome⟩
      · right
        refine ⟨digest, other, ?_, ?_⟩
        · rw [TreeGraph.new, hcollision]
          rfl
        · rw [TreeGraph.new, hother]
          rfl
      · exact absurd ((hsameTrees index).2 hsome) (hnone index)
    have hindex' := indexObjects_ok.2 ((hsameTrees treeIndex).1 htreeIndex)
    rcases indexObjects_cases (symlinkObjectDigest sha256) symlinks
      with ⟨digest, hcollision, hnone⟩ | ⟨symlinkIndex, hlinkIndex, hsymlinkIndex⟩
    · rcases indexObjects_cases (symlinkObjectDigest sha256) symlinks'
        with ⟨other, hother, -⟩ | ⟨index, -, hsome⟩
      · right
        refine ⟨digest, other, ?_, ?_⟩
        · rw [TreeGraph.new, hindex, ok_bind, hcollision]
          rfl
        · rw [TreeGraph.new, hindex', ok_bind, hother]
          rfl
      · exact absurd ((hsameSymlinks index).2 hsome) (hnone index)
    have hlinkIndex' := indexObjects_ok.2 ((hsameSymlinks symlinkIndex).1 hsymlinkIndex)
    left
    rw [TreeGraph.new, TreeGraph.new, hindex, hindex', hlinkIndex, hlinkIndex']

end Result

/-! ## 4. A tree with an unsafe link -/

theorem absoluteTarget_valid : validateSymlinkTarget ['/', 'b'] = .ok () := by decide

theorem rootlessDigest_lt : (Digest.mk 0).value < 16 ^ 64 := by decide

def absoluteLink : TreeEntry :=
  .safeRelativeSymlink ⟨['a'], sampleName_valid⟩ ⟨⟨0⟩, rootlessDigest_lt⟩

theorem absoluteEntries_sorted : sortEntries [absoluteLink] = [absoluteLink] := by decide

theorem absoluteEntries_valid : checkTree (fun _ => ⟨0⟩) 0o755#32 [absoluteLink] = .ok () := by
  decide

def absoluteTree : TreeObject fun _ => ⟨0⟩ :=
  ⟨0o755#32, [absoluteLink], absoluteEntries_sorted, absoluteEntries_valid⟩

def absoluteObject : SymlinkObject := ⟨['/', 'b'], absoluteTarget_valid⟩

theorem absoluteTree_index :
    IndexOf treeObjectDigest [absoluteTree] (empty.insert ⟨0⟩ absoluteTree) :=
  indexObjects_ok.1 rfl

theorem absoluteObject_index :
    IndexOf (symlinkObjectDigest fun _ => ⟨0⟩) [absoluteObject]
      (empty.insert ⟨0⟩ absoluteObject) :=
  indexObjects_ok.1 rfl

/-- The objects are there within all limits, but the link leads out. -/
theorem absoluteTree_refused :
    (∃ treeIndex symlinkIndex all, IndexOf treeObjectDigest [absoluteTree] treeIndex ∧
      IndexOf (symlinkObjectDigest fun _ => ⟨0⟩) [absoluteObject] symlinkIndex ∧
      Unfolds treeIndex ⟨0⟩ all ∧ Consistent treeIndex symlinkIndex ⟨0⟩ all ∧ WithinLimits all) ∧
    ∀ graph, TreeGraph.new ⟨0⟩ [absoluteTree] [absoluteObject] ≠ .ok graph := by
  have hwalk : walkTree (empty.insert ⟨0⟩ absoluteTree)
      (empty.insert ⟨0⟩ absoluteObject) maxTreeDepth ⟨0⟩ [] 0 [] .default =
        .ok ⟨1, 0, 1, [], empty.insert ['a'] ⟨0⟩⟩ :=
    rfl
  constructor
  · have hshallow : Shallow (empty.insert ⟨0⟩ absoluteTree) ⟨0⟩ :=
      (walkTree_walked hwalk).depth
    obtain ⟨hconsistent, hlimits, -⟩ :=
      (walkTree_ok (unfolds_listing hshallow) hshallow (by decide +kernel)).1 hwalk
    exact ⟨_, _, _, absoluteTree_index, absoluteObject_index, unfolds_listing hshallow,
      hconsistent, hlimits⟩
  · intro graph h
    obtain ⟨treeIndex, symlinkIndex, htrees, hsymlinks, hvalid⟩ :=
      TreeGraph.new_ok.1 ⟨graph, h, rfl⟩
    rw [indexObjects_ok] at htrees hsymlinks
    obtain rfl := htrees.unique absoluteTree_index
    obtain rfl := hsymlinks.unique absoluteObject_index
    have hrefused : (validateGraph ⟨0⟩ (empty.insert ⟨0⟩ absoluteTree)
        (empty.insert ⟨0⟩ absoluteObject)).toOption = none := by
      decide +kernel
    rw [hvalid] at hrefused
    cases hrefused

end Malm.Tree
