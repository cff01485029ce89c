/-
Malm.Tree.GraphTheorems — the link graph of a tree.

On paths read as lists of names (`pathOf`) the edges of `validate_symlinks` are the links
among the prefixes of a resolved target (`mem_dependencies`), so the check accepts exactly
when every link was visited (`validateSymlinks_iff`).
-/
import Malm.Tree.Graph
import Malm.Tree.CodecTheorems
import Malm.Store.OwnershipTheorems

namespace Malm.Tree

open Checks List Topological

/-! ## 1. Paths and names -/

/-- What every name of a path is: nonempty and without a slash. -/
def Plain (name : Text) : Prop := name ≠ [] ∧ '/' ∉ name

def pathOf (names : List Text) : Text := ['/'].intercalate names

variable {target path : Text}

section Paths

variable {names front : List Text} {name child : Text}

theorem plain_of_valid (h : validatePathSegment name = .ok ()) : Plain name := by
  obtain ⟨hnonempty, -, -, hslash, -⟩ := validatePathSegment_ok.1 h
  exact ⟨hnonempty, hslash⟩

theorem plain_name (e : TreeEntry) : Plain e.name.val := plain_of_valid e.name.property

@[simp] theorem pathOf_nil : pathOf [] = [] := rfl

theorem pathOf_segments (path : Text) : pathOf path.segments = path :=
  intercalate_splitOn '/'

theorem segments_pathOf (hplain : ∀ name ∈ names, Plain name) (hnames : names ≠ []) :
    (pathOf names).segments = names :=
  splitOn_intercalate '/' (fun name hname => (hplain name hname).2) hnames

theorem segments_of_plain (h : Plain name) : name.segments = [name] :=
  splitOn_eq_singleton h.2

theorem pathOf_eq_nil (hplain : ∀ name ∈ names, Plain name) : pathOf names = [] ↔ names = [] := by
  constructor
  · intro h
    by_contra hnames
    have hsegs := segments_pathOf hplain hnames
    rw [h] at hsegs
    have hmem : ([] : Text) ∈ names := by
      rw [← hsegs]
      exact mem_singleton.2 rfl
    exact (hplain [] hmem).1 rfl
  · rintro rfl
    rfl

theorem pathOf_injective {other : List Text} (hplain : ∀ name ∈ names, Plain name)
    (hother : ∀ name ∈ other, Plain name) (h : pathOf names = pathOf other) : names = other := by
  by_cases hnames : names = []
  · rw [hnames, pathOf_nil, eq_comm, pathOf_eq_nil hother] at h
    rw [hnames, h]
  · have hne : other ≠ [] := by
      rintro rfl
      exact hnames ((pathOf_eq_nil hplain).1 h)
    calc names = (pathOf names).segments := (segments_pathOf hplain hnames).symm
      _ = (pathOf other).segments := by rw [h]
      _ = other := segments_pathOf hother hne

theorem joinPath_pathOf (hplain : ∀ name ∈ front, Plain name) :
    joinPath (pathOf front) child = pathOf (front ++ child.segments) := by
  by_cases hfront : front = []
  · subst hfront
    exact (pathOf_segments child).symm
  · have hne : pathOf front ≠ [] := fun h => hfront ((pathOf_eq_nil hplain).1 h)
    have happend :
        pathOf (front ++ child.segments) = pathOf front ++ '/' :: pathOf child.segments :=
      Segments.intercalate_append '/' hfront (splitOn_ne_nil '/' child)
    rw [joinPath, if_neg (by simpa using hne), happend, pathOf_segments]

theorem joinPath_name (hplain : ∀ name ∈ front, Plain name) (hname : Plain name) :
    joinPath (pathOf front) name = pathOf (front ++ [name]) := by
  rw [joinPath_pathOf hplain, segments_of_plain hname]

theorem ancestorPaths_of_notMem : ∀ {path : Text}, '/' ∉ path → path.ancestorPaths = []
  | [], _ => rfl
  | character :: path, h => by
    rw [mem_cons, not_or] at h
    rw [Text.ancestorPaths, if_neg (Ne.symm h.1), ancestorPaths_of_notMem h.2, map_nil]

theorem ancestorPaths_append (hname : '/' ∉ name) : ∀ {path : Text},
    (path ++ '/' :: name).ancestorPaths = path.ancestorPaths ++ [path]
  | [] => by
    have hslash : Text.ancestorPaths ('/' :: name) =
        [] :: (Text.ancestorPaths name).map ('/' :: ·) :=
      if_pos rfl
    rw [nil_append, hslash, ancestorPaths_of_notMem hname]
    rfl
  | character :: path => by
    rw [cons_append, Text.ancestorPaths, Text.ancestorPaths, ancestorPaths_append hname]
    by_cases h : character = '/' <;> simp [h]

theorem parentPath_pathOf (hplain : ∀ name ∈ front, Plain name) (hname : Plain name) :
    parentPath (pathOf (front ++ [name])) = pathOf front := by
  rw [← joinPath_name hplain hname, joinPath]
  by_cases hfront : pathOf front = []
  · rw [if_pos (by simpa using hfront), parentPath, ancestorPaths_of_notMem hname.2, hfront]
    rfl
  · rw [if_neg (by simpa using hfront), parentPath, ancestorPaths_append hname.2,
      getLast?_concat, Option.getD_some]

end Paths

theorem safeTargetPath_ok {path target resolved : Text} :
    safeTargetPath path target = .ok resolved ↔
      target.head? ≠ some '/' ∧ '\\' ∉ target ∧
        (∀ seg ∈ target.segments, validatePathSegment seg = .ok ()) ∧
        resolved.segments.length ≤ maxTreeDepth ∧ resolved.byteLen ≤ maxTreePathBytes ∧
        joinPath (parentPath path) target = resolved := by
  have hjoin : (if (parentPath path).isEmpty then target else joinPath (parentPath path) target) =
      joinPath (parentPath path) target := by
    unfold joinPath
    split <;> rfl
  simp only [safeTargetPath, hjoin, bind_ok, exists_unit, reject_ok,
    forM_ok, mapError_ok, pure_ok, not_lt]
  constructor
  · rintro ⟨hroot, hslash, hsegs, hdepth, hbytes, rfl⟩
    exact ⟨hroot, hslash, hsegs, hdepth, hbytes, rfl⟩
  · rintro ⟨hroot, hslash, hsegs, hdepth, hbytes, rfl⟩
    exact ⟨hroot, hslash, hsegs, hdepth, hbytes, rfl⟩

/-! ## 2. The links that a target passes -/

variable {links : SortedMap Text Digest}

section Dependencies

theorem dependencies_fold {names : List Text} (hplain : ∀ name ∈ names, Plain name) :
    names.foldl
      (fun s seg =>
        if seg.isEmpty then s
        else
          let path := joinPath s.1 seg
          (path, if links.contains path then s.2 ++ [path] else s.2))
      (([], []) : Text × List Text) =
      (pathOf names, if names = [] then []
        else ((pathOf names).ancestorPaths ++ [pathOf names]).filter fun path =>
          links.contains path) := by
  induction names using reverseRecOn with
  | nil => rfl
  | append_singleton front name ih =>
    have hfront : ∀ name ∈ front, Plain name :=
      fun other hother => hplain other (mem_append_left _ hother)
    have hname : Plain name := hplain name (by simp)
    have hne : front ++ [name] ≠ [] := by simp
    have hpath := joinPath_name hfront hname
    rw [foldl_append, ih hfront, foldl_cons, foldl_nil,
      if_neg (by simpa using hname.1)]
    simp only [hpath, if_neg hne, filter_append, Prod.mk.injEq, true_and]
    have habove : (if front = [] then []
        else ((pathOf front).ancestorPaths ++ [pathOf front]).filter fun path =>
          links.contains path) =
        (pathOf (front ++ [name])).ancestorPaths.filter fun path => links.contains path := by
      rw [← hpath, joinPath]
      by_cases hnil : front = []
      · subst hnil
        rw [if_pos rfl, pathOf_nil, if_pos isEmpty_nil, ancestorPaths_of_notMem hname.2]
        rfl
      · have hpathne : pathOf front ≠ [] := fun h => hnil ((pathOf_eq_nil hfront).1 h)
        rw [if_neg hnil, if_neg (by simpa using hpathne), ancestorPaths_append hname.2]
    rw [← filter_append, habove]
    by_cases hlink : links.contains (pathOf (front ++ [name])) = true
    · rw [if_pos hlink, filter_cons_of_pos hlink, filter_nil]
    · rw [if_neg hlink, filter_cons_of_neg hlink, filter_nil, append_nil]

section

variable (hplain : ∀ name ∈ target.segments, Plain name)
include hplain

theorem dependencies_eq :
    dependencies links target =
      (target.ancestorPaths ++ [target]).filter fun path => links.contains path := by
  have hne : target.segments ≠ [] := splitOn_ne_nil '/' target
  rw [dependencies, dependencies_fold hplain, if_neg hne, pathOf_segments]

theorem mem_dependencies :
    path ∈ dependencies links target ↔
      path ∈ links.keys ∧ path.segments <+: target.segments := by
  have hprefix : (path = target ∨ Segments.Above '/' path target) ↔
      path.segments <+: target.segments := Segments.eq_or_above_iff_isPrefixOf '/'
  rw [dependencies_eq hplain, mem_filter, mem_append, mem_singleton,
    Text.mem_ancestorPaths, SortedMap.contains_iff, ← hprefix]
  tauto

theorem dependencies_subset :
    ∀ path ∈ dependencies links target, path ∈ links.keys :=
  fun _ hpath => ((mem_dependencies hplain).1 hpath).1

end

end Dependencies

/-! ## 3. The two maps -/

def LinkGraph.targets (graph : LinkGraph) (path : Text) : List Text :=
  (graph.edges.get? path).getD []

def LinkGraph.count (graph : LinkGraph) (path : Text) : Nat := (graph.incoming.get? path).getD 0

variable {ts : List (Text × Text)}

section LinkGraph

theorem addEdges (path other : Text) (edges : List Text) : ∀ graph : LinkGraph,
    (edges.foldl (LinkGraph.addEdge path) graph).targets other =
        graph.targets other ++ (if other = path then edges else []) ∧
      (edges.foldl (LinkGraph.addEdge path) graph).count other =
        graph.count other + edges.count other ∧
      ((∀ edge ∈ edges, edge ∈ graph.incoming.keys) →
        ((edges.foldl (LinkGraph.addEdge path) graph).incoming.keys.toFinset =
          graph.incoming.keys.toFinset)) := by
  induction edges with
  | nil =>
    intro graph
    simp
  | cons edge edges ih =>
    intro graph
    obtain ⟨htargets, hcount, hkeys⟩ := ih (LinkGraph.addEdge path graph edge)
    rw [foldl_cons]
    refine ⟨?_, ?_, ?_⟩
    · rw [htargets]
      by_cases h : other = path
      · simp [LinkGraph.targets, LinkGraph.addEdge, h]
      · simp [LinkGraph.targets, LinkGraph.addEdge, h]
    · rw [hcount]
      by_cases h : other = edge
      · subst h
        simp only [LinkGraph.count, LinkGraph.addEdge, SortedMap.get?_insert, if_true,
          Option.getD_some, count_cons_self]
        omega
      · simp [LinkGraph.count, LinkGraph.addEdge, h, count_cons_of_ne (Ne.symm h)]
    · intro hedges
      have hadd : (LinkGraph.addEdge path graph edge).incoming.keys.toFinset =
          graph.incoming.keys.toFinset := by
        ext key
        rw [mem_toFinset, mem_toFinset, LinkGraph.addEdge, SortedMap.mem_keys_insert]
        constructor
        · rintro (rfl | hkey)
          · exact hedges key mem_cons_self
          · exact hkey
        · exact Or.inr
      rw [hkeys, hadd]
      intro last hlast
      rw [← mem_toFinset, hadd, mem_toFinset]
      exact hedges last (mem_cons_of_mem _ hlast)

theorem addTargets (links : SortedMap Text Digest) (other : Text) :
    ∀ (ts : List (Text × Text)) (graph : LinkGraph),
    (ts.foldl
        (fun graph target => (dependencies links target.2).foldl (LinkGraph.addEdge target.1) graph)
        graph).targets other =
      graph.targets other ++
        ts.flatMap
          (fun target => if other = target.1 then dependencies links target.2 else []) ∧
    (ts.foldl
        (fun graph target => (dependencies links target.2).foldl (LinkGraph.addEdge target.1) graph)
        graph).count other =
      graph.count other +
        (ts.map fun target => (dependencies links target.2).count other).sum ∧
    ((∀ target ∈ ts, ∀ edge ∈ dependencies links target.2, edge ∈ graph.incoming.keys) →
      (ts.foldl
        (fun graph target => (dependencies links target.2).foldl (LinkGraph.addEdge target.1) graph)
        graph).incoming.keys.toFinset = graph.incoming.keys.toFinset)
  | [], graph => by simp
  | target :: ts, graph => by
    obtain ⟨htargets, hcount, hkeys⟩ :=
      addEdges target.1 other (dependencies links target.2) graph
    obtain ⟨htargets', hcount', hkeys'⟩ :=
      addTargets links other ts
        ((dependencies links target.2).foldl (LinkGraph.addEdge target.1) graph)
    rw [foldl_cons]
    refine ⟨?_, ?_, ?_⟩
    · rw [htargets', htargets, flatMap_cons, append_assoc]
    · rw [hcount', hcount, map_cons, sum_cons, Nat.add_assoc]
    · intro hinside
      have hfirst := hkeys (hinside target mem_cons_self)
      rw [hkeys', hfirst]
      intro next hnext edge hedge
      rw [← mem_toFinset, hfirst, mem_toFinset]
      exact hinside next (mem_cons_of_mem _ hnext) edge hedge

theorem flatMap_key {α β : Type} {f : α → List β} {v : α} :
    ∀ {es : List (Text × α)}, (es.map Prod.fst).Nodup → (path, v) ∈ es →
      es.flatMap (fun e => if path = e.1 then f e.2 else []) = f v
  | (key, first) :: es, hnodup, hmem => by
    obtain ⟨hfresh, hnodup⟩ := nodup_cons.1 hnodup
    rw [flatMap_cons]
    rcases mem_cons.1 hmem with heq | hmem
    · obtain ⟨rfl, rfl⟩ := Prod.mk.injEq .. ▸ heq
      have hrest :
          es.flatMap (fun e => if path = e.1 then f e.2 else []) = [] := by
        rw [flatMap_eq_nil_iff]
        intro e hentry
        rw [if_neg]
        intro heq
        exact hfresh (mem_map.2 ⟨e, hentry, heq.symm⟩)
      rw [if_pos rfl, hrest, append_nil]
    · have hne : path ≠ key := by
        intro heq
        exact hfresh (mem_map.2 ⟨(path, v), hmem, heq⟩)
      rw [if_neg hne, nil_append]
      exact flatMap_key hnodup hmem

theorem start_counts : ∀ (keys : List Text) (incoming : SortedMap Text Nat),
    (∀ key, incoming.get? key = none ∨ incoming.get? key = some 0) →
      (∀ key, (keys.foldl (fun incoming path => incoming.insert path 0) incoming).get? key = none ∨
        (keys.foldl (fun incoming path => incoming.insert path 0) incoming).get? key = some 0) ∧
      (keys.foldl (fun incoming path => incoming.insert path 0) incoming).keys.toFinset =
        keys.toFinset ∪ incoming.keys.toFinset
  | [], incoming, h => by simp [h]
  | key :: keys, incoming, h => by
    have hnext : ∀ other, (incoming.insert key 0).get? other = none ∨
        (incoming.insert key 0).get? other = some 0 := by
      intro other
      rw [SortedMap.get?_insert]
      split
      · exact Or.inr rfl
      · exact h other
    obtain ⟨hcounts, hkeys⟩ := start_counts keys _ hnext
    rw [foldl_cons]
    refine ⟨hcounts, ?_⟩
    rw [hkeys]
    ext other
    simp only [Finset.mem_union, mem_toFinset, SortedMap.mem_keys_insert, mem_cons]
    tauto

theorem linkGraph_targets {target : Text} (hkeys : ts.map Prod.fst = links.keys)
    (hmem : (path, target) ∈ ts) :
    (linkGraph links ts).targets path = dependencies links target := by
  have hnodup : (ts.map Prod.fst).Nodup := hkeys ▸ links.nodup_keys
  rw [linkGraph, (addTargets links path ts _).1, flatMap_key hnodup hmem]
  rfl

theorem linkGraph_targets_of_notMem (h : path ∉ ts.map Prod.fst) :
    (linkGraph links ts).targets path = [] := by
  have hnone : ts.flatMap
      (fun target => if path = target.1 then dependencies links target.2 else []) = [] := by
    rw [flatMap_eq_nil_iff]
    intro target htarget
    refine if_neg ?_
    rintro rfl
    exact h (mem_map_of_mem htarget)
  rw [linkGraph, (addTargets links path ts _).1, hnone]
  rfl

theorem linkGraph_count :
    (linkGraph links ts).count path =
      (ts.map fun target => (dependencies links target.2).count path).sum := by
  have hstart := (start_counts links.keys .empty (by simp)).1 path
  rw [linkGraph, (addTargets links path ts _).2.1]
  simp only [LinkGraph.count]
  rcases hstart with h | h <;> simp [h]

theorem linkGraph_keys (hplain : ∀ target ∈ ts, ∀ name ∈ target.2.segments, Plain name) :
    path ∈ (linkGraph links ts).incoming.keys ↔ path ∈ links.keys := by
  have hstart := (start_counts links.keys .empty (by simp)).2
  have hempty : (SortedMap.empty : SortedMap Text Nat).keys = [] := rfl
  rw [hempty, toFinset_nil, Finset.union_empty] at hstart
  have hend := (addTargets links path ts
    ⟨.empty, links.keys.foldl (fun incoming path => incoming.insert path 0) .empty⟩).2.2
  rw [← mem_toFinset, linkGraph, hend, hstart, mem_toFinset]
  intro target htarget edge hedge
  rw [← mem_toFinset, hstart, mem_toFinset]
  exact dependencies_subset (hplain target htarget) edge hedge

end LinkGraph

/-! ## 4. The check of the links -/

section Queue

variable {symlinks : SortedMap Digest SymlinkObject}

theorem resolveTargets_ok (h : resolveTargets links symlinks = .ok ts) :
    ts.map Prod.fst = links.keys ∧
      ∀ path resolved, (path, resolved) ∈ ts ↔
        ∃ d obj, links.get? path = some d ∧ symlinks.get? d = some obj ∧
          safeTargetPath path obj.val = .ok resolved := by
  have hforall := mapM_forall₂ h
  have hkeys : ts.map Prod.fst = links.keys := by
    refine map_of_mapM_ok h ?_
    intro link _ target hlink
    simp only [bind_ok, pure_ok] at hlink
    obtain ⟨obj, -, resolved, -, rfl⟩ := hlink
    rfl
  refine ⟨hkeys, ?_⟩
  intro path resolved
  constructor
  · intro hmem
    obtain ⟨link, hlink, htarget⟩ := exists_left_of_forall₂ hforall hmem
    simp only [bind_ok, pure_ok, require_ok] at htarget
    obtain ⟨obj, hobj, found, hsafe, heq⟩ := htarget
    obtain ⟨rfl, rfl⟩ := Prod.mk.injEq .. ▸ heq
    exact ⟨link.2, obj, SortedMap.get?_eq_some.2 hlink, hobj, hsafe⟩
  · rintro ⟨d, obj, hlink, hobj, hsafe⟩
    obtain ⟨target, htarget, hstep⟩ :=
      exists_right_of_forall₂ hforall (SortedMap.get?_eq_some.1 hlink)
    simp only [bind_ok, pure_ok, require_ok] at hstep
    obtain ⟨found, hfound, other, hother, rfl⟩ := hstep
    obtain rfl := Option.some.inj (hobj.symm.trans hfound)
    obtain rfl := Except.ok.inj (hsafe.symm.trans hother)
    exact htarget

theorem plain_of_safe {front : List Text} {name target res : Text}
    (hfront : ∀ name ∈ front, Plain name) (hname : Plain name)
    (h : safeTargetPath (pathOf (front ++ [name])) target = .ok res) :
    (∀ segment ∈ target.segments, Plain segment) ∧ res = pathOf (front ++ target.segments) ∧
      res.segments = front ++ target.segments := by
  obtain ⟨-, -, hvalid, -, -, rfl⟩ := safeTargetPath_ok.1 h
  have hplain : ∀ segment ∈ target.segments, Plain segment :=
    fun segment hseg => plain_of_valid (hvalid segment hseg)
  have hpath : joinPath (parentPath (pathOf (front ++ [name]))) target =
      pathOf (front ++ target.segments) := by
    rw [parentPath_pathOf hfront hname, joinPath_pathOf hfront]
  refine ⟨hplain, hpath, ?_⟩
  rw [hpath, segments_pathOf]
  · intro other hother
    rcases mem_append.1 hother with hother | hother
    · exact hfront other hother
    · exact hplain other hother
  · simp [splitOn_ne_nil, Text.segments]

/-- The keys of a link map are paths of names. -/
def PlainLinks (links : SortedMap Text Digest) : Prop :=
  ∀ path ∈ links.keys, ∃ front name, (∀ name ∈ front, Plain name) ∧ Plain name ∧
    path = pathOf (front ++ [name])

theorem plain_targets (hlinks : PlainLinks links)
    (h : resolveTargets links symlinks = .ok ts) :
    ∀ target ∈ ts, ∀ name ∈ target.2.segments, Plain name := by
  rintro ⟨path, res⟩ hmem
  obtain ⟨d, obj, hlink, -, hsafe⟩ := ((resolveTargets_ok h).2 path res).1 hmem
  obtain ⟨front, name, hfront, hname, rfl⟩ := hlinks path (SortedMap.mem_keys.2 ⟨d, hlink⟩)
  obtain ⟨hplain, -, hsegs⟩ := plain_of_safe hfront hname hsafe
  intro seg hseg
  rw [hsegs, mem_append] at hseg
  rcases hseg with hseg | hseg
  · exact hfront seg hseg
  · exact hplain seg hseg

theorem linkGraph_waiting (hkeys : ts.map Prod.fst = links.keys) {path : Text} :
    (linkGraph links ts).count path =
      waiting (linkGraph links ts).targets links.keys.toFinset ∅ path := by
  rw [linkGraph_count, waiting_empty, sum_toFinset _ links.nodup_keys, ← hkeys, map_map]
  refine congrArg sum (map_congr_left ?_)
  intro target htarget
  rw [Function.comp_apply, linkGraph_targets hkeys htarget]
  congr!

theorem linkGraph_closed (hkeys : ts.map Prod.fst = links.keys)
    (hplain : ∀ target ∈ ts, ∀ name ∈ target.2.segments, Plain name) :
    ∀ path ∈ links.keys.toFinset, ∀ target ∈ (linkGraph links ts).targets path,
      target ∈ links.keys.toFinset := by
  intro path hpath target htarget
  rw [mem_toFinset, ← hkeys] at hpath
  obtain ⟨⟨found, resolved⟩, hmem, rfl⟩ := mem_map.1 hpath
  rw [linkGraph_targets hkeys hmem] at htarget
  exact mem_toFinset.2 (dependencies_subset (hplain _ hmem) target htarget)

/-- The nodes that the loop starts with. -/
def LinkGraph.ready (graph : LinkGraph) : List Text :=
  (graph.incoming.entries.filter fun entry => entry.2 = 0).map Prod.fst

section

variable (hlinks : PlainLinks links) (h : resolveTargets links symlinks = .ok ts)
include hlinks h

theorem linkGraph_start :
    Topological.Progress (linkGraph links ts).targets links.keys.toFinset []
      (linkGraph links ts).ready (linkGraph links ts).incoming := by
  refine progress_start ?_ ?_
  · intro path
    rw [linkGraph_keys (plain_targets hlinks h), mem_toFinset]
  · intro path _
    exact linkGraph_waiting (resolveTargets_ok h).1

theorem linkGraph_progress :
    ∃ visited left,
      visit (linkGraph links ts).targets links.entries.length
        (linkGraph links ts).ready (linkGraph links ts).incoming 0 =
          (visited.length, left) ∧
      Topological.Progress (linkGraph links ts).targets links.keys.toFinset visited []
        left := by
  obtain ⟨hkeys, -⟩ := resolveTargets_ok h
  have hplain := plain_targets hlinks h
  refine visit_progress (linkGraph_closed hkeys hplain) (linkGraph_start hlinks h) ?_
  have hcard : links.keys.toFinset.card ≤ links.keys.length := toFinset_card_le _
  rw [SortedMap.keys, length_map] at hcard
  exact hcard

theorem validateSymlinks_iff :
    ∃ visited left, Topological.Progress (linkGraph links ts).targets links.keys.toFinset
        visited [] left ∧
      (validateSymlinks links symlinks = .ok () ↔ ∀ path ∈ links.keys, path ∈ visited) := by
  obtain ⟨visited, left, hvisit, hprog⟩ := linkGraph_progress hlinks h
  refine ⟨visited, left, hprog, ?_⟩
  have hcall : visit
      (fun path => ((linkGraph links ts).edges.get? path).getD []) links.entries.length
      (((linkGraph links ts).incoming.entries.filter fun e => e.2 = 0).map Prod.fst)
      (linkGraph links ts).incoming 0 = (visited.length, left) := hvisit
  rw [validateSymlinks, h, ok_bind]
  simp only [hcall, reject_ok, not_not]
  rw [hprog.card_keys, hprog.length_eq_iff]
  simp only [mem_toFinset]

end

end Queue

end Malm.Tree
