/-
Malm.Commit.GraphTheorems — the committer and the tree crate accept the same
graphs.

The two validators walk the same objects (`Mirrors`) side by side: the committer's state
is that of the tree crate without the depth it reports (`stateOf`). From the links both
build the same edges and run the same sort.
-/
import Malm.Commit.WireTheorems
import Malm.Lib.Lockstep
import Malm.Lib.LastWrite
import Malm.Tree.SummaryTheorems

namespace Malm.Commit.Graph

open Commit Commit.Wire Checks List Option Prod SortedMap

/-! ## 1. The committer's walk, level by level -/

section Equations

variable (objects : CanonicalObjects) (digest : Digest) (path : Text) (ancestors : List Digest)
  (state : WalkState)

/-- One entry of the loop of `walk_tree`; `descend` walks a child directory. -/
def entryStep (descend : Digest → Text → WalkState → Except CanonicalObjectIssue WalkState)
    (left : Nat) (path : Text) (state : WalkState) (entry : TreeEntry) :
    Except CanonicalObjectIssue WalkState := do
  let entryPath := joinPath path entry.name
  let state ← walkEntry left entryPath state
  match entry.kind with
  | .file digest byteLen => walkFile objects state digest byteLen
  | .symlink digest => walkSymlink objects state entryPath digest
  | .directory child => do
    let childTree ← require (objects.trees.get? child) (.missing "tree" child)
    reject (childTree.rootMode ≠ entry.mode)
      (.invalidEncoding "tree path has inconsistent directory mode")
    descend child entryPath state

-- The recursion of `walk_tree` is inside a loop, where the equations of the
-- definition are not found; the next two are read off its body.

theorem walkTree_zero : walkTree objects 0 digest path ancestors state = (do
    reject (digest ∈ ancestors)
      (.invalidEncoding "canonical tree contains a directory cycle")
    let tree ← require (objects.trees.get? digest) (.missing "tree" digest)
    tree.entries.foldlM
      (fun state e => do
        let entryPath := joinPath path e.name
        let state ← walkEntry 0 entryPath state
        match e.kind with
        | .file digest byteLen => walkFile objects state digest byteLen
        | .symlink digest => walkSymlink objects state entryPath digest
        | .directory child => .error (.missing "tree" child))
      state) := by
  delta walkTree
  dsimp only
  delta walkTree._f
  dsimp only
  refine bind_congr_ok fun _ _ => bind_congr_ok fun tree _ => ?_
  refine foldlM_congr fun e _ state => bind_congr_ok fun _ _ => ?_
  cases e with
  | mk name mode kind => cases kind <;> rfl

theorem walkTree_succ (left : Nat) :
    walkTree objects (left + 1) digest path ancestors state = (do
      reject (digest ∈ ancestors)
        (.invalidEncoding "canonical tree contains a directory cycle")
      let tree ← require (objects.trees.get? digest) (.missing "tree" digest)
      tree.entries.foldlM
        (entryStep objects
          (fun child entryPath state =>
            walkTree objects left child entryPath (digest :: ancestors) state)
          (left + 1) path)
        state) := by
  delta walkTree
  dsimp only
  delta walkTree._f
  dsimp only
  refine bind_congr_ok fun _ _ => bind_congr_ok fun tree _ => ?_
  refine foldlM_congr fun e _ state => bind_congr_ok fun _ _ => ?_
  cases e with
  | mk name mode kind => cases kind <;> rfl

end Equations

/-! ## 2. The walks -/

variable {sha256 : List UInt8 → Digest} {objects : CanonicalObjects}
  {trees : SortedMap Digest (Tree.TreeObject sha256)}
  {symlinks : SortedMap Digest Tree.SymlinkObject}

section Walk

/-- The committer's objects are copies of the tree crate's, with every file present. -/
structure Mirrors (objects : CanonicalObjects) (trees : SortedMap Digest (Tree.TreeObject sha256))
    (symlinks : SortedMap Digest Tree.SymlinkObject) : Prop where
  treeAt : ∀ digest, objects.trees.get? digest = (trees.get? digest).map treeOf
  linkAt : ∀ digest, objects.symlinks.get? digest = (symlinks.get? digest).map Subtype.val
  files : ∀ digest tree, trees.get? digest = some tree → ∀ entry ∈ tree.entries,
    ∀ file byteLen, entry.kind = .file file byteLen →
      ∃ contents, objects.files.get? file.val = some contents ∧ contents.byteLen = byteLen

/-- The committer's state at a state of the tree crate. -/
def stateOf (state : Tree.WalkState) : WalkState :=
  ⟨state.entries, state.fileBytes, state.fileLengths, state.links⟩

variable {path : Text} {state : Tree.WalkState} {after : WalkState} {digest : Digest}

theorem walkEntry_ok {left depth : Nat} (hdepth : depth + left = Tree.maxTreeDepth) :
    walkEntry left path (stateOf state) = .ok after ↔
      ∃ next, Tree.enterEntry path (depth + 1) state = .ok next ∧ stateOf next = after := by
  have hleft : left ≠ 0 ↔ depth + 1 ≤ Tree.maxTreeDepth := by omega
  have hpath : maxTreePathBytes = Tree.maxTreePathBytes := rfl
  have hentries : maxTreeEntries = Tree.maxTreeEntries := rfl
  simp only [walkEntry, Tree.enterEntry, bind_ok, exists_unit, reject_ok,
    pure_ok, not_or, not_lt, hleft, hpath, hentries]
  constructor
  · rintro ⟨⟨hfits, hlen⟩, hcount, rfl⟩
    exact ⟨_, ⟨hfits, hlen, hcount, rfl⟩, rfl⟩
  · rintro ⟨next, ⟨hfits, hlen, hcount, rfl⟩, rfl⟩
    exact ⟨⟨hfits, hlen⟩, hcount, rfl⟩

theorem walkFile_ok {byteLen : Nat} {data : Contents}
    (hfile : objects.files.get? digest = some data) (hlen : data.byteLen = byteLen) :
    walkFile objects (stateOf state) digest byteLen = .ok after ↔
      ∃ next, Tree.enterFile state digest byteLen = .ok next ∧ stateOf next = after := by
  have hlimit : maxTreeFileBytes = Tree.maxTreeAggregateFileBytes := rfl
  have hconf :
      ¬ ((stateOf state).fileLengths.lookup digest).any (fun first => decide (first ≠ byteLen)) =
        true ↔
      (state.fileLengths.lookup digest).filter (fun first => decide (first ≠ byteLen)) = none := by
    rw [stateOf]
    cases state.fileLengths.lookup digest <;> simp
  simp only [walkFile, Tree.enterFile, bind_ok, exists_unit, reject_ok, rejectSome_ok, require_ok,
    pure_ok, not_lt, hlimit, hfile, some.injEq, exists_eq_left', hconf, hlen]
  constructor
  · rintro ⟨-, htotal, hlengths, rfl⟩
    exact ⟨_, ⟨htotal, hlengths, rfl⟩, rfl⟩
  · rintro ⟨next, ⟨htotal, hlengths, rfl⟩, rfl⟩
    exact ⟨fun h => h rfl, htotal, hlengths, rfl⟩

theorem walkSymlink_ok (hmirrors : Mirrors objects trees symlinks) :
    walkSymlink objects (stateOf state) path digest = .ok after ↔
      ∃ next, Tree.enterSymlink symlinks state path digest = .ok next ∧ stateOf next = after := by
  have hcontains : objects.symlinks.contains digest = symlinks.contains digest := by
    rw [SortedMap.contains, SortedMap.contains, hmirrors.linkAt, isSome_map]
  simp only [walkSymlink, Tree.enterSymlink, bind_ok, exists_unit, reject_ok, pure_ok, hcontains]
  constructor
  · rintro ⟨hsome, rfl⟩
    exact ⟨_, ⟨hsome, rfl⟩, rfl⟩
  · rintro ⟨next, ⟨hsome, rfl⟩, rfl⟩
    exact ⟨hsome, rfl⟩

theorem afterEntry_ok {entering : Except Tree.TreeGraphError Tree.WalkState}
    {step : WalkState → Except CanonicalObjectIssue WalkState}
    {step' : Tree.WalkState → Except Tree.TreeGraphError Tree.WalkState}
    (h : ∀ (entered : Tree.WalkState) (after : WalkState), step (stateOf entered) = .ok after ↔
      ∃ next, step' entered = .ok next ∧ stateOf next = after) :
    (∃ mid, (∃ entered, entering = .ok entered ∧ stateOf entered = mid) ∧
        step mid = .ok after) ↔
      ∃ next, (∃ entered, entering = .ok entered ∧ step' entered = .ok next) ∧
        stateOf next = after := by
  constructor
  · rintro ⟨_, ⟨entered, henter, rfl⟩, hrest⟩
    obtain ⟨next, hnext, rfl⟩ := (h entered after).1 hrest
    exact ⟨next, ⟨entered, henter, hnext⟩, rfl⟩
  · rintro ⟨next, ⟨entered, henter, hnext⟩, rfl⟩
    exact ⟨stateOf entered, ⟨entered, henter, rfl⟩, (h entered _).2 ⟨next, hnext, rfl⟩⟩

theorem entryStep_ok (hmirrors : Mirrors objects trees symlinks) {tree : Tree.TreeObject sha256}
    (htree : trees.get? digest = some tree) {e : Tree.TreeEntry}
    (hentry : e ∈ tree.entries) {left depth : Nat} (hdepth : depth + left = Tree.maxTreeDepth)
    {descend : Digest → Text → WalkState → Except CanonicalObjectIssue WalkState}
    {descend' : Digest → Text → Tree.WalkState → Except Tree.TreeGraphError Tree.WalkState}
    (hdescend : ∀ child path state after, descend child path (stateOf state) = .ok after ↔
      ∃ next, descend' child path state = .ok next ∧ stateOf next = after)
    (state : Tree.WalkState) (after : WalkState) :
    entryStep objects descend left path (stateOf state) (entryOf e) = .ok after ↔
      ∃ next, Tree.walkEntry trees symlinks descend' path depth state e = .ok next ∧
        stateOf next = after := by
  have hpath : joinPath path e.name.val = Tree.joinPath path e.name.val := rfl
  simp only [entryStep, Tree.walkEntry, entryOf, bind_ok, hpath, walkEntry_ok hdepth]
  -- What follows the checks of every e, by the kind of this one.
  cases hentrykind : e.kind with
  | file file byteLen =>
    obtain ⟨data, hfile, hlen⟩ :=
      hmirrors.files digest tree htree e hentry file byteLen hentrykind
    exact afterEntry_ok fun entered after => walkFile_ok hfile hlen
  | safeRelativeSymlink link => exact afterEntry_ok fun entered after => walkSymlink_ok hmirrors
  | directory child =>
    refine afterEntry_ok fun entered after => ?_
    simp only [kindOf, bind_ok, exists_unit, require_ok, reject_ok,
      hmirrors.treeAt, map_eq_some_iff, not_not]
    constructor
    · rintro ⟨_, ⟨childTree, hchild, rfl⟩, hmode, hwalk⟩
      obtain ⟨next, hnext, rfl⟩ := (hdescend _ _ _ _).1 hwalk
      have hmode : childTree.rootMode = e.mode := not_not.1 (reject_ok.1 hmode)
      exact ⟨next, ⟨childTree, hchild, hmode.symm, hnext⟩, rfl⟩
    · rintro ⟨next, ⟨childTree, hchild, hmode, hnext⟩, rfl⟩
      exact ⟨_, ⟨childTree, hchild, rfl⟩, reject_ok.2 (not_not.2 hmode.symm),
        (hdescend _ _ _ _).2 ⟨next, hnext, rfl⟩⟩

theorem walkTree_ok (hmirrors : Mirrors objects trees symlinks) :
    ∀ {left depth : Nat} {digest : Digest} {path : Text} {ancestors : List Digest},
      depth + left = Tree.maxTreeDepth → ∀ (state : Tree.WalkState) (after : WalkState),
      walkTree objects left digest path ancestors (stateOf state) = .ok after ↔
        ∃ next, Tree.walkTree trees symlinks left digest path depth ancestors state = .ok next ∧
          stateOf next = after := by
  intro left
  induction left with
  | zero =>
    intro depth digest path ancestors hdepth state after
    simp only [walkTree_zero, Tree.walkTree, Tree.walkObject, bind_ok, exists_unit,
      reject_ok, require_ok, hmirrors.treeAt, map_eq_some_iff]
    -- No e fits below the deepest level.
    have hloop : ∀ tree : Tree.TreeObject sha256,
        (treeOf tree).entries.foldlM
          (fun state e => do
            let entryPath := joinPath path e.name
            let state ← walkEntry 0 entryPath state
            match e.kind with
            | .file digest byteLen => walkFile objects state digest byteLen
            | .symlink digest => walkSymlink objects state entryPath digest
            | .directory child => .error (.missing "tree" child))
          (stateOf state) = .ok after ↔
        ∃ next, tree.entries.foldlM (Tree.walkEntry trees symlinks
          (fun _ entryPath _ =>
            .error (.depthExceeded entryPath Tree.maxTreeDepth (depth + 1))) path depth) state =
          .ok next ∧ stateOf next = after := by
      intro tree
      rw [treeOf, foldlM_map]
      refine foldlM_image ?_ state after
      intro e _ before after
      simp only [Tree.walkEntry, bind_ok, walkEntry_ok hdepth]
      have hdeep : ∀ path next, Tree.enterEntry path (depth + 1) before ≠ .ok next := by
        intro path next henter
        simp only [Tree.enterEntry, bind_ok, exists_unit, reject_ok] at henter
        exact henter.1 (by omega)
      constructor
      · rintro ⟨_, ⟨entered, henter, -⟩, -⟩
        exact absurd henter (hdeep _ _)
      · rintro ⟨next, ⟨entered, henter, -⟩, -⟩
        exact absurd henter (hdeep _ _)
    constructor
    · rintro ⟨hfresh, _, ⟨tree, htree, rfl⟩, hwalk⟩
      obtain ⟨next, hnext, rfl⟩ := (hloop tree).1 hwalk
      exact ⟨next, ⟨hfresh, tree, htree, hnext⟩, rfl⟩
    · rintro ⟨next, ⟨hfresh, tree, htree, hnext⟩, rfl⟩
      exact ⟨hfresh, _, ⟨tree, htree, rfl⟩, (hloop tree).2 ⟨next, hnext, rfl⟩⟩
  | succ left ih =>
    intro depth digest path ancestors hdepth state after
    simp only [walkTree_succ, Tree.walkTree, Tree.walkObject, bind_ok, exists_unit,
      reject_ok, require_ok, hmirrors.treeAt, map_eq_some_iff]
    have hloop : ∀ tree, trees.get? digest = some tree →
        ((treeOf tree).entries.foldlM
          (entryStep objects
            (fun child entryPath state =>
              walkTree objects left child entryPath (digest :: ancestors) state)
            (left + 1) path) (stateOf state) = .ok after ↔
        ∃ next, tree.entries.foldlM (Tree.walkEntry trees symlinks
          (fun child entryPath state => Tree.walkTree trees symlinks left child entryPath
            (depth + 1) (digest :: ancestors) state) path depth) state = .ok next ∧
          stateOf next = after) := by
      intro tree htree
      rw [treeOf, foldlM_map]
      refine foldlM_image ?_ state after
      intro e hentry before after
      refine entryStep_ok hmirrors htree hentry hdepth ?_ before after
      intro child childPath state after
      exact ih (by omega) state after
    constructor
    · rintro ⟨hfresh, _, ⟨tree, htree, rfl⟩, hwalk⟩
      obtain ⟨next, hnext, rfl⟩ := (hloop tree htree).1 hwalk
      exact ⟨next, ⟨hfresh, tree, htree, hnext⟩, rfl⟩
    · rintro ⟨next, ⟨hfresh, tree, htree, hnext⟩, rfl⟩
      exact ⟨hfresh, _, ⟨tree, htree, rfl⟩, (hloop tree htree).2 ⟨next, hnext, rfl⟩⟩

end Walk

/-! ## 3. The links -/

section Links

variable {links : SortedMap Text Digest} {targets : List (Text × Text)}

theorem safeTargetPath_alike {path t resolved : Text} :
    safeTargetPath path t = .ok resolved ↔
      Tree.safeTargetPath path t = .ok resolved := by
  rw [Tree.safeTargetPath_ok]
  have hdepth : maxTreeDepth = Tree.maxTreeDepth := rfl
  have hbytes : maxTreePathBytes = Tree.maxTreePathBytes := rfl
  simp only [safeTargetPath, bind_ok, exists_unit, reject_ok, forM_ok,
    pure_ok, validateSegment_ok, not_or, not_lt, hdepth, hbytes]
  constructor
  · rintro ⟨⟨hroot, hslash⟩, hsegs, ⟨hlevels, hlen⟩, heq⟩
    exact ⟨hroot, hslash, hsegs, heq ▸ hlevels, heq ▸ hlen, heq⟩
  · rintro ⟨hroot, hslash, hsegs, hlevels, hlen, rfl⟩
    exact ⟨⟨hroot, hslash⟩, hsegs, ⟨hlevels, hlen⟩, rfl⟩

theorem visitLinks_eq (edges : SortedMap Text (List Text)) :
    ∀ (fuel : Nat) (ready : List Text) (incoming : SortedMap Text Nat) (visited : Nat),
      visitLinks edges fuel ready incoming visited =
        (Topological.visit (fun path => (edges.get? path).getD []) fuel ready incoming visited).1
  | 0, _, _, _ => rfl
  | _ + 1, [], _, _ => rfl
  | fuel + 1, path :: ready, incoming, visited => by
    rw [visitLinks, Topological.visit]
    exact visitLinks_eq edges fuel _ _ _

def edgesOf (links : SortedMap Text Digest) (targets : List (Text × Text)) :
    SortedMap Text (List Text) :=
  targets.foldl
    (fun (edges : SortedMap Text (List Text)) (path, target) =>
      edges.insert path (linkDependencies links target)) .empty

def incomingOf (links : SortedMap Text Digest) (targets : List (Text × Text)) :
    SortedMap Text Nat :=
  links.keys.foldl
    (fun (incoming : SortedMap Text Nat) path =>
      incoming.insert path
        ((targets.map fun (_, target) => (linkDependencies links target).count path).sum)) .empty

theorem linkDependencies_eq {target : Text} (hplain : ∀ name ∈ target.segments, Tree.Plain name) :
    linkDependencies links target = Tree.dependencies links target := by
  rw [Tree.dependencies_eq hplain, linkDependencies]

theorem edgesOf_eq (hkeys : targets.map fst = links.keys)
    (hplain : ∀ t ∈ targets, ∀ name ∈ t.2.segments, Tree.Plain name) :
    (fun path => ((edgesOf links targets).get? path).getD []) =
      (Tree.linkGraph links targets).targets := by
  have hnodup : (targets.map fst).Nodup := hkeys ▸ links.nodup_keys
  have hfold : edgesOf links targets =
      (targets.map fun t => (t.1, linkDependencies links t.2)).foldl
        (fun edges e => edges.insert e.1 e.2) .empty := by
    rw [foldl_map]
    rfl
  have hmapkeys : (targets.map fun t => (t.1, linkDependencies links t.2)).map
      fst = targets.map fst := by
    rw [List.map_map]
    rfl
  funext path
  by_cases hmem : path ∈ targets.map fst
  · obtain ⟨⟨found, t⟩, htarget, heq⟩ := mem_map.1 hmem
    obtain rfl : found = path := heq
    have hget : (edgesOf links targets).get? found = some (linkDependencies links t) := by
      rw [hfold, get?_foldl_insert (hmapkeys ▸ hnodup)]
      exact .inl (mem_map.2 ⟨_, htarget, rfl⟩)
    rw [hget, getD_some, linkDependencies_eq (hplain _ htarget),
      Tree.linkGraph_targets hkeys htarget]
  · rw [Tree.linkGraph_targets_of_notMem hmem, hfold, get?_foldl_insert_of_notMem (hmapkeys ▸ hmem)]
    rfl

theorem incomingOf_eq (hplain : ∀ t ∈ targets, ∀ name ∈ t.2.segments, Tree.Plain name) :
    incomingOf links targets = (Tree.linkGraph links targets).incoming := by
  have hsum : ∀ path, (targets.map fun t => (linkDependencies links t.2).count path).sum =
      (Tree.linkGraph links targets).count path := by
    intro path
    rw [Tree.linkGraph_count]
    refine congrArg sum (map_congr_left ?_)
    intro t htarget
    rw [linkDependencies_eq (hplain t htarget)]
  have hfold : incomingOf links targets =
      (links.keys.map fun path => (path, (Tree.linkGraph links targets).count path)).foldl
        (fun incoming e => incoming.insert e.1 e.2) .empty := by
    rw [foldl_map]
    refine congrArg (fun step => links.keys.foldl step empty) ?_
    funext incoming path
    exact congrArg _ (hsum path)
  have hmapkeys : (links.keys.map fun path =>
      (path, (Tree.linkGraph links targets).count path)).map fst = links.keys := by
    rw [List.map_map]
    exact List.map_id _
  refine ext_get? fun path => ?_
  by_cases hmem : path ∈ links.keys
  · obtain ⟨count, hcount⟩ := mem_keys.1 ((Tree.linkGraph_keys hplain).2 hmem)
    rw [hcount, hfold, get?_foldl_insert (by rw [hmapkeys]; exact links.nodup_keys)]
    refine .inl (mem_map.2 ⟨path, hmem, ?_⟩)
    rw [Tree.LinkGraph.count, hcount, getD_some]
  · rw [get?_eq_none.2 fun hkey => hmem ((Tree.linkGraph_keys hplain).1 hkey), hfold,
      get?_foldl_insert_of_notMem (by rw [hmapkeys]; exact hmem)]
    rfl

theorem validateSymlinkGraph_alike (hmirrors : Mirrors objects trees symlinks)
    (hlinks : Tree.PlainLinks links) :
    validateSymlinkGraph links objects.symlinks = .ok () ↔
      Tree.validateSymlinks links symlinks = .ok () := by
  have htargets : ∀ targets, links.entries.mapM (fun link => do
        let t ← require (objects.symlinks.get? link.2)
          (CanonicalObjectIssue.missing "symlink" link.2)
        let res ← safeTargetPath link.1 t
        return (link.1, res)) = .ok targets ↔
      Tree.resolveTargets links symlinks = .ok targets := by
    intro targets
    refine mapM_alike ?_
    intro link t
    simp only [bind_ok, require_ok, pure_ok, hmirrors.linkAt, map_eq_some_iff, safeTargetPath_alike]
    constructor
    · rintro ⟨_, ⟨obj, hobj, rfl⟩, res, hsafe, rfl⟩
      exact ⟨obj, hobj, res, hsafe, rfl⟩
    · rintro ⟨obj, hobj, res, hsafe, rfl⟩
      exact ⟨_, ⟨obj, hobj, rfl⟩, res, hsafe, rfl⟩
  have hcommit : validateSymlinkGraph links objects.symlinks = .ok () ↔
      ∃ targets, Tree.resolveTargets links symlinks = .ok targets ∧
        visitLinks (edgesOf links targets) links.entries.length
          (((incomingOf links targets).entries.filter fun e => e.2 = 0).map fst)
          (incomingOf links targets) 0 = (incomingOf links targets).entries.length := by
    simp only [← htargets]
    rw [validateSymlinkGraph, bind_ok]
    refine exists_congr fun targets => and_congr Iff.rfl ?_
    rw [reject_ok, not_not]
    exact Iff.rfl
  have htree : Tree.validateSymlinks links symlinks = .ok () ↔
      ∃ targets, Tree.resolveTargets links symlinks = .ok targets ∧
        (Topological.visit (Tree.linkGraph links targets).targets links.entries.length
          (Tree.linkGraph links targets).ready (Tree.linkGraph links targets).incoming 0).1 =
        (Topological.visit (Tree.linkGraph links targets).targets links.entries.length
          (Tree.linkGraph links targets).ready
          (Tree.linkGraph links targets).incoming 0).2.entries.length := by
    rw [Tree.validateSymlinks, bind_ok]
    refine exists_congr fun targets => and_congr Iff.rfl ?_
    rw [reject_ok, not_not]
    exact Iff.rfl
  rw [hcommit, htree]
  refine exists_congr fun targets => and_congr_right fun hresolved => ?_
  have hkeys := (Tree.resolveTargets_ok hresolved).1
  have hplain := Tree.plain_targets hlinks hresolved
  obtain ⟨visited, left, hvisit, hprog⟩ := Tree.linkGraph_progress hlinks hresolved
  have hstart := (Tree.linkGraph_start hlinks hresolved).card_keys
  rw [visitLinks_eq, edgesOf_eq hkeys hplain, incomingOf_eq hplain, hstart]
  rw [Tree.LinkGraph.ready] at hvisit ⊢
  rw [hvisit, hprog.card_keys]

end Links

/-! ## 4. The objects -/

section Objects

/-- The committer holds just these trees and symlinks, and the files that the trees name. -/
structure Holds (objects : CanonicalObjects) (trees : List (Tree.TreeObject sha256))
    (symlinks : List Tree.SymlinkObject) : Prop where
  treeAt : ∀ digest tree, objects.trees.get? digest = some tree ↔
    ∃ object ∈ trees, Tree.treeObjectDigest object = digest ∧ treeOf object = tree
  linkAt : ∀ digest target, objects.symlinks.get? digest = some target ↔
    ∃ object ∈ symlinks, Tree.symlinkObjectDigest sha256 object = digest ∧ object.val = target
  files : ∀ tree ∈ trees, ∀ entry ∈ tree.entries, ∀ file byteLen, entry.kind = .file file byteLen →
    ∃ contents, objects.files.get? file.val = some contents ∧ contents.byteLen = byteLen

theorem kindOf_injective : Function.Injective kindOf := by
  intro left right h
  cases left <;> cases right <;> simp_all [kindOf, Subtype.ext_iff]

theorem entryOf_injective : Function.Injective entryOf := by
  rintro ⟨name, mode, kind⟩ ⟨name', mode', kind'⟩ h
  obtain ⟨hname, hmode, hkind⟩ := TreeEntry.mk.injEq .. ▸ h
  obtain rfl : name = name' := Subtype.ext hname
  obtain rfl : mode = mode' := hmode
  obtain rfl : kind = kind' := kindOf_injective hkind
  rfl

theorem treeOf_injective : Function.Injective (treeOf : Tree.TreeObject sha256 → TreeObject) := by
  intro left right h
  obtain ⟨hmode, hentries⟩ := TreeObject.mk.injEq .. ▸ h
  exact Tree.TreeObject.ext hmode (map_injective_iff.2 entryOf_injective hentries)

/-- Objects of distinct identities have an index. -/
theorem indexObjects_ok {α : Type} [DecidableEq α] {ident : α → Digest} {es : List α}
    (h : ∀ left ∈ es, ∀ right ∈ es, ident left = ident right → left = right) :
    ∃ index, Tree.indexObjects ident es = .ok index ∧ Tree.IndexOf ident es index := by
  rcases Tree.indexObjects_cases ident es with ⟨d, -, hnone⟩ | ⟨index, hindex, hiff⟩
  · -- The last object of each identity is the only one.
    refine absurd ?_ (hnone ((es.map fun e => (ident e, e)).foldl
      (fun map pair => map.insert pair.1 pair.2) .empty))
    intro digest found
    rw [get?_foldl_insert_empty]
    have hmem : ∀ {e}, LastAt (es.map fun e => (ident e, e)) digest e →
        e ∈ es ∧ ident e = digest := by
      intro e hlast
      obtain ⟨other, hother, heq⟩ := mem_map.1 hlast.mem
      obtain ⟨rfl, rfl⟩ := mk.inj heq
      exact ⟨hother, rfl⟩
    constructor
    · exact hmem
    · rintro ⟨hfound, rfl⟩
      have hkey : ident found ∈ (es.map fun e => (ident e, e)).map fst := by
        rw [List.map_map]
        exact mem_map_of_mem hfound
      obtain ⟨other, hlast⟩ := LastAt.mem_keys_iff.1 hkey
      obtain ⟨hother, hsame⟩ := hmem hlast
      rwa [h other hother found hfound hsame] at hlast
  · exact ⟨index, hindex, hiff⟩

variable {trees : List (Tree.TreeObject sha256)} {symlinks : List Tree.SymlinkObject}

theorem Holds.mirrors (h : Holds objects trees symlinks) :
    ∃ treeIndex symlinkIndex, Tree.indexObjects Tree.treeObjectDigest trees = .ok treeIndex ∧
      Tree.indexObjects (Tree.symlinkObjectDigest sha256) symlinks = .ok symlinkIndex ∧
      Mirrors objects treeIndex symlinkIndex := by
  have htrees : ∀ left ∈ trees, ∀ right ∈ trees,
      Tree.treeObjectDigest left = Tree.treeObjectDigest right → left = right := by
    intro left hleft right hright hsame
    have hfirst := (h.treeAt _ _).2 ⟨left, hleft, rfl, rfl⟩
    have hsecond := (h.treeAt _ _).2 ⟨right, hright, hsame.symm, rfl⟩
    exact treeOf_injective (some.inj (hfirst.symm.trans hsecond))
  have hlinks : ∀ left ∈ symlinks, ∀ right ∈ symlinks,
      Tree.symlinkObjectDigest sha256 left = Tree.symlinkObjectDigest sha256 right →
        left = right := by
    intro left hleft right hright hsame
    have hfirst := (h.linkAt _ _).2 ⟨left, hleft, rfl, rfl⟩
    have hsecond := (h.linkAt _ _).2 ⟨right, hright, hsame.symm, rfl⟩
    exact Subtype.ext (some.inj (hfirst.symm.trans hsecond))
  obtain ⟨treeIndex, htreeIndex, htree⟩ := indexObjects_ok htrees
  obtain ⟨symlinkIndex, hsymlinkIndex, hsymlink⟩ := indexObjects_ok hlinks
  unfold Tree.IndexOf at htree hsymlink
  refine ⟨treeIndex, symlinkIndex, htreeIndex, hsymlinkIndex, ?_, ?_, ?_⟩
  · intro digest
    ext tree
    rw [h.treeAt, map_eq_some_iff]
    simp only [htree, and_assoc]
  · intro digest
    ext target
    rw [h.linkAt, map_eq_some_iff]
    simp only [hsymlink, and_assoc]
  · intro digest tree hget e hentry
    exact h.files tree ((htree digest tree).1 hget).1 e hentry

/-- **The graph validators agree.** With every file present, the committer accepts a root exactly
when the tree crate builds its graph. -/
theorem validators_agree (h : Holds objects trees symlinks) (root : Digest) :
    objects.validateTree root = .ok () ↔
      ∃ graph, Tree.TreeGraph.new root trees symlinks = .ok graph := by
  obtain ⟨treeIndex, symlinkIndex, htrees, hsymlinks, hmirrors⟩ := h.mirrors
  have hroot : objects.trees.contains root = treeIndex.contains root := by
    rw [SortedMap.contains, SortedMap.contains, hmirrors.treeAt, isSome_map]
  have hdefault : WalkState.default = stateOf .default := rfl
  have hcommit : objects.validateTree root = .ok () ↔
      ∃ summary, Tree.validateGraph root treeIndex symlinkIndex = .ok summary := by
    simp only [CanonicalObjects.validateTree, Tree.validateGraph, bind_ok,
      exists_unit, reject_ok, pure_ok, hroot, hdefault,
      walkTree_ok hmirrors (by rfl : 0 + maxTreeDepth = Tree.maxTreeDepth)]
    constructor
    · rintro ⟨hknown, _, ⟨state, hwalk, rfl⟩, hlinks⟩
      have hplain := (Tree.walkTree_walked hwalk).plain
      exact ⟨_, hknown, state, hwalk, (validateSymlinkGraph_alike hmirrors hplain).1 hlinks, rfl⟩
    · rintro ⟨summary, hknown, state, hwalk, hlinks, -⟩
      have hplain := (Tree.walkTree_walked hwalk).plain
      exact ⟨hknown, _, ⟨state, hwalk, rfl⟩,
        (validateSymlinkGraph_alike hmirrors hplain).2 hlinks⟩
  rw [hcommit, Tree.TreeGraph.new, htrees, ok_bind, hsymlinks, ok_bind]
  constructor
  · rintro ⟨summary, hvalid⟩
    refine ⟨⟨root, treeIndex, symlinkIndex, summary, hvalid⟩, ?_⟩
    split
    · rename_i found hfound
      obtain rfl := Except.ok.inj (hvalid.symm.trans hfound)
      rfl
    · rename_i error herror
      rw [hvalid] at herror
      cases herror
  · rintro ⟨graph, hgraph⟩
    split at hgraph
    · rename_i summary hvalid
      exact ⟨summary, hvalid⟩
    · cases hgraph

end Objects

/-! ## 5. A tree with a link and a file -/

def linkDigest : Digest :=
  ⟨0xe38308fbff2b98ca3762003b44407799c0083a320a72140b3a64a82c74725b29⟩

def treeDigest : Digest :=
  ⟨0x295eaa350f7d7088b98f6c9e3bdb519fac7f564b612aff11e8e4cc1696cc380e⟩

/-- The digest of a file of two bytes. -/
def twoByteDigest : Digest :=
  ⟨0xde492f29e7fa2c3114f3d71dbeebdeff07dff2335004775ebe958e2bc2077716⟩

/-- SHA-256 on the encodings of the two objects below, of 31 and 225 bytes. -/
def graphSha256 (bytes : List UInt8) : Digest :=
  if bytes.length = 31 then linkDigest else treeDigest

theorem linkDigest_lt : linkDigest.value < 16 ^ 64 := by decide

theorem twoByteDigest_lt : twoByteDigest.value < 16 ^ 64 := by decide

def graphEntries : List Tree.TreeEntry :=
  [.safeRelativeSymlink ⟨['a'], Tree.sampleName_valid⟩ ⟨linkDigest, linkDigest_lt⟩,
    ⟨⟨['b'], Tree.sampleFile_valid⟩, 0o644#32, .file ⟨twoByteDigest, twoByteDigest_lt⟩ 2⟩]

theorem graphEntries_sorted : Tree.sortEntries graphEntries = graphEntries := by decide

theorem graphEntries_valid : Tree.checkTree graphSha256 0o755#32 graphEntries = .ok () := by
  decide

def graphTree : Tree.TreeObject graphSha256 :=
  ⟨0o755#32, graphEntries, graphEntries_sorted, graphEntries_valid⟩

def graphLink : Tree.SymlinkObject := ⟨['b'], Tree.sampleTarget_valid⟩

def graphObjects : CanonicalObjects :=
  ⟨SortedMap.empty.insert twoByteDigest ⟨⟨0⟩, 2⟩,
    SortedMap.empty.insert linkDigest graphLink.val,
    SortedMap.empty.insert treeDigest (treeOf graphTree)⟩

theorem graphTree_digest : Tree.treeObjectDigest graphTree = treeDigest := by decide +kernel

theorem graphLink_digest : Tree.symlinkObjectDigest graphSha256 graphLink = linkDigest := by
  decide +kernel

theorem graphObjects_hold : Holds graphObjects [graphTree] [graphLink] := by
  have hnone : ∀ {α : Type} (digest : Digest),
      (empty : SortedMap Digest α).get? digest = none := fun _ => rfl
  refine ⟨?_, ?_, ?_⟩
  · intro digest tree
    simp only [graphObjects, get?_insert, hnone, mem_singleton, exists_eq_left, graphTree_digest]
    by_cases h : digest = treeDigest
    · simp [h]
    · simp [h, Ne.symm h]
  · intro digest t
    simp only [graphObjects, get?_insert, hnone, mem_singleton, exists_eq_left, graphLink_digest]
    by_cases h : digest = linkDigest
    · simp [h]
    · simp [h, Ne.symm h]
  · intro tree htree e hentry file byteLen hkind
    rw [mem_singleton] at htree
    subst htree
    rcases mem_cons.1 hentry with rfl | hentry
    · cases hkind
    · obtain rfl := mem_singleton.1 hentry
      cases hkind
      exact ⟨_, rfl, rfl⟩

theorem validators_agree_sample : graphObjects.validateTree treeDigest = .ok () ∧
    ∃ graph, Tree.TreeGraph.new treeDigest [graphTree] [graphLink] = .ok graph := by
  have haccepted : graphObjects.validateTree treeDigest = .ok () := by decide +kernel
  exact ⟨haccepted, (validators_agree graphObjects_hold treeDigest).1 haccepted⟩

end Malm.Commit.Graph
