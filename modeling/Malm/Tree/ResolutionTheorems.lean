/-
Malm.Tree.ResolutionTheorems — accepted links resolve inside the tree.

A link has at most one edge, to the first link on its target's way. When every link was
visited, the order of the visit bounds how long links lead to sibling links
(`terminates`). Otherwise the unvisited ones have their edges among themselves (`loops`).
-/
import Malm.Tree.GraphTheorems
import Malm.Tree.Resolution

namespace Malm.Tree

open Checks List Option SortedMap Node

variable {digest : Digest}

variable {back here rest : List Text} {links : SortedMap Text Digest}
  {symlinks : SortedMap Digest SymlinkObject}

/-! ## 1. The unfolded tree -/

variable {sha256 : List UInt8 → Digest} {trees : SortedMap Digest (TreeObject sha256)}
  {front : List Text} {name : Text} {root : Digest}

section Unfolded

variable {node next : Node} {names : List Text}

theorem Node.child_eq_some :
    node.child trees name = some next ↔
      ∃ digest tree e, node = .directory digest ∧ trees.get? digest = some tree ∧
        (tree.entries.find? fun e => e.name.val = name) = some e ∧
        e.kind.node = next := by
  cases node with
  | directory digest =>
    simp only [child, bind_eq_some_iff, map_eq_some_iff, directory.injEq]
    constructor
    · rintro ⟨tree, htree, e, hentry, rfl⟩
      exact ⟨digest, tree, e, rfl, htree, hentry, rfl⟩
    · rintro ⟨_, tree, e, rfl, htree, hentry, rfl⟩
      exact ⟨tree, htree, e, hentry, rfl⟩
  | file => simp [child]
  | link digest => simp [child]

theorem Node.valid_of_child (h : node.child trees name = some next) :
    validatePathSegment name = .ok () := by
  obtain ⟨digest, tree, e, -, -, hentry, -⟩ := child_eq_some.1 h
  have hname : e.name.val = name := by simpa using find?_some hentry
  exact hname ▸ e.name.property

theorem Node.descend_append :
    node.descend trees (front ++ back) =
      (node.descend trees front).bind fun next => next.descend trees back := by
  induction front generalizing node with
  | nil => rfl
  | cons name front ih =>
    rw [cons_append, descend, descend, bind_assoc]
    congr 1
    funext next
    exact ih

theorem Node.valid_of_descend (h : node.descend trees names = some next) :
    ∀ name ∈ names, validatePathSegment name = .ok () := by
  induction names generalizing node with
  | nil => simp
  | cons name names ih =>
    rw [descend, bind_eq_some_iff] at h
    obtain ⟨mid, hchild, hrest⟩ := h
    exact forall_mem_cons.2 ⟨valid_of_child hchild, ih hrest⟩

theorem nodeAt_append :
    nodeAt trees root (front ++ back) =
      (nodeAt trees root front).bind fun next => next.descend trees back :=
  descend_append

theorem nodeAt_front (h : nodeAt trees root (front ++ back) = some node) (hback : back ≠ []) :
    ∃ digest, nodeAt trees root front = some (.directory digest) := by
  rw [nodeAt_append, bind_eq_some_iff] at h
  obtain ⟨mid, hfront, hrest⟩ := h
  cases back with
  | nil => exact absurd rfl hback
  | cons name back =>
    rw [descend, bind_eq_some_iff] at hrest
    obtain ⟨found, hchild, -⟩ := hrest
    obtain ⟨digest, -, -, rfl, -⟩ := child_eq_some.1 hchild
    exact ⟨digest, hfront⟩

theorem nodeAt_concat (h : nodeAt trees root front = some node) :
    nodeAt trees root (front ++ [name]) = node.child trees name := by
  rw [nodeAt_append, h, bind_some, descend]
  cases node.child trees name <;> rfl

theorem valid_of_nodeAt (h : nodeAt trees root names = some node) :
    ∀ name ∈ names, validatePathSegment name = .ok () :=
  valid_of_descend h

theorem plain_of_nodeAt (h : nodeAt trees root names = some node) : ∀ name ∈ names, Plain name :=
  fun name hname => plain_of_valid (valid_of_nodeAt h name hname)

theorem link_of_front {other : Digest} {short long : List Text}
    (hshort : nodeAt trees root short = some (.link digest))
    (hlong : nodeAt trees root long = some (.link other)) (h : short <+: long) : short = long := by
  obtain ⟨back, rfl⟩ := h
  by_cases hback : back = []
  · rw [hback, append_nil]
  · obtain ⟨found, hdir⟩ := nodeAt_front hlong hback
    rw [hshort] at hdir
    cases hdir

theorem find?_entry (tree : TreeObject sha256) {entry : TreeEntry} (hentry : entry ∈ tree.entries) :
    (tree.entries.find? fun other => other.name.val = entry.name.val) = some entry := by
  have hchain : (tree.entries.map fun entry => entry.name.val).IsChain (· < ·) := tree.ascending
  have hnodup : (tree.entries.map fun entry => entry.name.val).Nodup :=
    hchain.pairwise.imp fun hlt => ne_of_lt hlt
  exact (Keyed.find?_eq_some hnodup).2 ⟨hentry, rfl⟩

end Unfolded

/-! ## 2. What a walk finds -/

section Walk

/-- Every link that was noted is a link of the tree, and its object exists. -/
def Sound (trees : SortedMap Digest (TreeObject sha256)) (symlinks : SortedMap Digest SymlinkObject)
    (root : Digest) (links : SortedMap Text Digest) : Prop :=
  ∀ path digest, links.get? path = some digest →
    symlinks.contains digest = true ∧
      ∃ names, nodeAt trees root names = some (.link digest) ∧ path = pathOf names

/-- What is below `here` is within the depth limit, and its links were noted. -/
def Covered (trees : SortedMap Digest (TreeObject sha256)) (here : List Text) (node : Node)
    (links : SortedMap Text Digest) : Prop :=
  ∀ names next, node.descend trees names = some next →
    (here ++ names).length ≤ maxTreeDepth ∧
      ∀ digest, next = .link digest → pathOf (here ++ names) ∈ links.keys

theorem Covered.mono {node : Node} {more : SortedMap Text Digest}
    (h : Covered trees here node links) (hmore : ∀ path ∈ links.keys, path ∈ more.keys) :
    Covered trees here node more := by
  intro names next hdescend
  obtain ⟨hlen, hlink⟩ := h names next hdescend
  exact ⟨hlen, fun digest heq => hmore _ (hlink digest heq)⟩

theorem covered_leaf {node : Node} (hleaf : ∀ name, node.child trees name = none)
    (hdepth : here.length ≤ maxTreeDepth)
    (hlink : ∀ digest, node = .link digest → pathOf here ∈ links.keys) :
    Covered trees here node links := by
  intro names next hdescend
  cases names with
  | nil =>
    obtain rfl := some.inj hdescend
    rw [append_nil]
    exact ⟨hdepth, hlink⟩
  | cons name names =>
    rw [descend, hleaf] at hdescend
    cases hdescend

variable {state after : WalkState}

theorem enterEntry_ok {path : Text} {entryDepth : Nat}
    (h : enterEntry path entryDepth state = .ok after) :
    entryDepth ≤ maxTreeDepth ∧ after.links = state.links := by
  simp only [enterEntry, bind_ok, exists_unit, reject_ok, pure_ok, not_lt] at h
  obtain ⟨hdepth, -, -, rfl⟩ := h
  exact ⟨hdepth, rfl⟩

theorem enterFile_links {byteLen : Nat} (h : enterFile state digest byteLen = .ok after)
    : after.links = state.links := by
  simp only [enterFile, bind_ok, exists_unit, pure_ok] at h
  obtain ⟨-, -, rfl⟩ := h
  rfl

theorem enterSymlink_links {path : Text} (h : enterSymlink symlinks state path digest = .ok after) :
    symlinks.contains digest = true ∧ after.links = state.links.insert path digest := by
  simp only [enterSymlink, bind_ok, exists_unit, reject_ok, pure_ok, Bool.not_eq_false] at h
  obtain ⟨hcontains, rfl⟩ := h
  exact ⟨hcontains, rfl⟩

/-- What a walk of `node` at `here` does to the links. -/
def Walks (trees : SortedMap Digest (TreeObject sha256)) (symlinks : SortedMap Digest SymlinkObject)
    (root : Digest) (here : List Text) (node : Node) (links after : SortedMap Text Digest) : Prop :=
  Sound trees symlinks root links → Sound trees symlinks root after ∧
    (∀ path ∈ links.keys, path ∈ after.keys) ∧ Covered trees here node after

section Entries

variable {descend : Digest → Text → WalkState → Except TreeGraphError WalkState}

theorem walkEntry_walks {e : TreeEntry} (hplain : ∀ name ∈ here, Plain name)
    (hnode : nodeAt trees root (here ++ [e.name.val]) = some e.kind.node)
    (hdescend : ∀ child state after,
      nodeAt trees root (here ++ [e.name.val]) = some (.directory child) →
      (here ++ [e.name.val]).length ≤ maxTreeDepth →
      descend child (pathOf (here ++ [e.name.val])) state = .ok after →
      Walks trees symlinks root (here ++ [e.name.val]) (.directory child) state.links
        after.links)
    (h : walkEntry trees symlinks descend (pathOf here) here.length state e = .ok after) :
    Walks trees symlinks root (here ++ [e.name.val]) e.kind.node state.links
      after.links := by
  rw [walkEntry, joinPath_name hplain (plain_name e), bind_ok] at h
  obtain ⟨entered, henter, h⟩ := h
  obtain ⟨hdepth, hentered⟩ := enterEntry_ok henter
  have hlen : (here ++ [e.name.val]).length ≤ maxTreeDepth := by
    rw [length_append]
    exact hdepth
  rw [← hentered]
  cases hkind : e.kind with
  | file digest byteLen =>
    rw [hkind] at h
    rw [enterFile_links h]
    intro hsound
    exact ⟨hsound, fun _ hpath => hpath,
      covered_leaf (fun _ => rfl) hlen (by simp [TreeEntryKind.node])⟩
  | directory child =>
    simp only [hkind, bind_ok, exists_unit] at h
    obtain ⟨childTree, -, -, h⟩ := h
    rw [hkind] at hnode
    exact hdescend child.val entered after hnode hlen h
  | safeRelativeSymlink digest =>
    rw [hkind] at h hnode
    obtain ⟨hcontains, hlinks⟩ := enterSymlink_links h
    rw [hlinks]
    intro hsound
    refine ⟨?_, ?_, covered_leaf (fun _ => rfl) hlen ?_⟩
    · intro path found hget
      rcases of_get?_insert hget with ⟨hpath, rfl⟩ | hget
      · exact ⟨hcontains, here ++ [e.name.val], hnode, hpath⟩
      · exact hsound path found hget
    · intro path hpath
      exact mem_keys_insert.2 (Or.inr hpath)
    · intro _ _
      exact mem_keys_insert.2 (Or.inl rfl)

theorem foldlM_walks {es : List TreeEntry} (hentry : ∀ e ∈ es, ∀ state after,
      walkEntry trees symlinks descend (pathOf here) here.length state e = .ok after →
      Walks trees symlinks root (here ++ [e.name.val]) e.kind.node state.links
        after.links) :
    ∀ {state : WalkState}, es.foldlM
        (walkEntry trees symlinks descend (pathOf here) here.length) state = .ok after →
      Sound trees symlinks root state.links → Sound trees symlinks root after.links ∧
        (∀ path ∈ state.links.keys, path ∈ after.links.keys) ∧
        ∀ e ∈ es,
          Covered trees (here ++ [e.name.val]) e.kind.node after.links := by
  induction es with
  | nil =>
    intro state h hsound
    rw [foldlM_nil, pure_ok] at h
    subst h
    exact ⟨hsound, fun _ hpath => hpath, by simp⟩
  | cons e es ih =>
    intro state h hsound
    rw [foldlM_cons, bind_ok] at h
    obtain ⟨mid, hfirst, hrest⟩ := h
    obtain ⟨hsound', hkeep, hcov⟩ := hentry e mem_cons_self state mid hfirst hsound
    obtain ⟨hlast, hkeep', hall⟩ :=
      ih (fun other hother => hentry other (mem_cons_of_mem _ hother)) hrest hsound'
    refine ⟨hlast, fun path hpath => hkeep' path (hkeep path hpath), ?_⟩
    exact forall_mem_cons.2 ⟨hcov.mono hkeep', hall⟩

theorem walkObject_walks {ancestors : List Digest}
    (hhere : nodeAt trees root here = some (.directory digest))
    (hlen : here.length ≤ maxTreeDepth) (hdescend : ∀ name child state after,
      nodeAt trees root (here ++ [name]) = some (.directory child) →
      (here ++ [name]).length ≤ maxTreeDepth →
      descend child (pathOf (here ++ [name])) state = .ok after →
      Walks trees symlinks root (here ++ [name]) (.directory child) state.links after.links)
    (h : walkObject trees symlinks descend digest (pathOf here) here.length ancestors state =
      .ok after) :
    Walks trees symlinks root here (.directory digest) state.links after.links := by
  intro hsound
  simp only [walkObject, bind_ok, exists_unit, require_ok] at h
  obtain ⟨-, tree, htree, h⟩ := h
  have hentry : ∀ e ∈ tree.entries, ∀ state after,
      walkEntry trees symlinks descend (pathOf here) here.length state e = .ok after →
      Walks trees symlinks root (here ++ [e.name.val]) e.kind.node state.links
        after.links := by
    intro e hentry state after hstep
    have hnode : nodeAt trees root (here ++ [e.name.val]) = some e.kind.node := by
      rw [nodeAt_concat hhere, child_eq_some]
      exact ⟨digest, tree, e, rfl, htree, find?_entry tree hentry, rfl⟩
    exact walkEntry_walks (plain_of_nodeAt hhere) hnode (hdescend e.name.val) hstep
  obtain ⟨hlast, hkeep, hcov⟩ := foldlM_walks hentry h hsound
  refine ⟨hlast, hkeep, ?_⟩
  intro names next hbelow
  cases names with
  | nil =>
    obtain rfl := some.inj hbelow
    rw [append_nil]
    exact ⟨hlen, fun _ heq => by cases heq⟩
  | cons name names =>
    rw [Node.descend, bind_eq_some_iff] at hbelow
    obtain ⟨found, hchild, hrest⟩ := hbelow
    obtain ⟨_, other, e, heq, hother, hfind, rfl⟩ := child_eq_some.1 hchild
    cases heq
    obtain rfl := some.inj (htree.symm.trans hother)
    have hname : e.name.val = name := by simpa using find?_some hfind
    have hres := hcov e (mem_of_find?_eq_some hfind) names next hrest
    rw [hname, append_assoc] at hres
    exact hres

end Entries

theorem walkTree_walks : ∀ {left : Nat} {digest : Digest} {here : List Text}
    {ancestors : List Digest} {state after : WalkState},
    nodeAt trees root here = some (.directory digest) → here.length ≤ maxTreeDepth →
      walkTree trees symlinks left digest (pathOf here) here.length ancestors state = .ok after →
      Walks trees symlinks root here (.directory digest) state.links after.links := by
  intro left
  induction left with
  | zero =>
    intro digest here ancestors state after hhere hlen h
    refine walkObject_walks hhere hlen ?_ h
    intro name child state after _ _ hnone
    cases hnone
  | succ left ih =>
    intro digest here ancestors state after hhere hlen h
    refine walkObject_walks hhere hlen ?_ h
    intro name child state after hchild hdepth hwalk
    have hnext : here.length + 1 = (here ++ [name]).length := by simp
    rw [hnext] at hwalk
    exact ih hchild hdepth hwalk

/-- What a successful walk says of the unfolded tree. -/
structure Walked (trees : SortedMap Digest (TreeObject sha256))
    (symlinks : SortedMap Digest SymlinkObject) (root : Digest) (links : SortedMap Text Digest) :
    Prop where
  depth : ∀ names node, nodeAt trees root names = some node → names.length ≤ maxTreeDepth
  linkAt : ∀ names digest, nodeAt trees root names = some (.link digest) ↔
    (∀ name ∈ names, Plain name) ∧ links.get? (pathOf names) = some digest
  plain : PlainLinks links
  objects : ∀ path digest, links.get? path = some digest → symlinks.contains digest = true

theorem walkTree_walked
    (h : walkTree trees symlinks maxTreeDepth root [] 0 [] .default = .ok state) :
    Walked trees symlinks root state.links := by
  have hempty : Sound trees symlinks root WalkState.default.links := by
    intro path digest hget
    cases hget
  have hwalk : Walks trees symlinks root [] (.directory root) WalkState.default.links state.links :=
    walkTree_walks rfl (Nat.zero_le _) h
  obtain ⟨hsound, -, hcov⟩ := hwalk hempty
  refine ⟨?_, ?_, ?_, fun path digest hget => (hsound path digest hget).1⟩
  · intro names node hnode
    exact (hcov names node hnode).1
  · intro names digest
    constructor
    · intro hnode
      have hplain := plain_of_nodeAt hnode
      refine ⟨hplain, ?_⟩
      obtain ⟨found, hget⟩ := mem_keys.1 ((hcov names _ hnode).2 digest rfl)
      obtain ⟨-, other, hother, hpath⟩ := hsound _ found hget
      obtain rfl := pathOf_injective hplain (plain_of_nodeAt hother) hpath
      rw [nil_append] at hget
      rw [hget]
      rw [hnode] at hother
      cases hother
      rfl
    · rintro ⟨hplain, hget⟩
      obtain ⟨-, other, hother, hpath⟩ := hsound _ digest hget
      rw [pathOf_injective hplain (plain_of_nodeAt hother) hpath]
      exact hother
  · intro path hpath
    obtain ⟨digest, hget⟩ := mem_keys.1 hpath
    obtain ⟨-, names, hnode, rfl⟩ := hsound path digest hget
    have hplain := plain_of_nodeAt hnode
    induction names using reverseRecOn with
    | nil => cases hnode
    | append_singleton front name _ =>
      exact ⟨front, name, fun other hother => hplain other (mem_append_left _ hother),
        hplain name (by simp), rfl⟩

end Walk

/-! ## 3. The edges of a link -/

variable {targets : List (Text × Text)}

section Edges

structure IsLink (trees : SortedMap Digest (TreeObject sha256))
    (symlinks : SortedMap Digest SymlinkObject) (root : Digest) (targets : List (Text × Text))
    (front : List Text) (name : Text) (object : SymlinkObject) : Prop where
  node : ∃ digest, nodeAt trees root (front ++ [name]) = some (.link digest) ∧
    symlinks.get? digest = some object
  parent : ∃ digest, nodeAt trees root front = some (.directory digest)
  segments : ∀ segment ∈ object.val.segments, validatePathSegment segment = .ok ()
  relative : object.val.head? ≠ some '/'
  target : (pathOf (front ++ [name]), pathOf (front ++ object.val.segments)) ∈ targets

theorem valid_ne_dots {seg : Text} (h : validatePathSegment seg = .ok ()) :
    ¬ (seg = [] ∨ seg = ['.']) ∧ seg ≠ ['.', '.'] := by
  obtain ⟨hnonempty, -, hdots, -⟩ := validatePathSegment_ok.1 h
  rw [not_or] at hdots ⊢
  exact ⟨⟨hnonempty, hdots.1⟩, hdots.2⟩

theorem isLink_of_node (hwalked : Walked trees symlinks root links)
    (htargets : resolveTargets links symlinks = .ok targets) {front : List Text} {name : Text}
    (hnode : nodeAt trees root (front ++ [name]) = some (.link digest)) :
    ∃ object, symlinks.get? digest = some object ∧
      IsLink trees symlinks root targets front name object := by
  obtain ⟨hplain, hget⟩ := (hwalked.linkAt _ digest).1 hnode
  obtain ⟨hkeys, hmem⟩ := resolveTargets_ok htargets
  have hkey : pathOf (front ++ [name]) ∈ targets.map Prod.fst := by
    rw [hkeys]
    exact mem_keys.2 ⟨digest, hget⟩
  obtain ⟨⟨path, res⟩, htarget, hpath⟩ := mem_map.1 hkey
  obtain rfl : path = pathOf (front ++ [name]) := hpath
  obtain ⟨found, object, hfound, hobj, hsafe⟩ := (hmem _ res).1 htarget
  obtain rfl := some.inj (hget.symm.trans hfound)
  have hfront : ∀ name ∈ front, Plain name :=
    fun other hother => hplain other (mem_append_left _ hother)
  obtain ⟨-, rfl, -⟩ := plain_of_safe hfront (hplain name (by simp)) hsafe
  obtain ⟨hrelative, -, hsegs, -⟩ := safeTargetPath_ok.1 hsafe
  exact ⟨object, hobj, ⟨digest, hnode, hobj⟩, nodeAt_front hnode (by simp), hsegs,
    hrelative, htarget⟩

variable {object : SymlinkObject}

theorem segments_ne_nil (path : Text) : path.segments ≠ [] := splitOn_ne_nil '/' path

section

variable (hwalked : Walked trees symlinks root links)
  (htargets : resolveTargets links symlinks = .ok targets)
  (hlink : IsLink trees symlinks root targets front name object)
include hwalked htargets hlink

theorem IsLink.mem_targets (path : Text) :
    path ∈ (linkGraph links targets).targets (pathOf (front ++ [name])) ↔
      ∃ more digest, more <+: object.val.segments ∧ more ≠ [] ∧ path = pathOf (front ++ more) ∧
        nodeAt trees root (front ++ more) = some (.link digest) := by
  obtain ⟨digest, hfront⟩ := hlink.parent
  have hplain : ∀ segment ∈ front ++ object.val.segments, Plain segment := by
    intro segment hseg
    rcases mem_append.1 hseg with hseg | hseg
    · exact plain_of_nodeAt hfront segment hseg
    · exact plain_of_valid (hlink.segments segment hseg)
  have hne : front ++ object.val.segments ≠ [] := by simp [segments_ne_nil]
  have hsegs := segments_pathOf hplain hne
  rw [linkGraph_targets (resolveTargets_ok htargets).1 hlink.target,
    mem_dependencies (by rw [hsegs]; exact hplain), hsegs]
  constructor
  · rintro ⟨hkey, hprefix⟩
    obtain ⟨found, hget⟩ := mem_keys.1 hkey
    obtain ⟨names, last, hnames, hlast, rfl⟩ := hwalked.plain path hkey
    have hall : ∀ other ∈ names ++ [last], Plain other := by
      intro other hother
      rcases mem_append.1 hother with hother | hother
      · exact hnames other hother
      · exact mem_singleton.1 hother ▸ hlast
    have hnode := (hwalked.linkAt (names ++ [last]) found).2 ⟨hall, hget⟩
    rw [segments_pathOf hall (by simp)] at hprefix
    -- A prefix of the link's own directory is a directory, so no link.
    rcases prefix_or_prefix_of_prefix hprefix (prefix_append front _) with habove | habove
    · obtain ⟨back, hback⟩ := habove
      exfalso
      by_cases hnil : back = []
      · rw [hnil, append_nil] at hback
        rw [hback, hfront] at hnode
        cases hnode
      · rw [← hback] at hfront
        obtain ⟨_, hdir⟩ := nodeAt_front hfront hnil
        rw [hnode] at hdir
        cases hdir
    · obtain ⟨more, hmore⟩ := habove
      rw [← hmore] at hprefix hnode ⊢
      refine ⟨more, found, (prefix_append_right_inj front).1 hprefix, ?_, rfl, hnode⟩
      rintro rfl
      rw [append_nil, hfront] at hnode
      cases hnode
  · rintro ⟨more, found, hmore, hnonempty, rfl, hnode⟩
    obtain ⟨hall, hget⟩ := (hwalked.linkAt _ found).1 hnode
    refine ⟨mem_keys.2 ⟨found, hget⟩, ?_⟩
    rw [segments_pathOf hall (by simp [hnonempty])]
    exact (prefix_append_right_inj front).2 hmore

theorem IsLink.single :
    ∀ first ∈ (linkGraph links targets).targets (pathOf (front ++ [name])),
      ∀ second ∈ (linkGraph links targets).targets (pathOf (front ++ [name])), first = second := by
  intro first hfirst second hsecond
  obtain ⟨more, digest, hmore, -, rfl, hnode⟩ := (hlink.mem_targets hwalked htargets _).1 hfirst
  obtain ⟨more', digest', hmore', -, rfl, hnode'⟩ :=
    (hlink.mem_targets hwalked htargets _).1 hsecond
  rcases prefix_or_prefix_of_prefix hmore hmore' with h | h
  · rw [link_of_front hnode hnode' ((prefix_append_right_inj front).2 h)]
  · rw [link_of_front hnode' hnode ((prefix_append_right_inj front).2 h)]

end

end Edges

/-! ## 4. Steps of a resolution -/

section Steps

variable {fuel : Nat}

section

variable (hname : validatePathSegment name = .ok ())
include hname

theorem resolve_directory (hnode : nodeAt trees root (here ++ [name]) = some (.directory digest)) :
    resolve trees root symlinks (fuel + 1) here (name :: rest) =
      resolve trees root symlinks fuel (here ++ [name]) rest := by
  obtain ⟨hstay, hup⟩ := valid_ne_dots hname
  rw [resolve, if_neg hstay, if_neg hup, hnode]

theorem resolve_link {object : SymlinkObject} {targets : List (Text × Text)}
    (hlink : IsLink trees symlinks root targets here name object) :
    resolve trees root symlinks (fuel + 1) here (name :: rest) =
      resolve trees root symlinks fuel here (object.val.segments ++ rest) := by
  obtain ⟨hstay, hup⟩ := valid_ne_dots hname
  obtain ⟨digest, hnode, hobj⟩ := hlink.node
  rw [resolve, if_neg hstay, if_neg hup, hnode]
  simp only [hobj, if_neg hlink.relative]

theorem terminates_leaf
    (hdir : ∀ digest, nodeAt trees root (here ++ [name]) ≠ some (.directory digest))
    (hlink : ∀ digest, nodeAt trees root (here ++ [name]) ≠ some (.link digest)) :
    Terminates trees root symlinks here (name :: rest) := by
  obtain ⟨hstay, hup⟩ := valid_ne_dots hname
  cases hnode : nodeAt trees root (here ++ [name]) with
  | none => exact ⟨1, .missing, by rw [resolve, if_neg hstay, if_neg hup, hnode]⟩
  | some node =>
    cases node with
    | directory digest => exact absurd hnode (hdir digest)
    | link digest => exact absurd hnode (hlink digest)
    | file => exact ⟨1, _, by rw [resolve, if_neg hstay, if_neg hup, hnode]⟩

end

end Steps

/-! ## 5. Resolution with every link visited -/

section Visited

theorem terminates_cons {here rest : List Text} {name : Text}
    (hvalid : validatePathSegment name = .ok ())
    (hbelow : ∀ digest, nodeAt trees root (here ++ [name]) = some (.directory digest) →
      Terminates trees root symlinks (here ++ [name]) rest)
    (hlink : ∀ digest, nodeAt trees root (here ++ [name]) = some (.link digest) →
      Terminates trees root symlinks here (name :: rest)) :
    Terminates trees root symlinks here (name :: rest) := by
  cases hnode : nodeAt trees root (here ++ [name]) with
  | none => exact terminates_leaf hvalid (by simp [hnode]) (by simp [hnode])
  | some node =>
    cases node with
    | file => exact terminates_leaf hvalid (by simp [hnode]) (by simp [hnode])
    | directory digest =>
      obtain ⟨fuel, outcome, hresolve⟩ := hbelow digest hnode
      exact ⟨fuel + 1, outcome, by rw [resolve_directory hvalid hnode, hresolve]⟩
    | link digest => exact hlink digest hnode

/-- With the links ranked along their edges, every path of names resolves. -/
theorem terminates (hwalked : Walked trees symlinks root links)
    (htargets : resolveTargets links symlinks = .ok targets) {rank : Text → Nat}
    (hrank : ∀ before ∈ links.keys, ∀ t ∈ links.keys,
      t ∈ (linkGraph links targets).targets before → rank t < rank before) :
    ∀ {here rest : List Text}, (∀ name ∈ rest, validatePathSegment name = .ok ()) →
      Terminates trees root symlinks here rest := by
  intro here
  induction hlevel : maxTreeDepth - here.length using Nat.strong_induction_on
    generalizing here with
  | _ level deeper =>
  have hbelow : ∀ {name : Text} {rest : List Text},
      (∀ other ∈ rest, validatePathSegment other = .ok ()) → ∀ digest,
      nodeAt trees root (here ++ [name]) = some (.directory digest) →
      Terminates trees root symlinks (here ++ [name]) rest := by
    intro name rest hrest digest hnode
    have hlen := hwalked.depth _ _ hnode
    refine deeper _ ?_ rfl hrest
    rw [length_append, length_singleton] at hlen ⊢
    omega
  have hname : ∀ (name : Text) (rest : List Text), validatePathSegment name = .ok () →
      (∀ other ∈ rest, validatePathSegment other = .ok ()) →
      Terminates trees root symlinks here (name :: rest) := by
    intro name
    induction hposition : rank (pathOf (here ++ [name])) using Nat.strong_induction_on
      generalizing name with
    | _ pos sibling =>
    intro rest hvalid hrest
    refine terminates_cons hvalid (hbelow hrest) fun digest hnode => ?_
    obtain ⟨object, hobj, hlink⟩ := isLink_of_node hwalked htargets hnode
    suffices hnext : Terminates trees root symlinks here (object.val.segments ++ rest) by
      obtain ⟨fuel, outcome, hresolve⟩ := hnext
      exact ⟨fuel + 1, outcome, by rw [resolve_link hvalid hlink, hresolve]⟩
    have hmem := hlink.mem_targets hwalked htargets
    have hsegs := hlink.segments
    cases htarget : object.val.segments with
    | nil => exact absurd htarget (segments_ne_nil _)
    | cons first others =>
      rw [htarget] at hsegs hmem
      obtain ⟨hfirst, hothers⟩ := forall_mem_cons.1 hsegs
      have hafter : ∀ other ∈ others ++ rest, validatePathSegment other = .ok () := by
        intro other hother
        rcases mem_append.1 hother with hother | hother
        · exact hothers other hother
        · exact hrest other hother
      rw [cons_append]
      refine terminates_cons hfirst (hbelow hafter) fun found hfirstnode => ?_
      -- a link to a link beside it goes down in rank
      have hedge : pathOf (here ++ [first]) ∈
          (linkGraph links targets).targets (pathOf (here ++ [name])) :=
        (hmem _).2 ⟨[first], found, by simp, by simp, rfl, hfirstnode⟩
      have hkey : ∀ {other : Text} {digest : Digest},
          nodeAt trees root (here ++ [other]) = some (.link digest) →
          pathOf (here ++ [other]) ∈ links.keys :=
        fun hother => mem_keys.2 ⟨_, ((hwalked.linkAt _ _).1 hother).2⟩
      have hless := hrank _ (hkey hnode) _ (hkey hfirstnode) hedge
      rw [hposition] at hless
      exact sibling _ hless first rfl (others ++ rest) hfirst hafter
  intro rest hrest
  cases rest with
  | nil => exact ⟨1, .found here, rfl⟩
  | cons name rest =>
    obtain ⟨hfirst, hothers⟩ := forall_mem_cons.1 hrest
    exact hname name rest hfirst hothers

end Visited

/-! ## 6. Resolution with links that were not visited -/

section Missed

theorem loops_below : ∀ {front here : List Text},
    (∃ digest, nodeAt trees root (here ++ front) = some (.directory digest)) →
      (∀ fuel, resolve trees root symlinks fuel (here ++ front) rest = none) →
      ∀ fuel, resolve trees root symlinks fuel here (front ++ rest) = none
  | [], here, _, hloop, fuel => by
    rw [append_nil] at hloop
    exact hloop fuel
  | name :: front, here, ⟨digest, hnode⟩, hloop, fuel => by
    have hshift : here ++ name :: front = (here ++ [name]) ++ front := by simp
    rw [hshift] at hloop hnode
    have hvalid : validatePathSegment name = .ok () := valid_of_nodeAt hnode name (by simp)
    obtain ⟨found, hdir⟩ :
        ∃ found, nodeAt trees root (here ++ [name]) = some (.directory found) := by
      by_cases hnil : front = []
      · rw [hnil, append_nil] at hnode
        exact ⟨digest, hnode⟩
      · exact nodeAt_front hnode hnil
    cases fuel with
    | zero => rfl
    | succ fuel =>
      rw [cons_append, resolve_directory hvalid hdir]
      exact loops_below ⟨digest, hnode⟩ hloop fuel

/-- Links with their edges among themselves send a resolution round. -/
theorem loops (hwalked : Walked trees symlinks root links)
    (htargets : resolveTargets links symlinks = .ok targets) {missed : Finset Text}
    (hmissed : ∀ path ∈ missed, path ∈ links.keys) (hsome : missed.Nonempty)
    (hclosed : ∀ path ∈ missed, ∃ t ∈ missed,
      t ∈ (linkGraph links targets).targets path) :
    ∃ names node, nodeAt trees root names = some node ∧
      ¬ Terminates trees root symlinks [] names := by
  obtain ⟨deepest, hdeepest, hmax⟩ :=
    Finset.exists_max_image missed (fun path => path.segments.length) hsome
  have hround : ∀ (fuel : Nat) (front : List Text) (name : Text) (rest : List Text)
      (digest : Digest), nodeAt trees root (front ++ [name]) = some (.link digest) →
      pathOf (front ++ [name]) ∈ missed → front.length + 1 = deepest.segments.length →
      resolve trees root symlinks fuel front (name :: rest) = none := by
    intro fuel
    induction fuel with
    | zero =>
      intro front name rest digest _ _ _
      rfl
    | succ fuel ih =>
      intro front name rest digest hnode hmem hdepth
      obtain ⟨object, -, hlink⟩ := isLink_of_node hwalked htargets hnode
      obtain ⟨t, htarget, hedge⟩ := hclosed _ hmem
      obtain ⟨more, found, hmore, hnonempty, rfl, hnext⟩ :=
        (hlink.mem_targets hwalked htargets _).1 hedge
      -- The t is no deeper than the deepest, so it is a sibling.
      have hlen := hmax _ htarget
      rw [segments_pathOf (plain_of_nodeAt hnext) (by simp [hnonempty]), length_append] at hlen
      have hone : more.length = 1 := by
        have hpos := length_pos_iff.2 hnonempty
        omega
      obtain ⟨first, rfl⟩ := length_eq_one_iff.1 hone
      obtain ⟨others, hothers⟩ := hmore
      have hvalid : validatePathSegment name = .ok () := valid_of_nodeAt hnode name (by simp)
      rw [resolve_link hvalid hlink, ← hothers, append_assoc, singleton_append]
      exact ih front first (others ++ rest) found hnext htarget hdepth
  obtain ⟨digest, hget⟩ := mem_keys.1 (hmissed _ hdeepest)
  obtain ⟨front, name, hfront, hname, rfl⟩ := hwalked.plain _ (hmissed _ hdeepest)
  have hplain : ∀ other ∈ front ++ [name], Plain other := by
    intro other hother
    rcases mem_append.1 hother with hother | hother
    · exact hfront other hother
    · exact mem_singleton.1 hother ▸ hname
  have hnode := (hwalked.linkAt _ digest).2 ⟨hplain, hget⟩
  refine ⟨front ++ [name], _, hnode, ?_⟩
  rintro ⟨fuel, outcome, hresolve⟩
  have hloop : ∀ fuel, resolve trees root symlinks fuel ([] ++ front) [name] = none := by
    intro fuel
    refine hround fuel front name [] digest hnode hdeepest ?_
    rw [segments_pathOf hplain (by simp), length_append, length_singleton]
  rw [loops_below (nodeAt_front hnode (by simp)) hloop fuel] at hresolve
  cases hresolve

end Missed

/-! ## 7. Resolution stays inside -/

theorem staysInside_mono {depth deeper : Nat} (hle : depth ≤ deeper)
    (h : staysInside depth rest = true) : staysInside deeper rest = true := by
  induction rest generalizing depth deeper with
  | nil => rfl
  | cons seg rest ih =>
    rw [staysInside] at h ⊢
    split_ifs at h ⊢
    · exact ih hle h
    · rw [Bool.and_eq_true, decide_eq_true_eq] at h ⊢
      exact ⟨by omega, ih (by omega) h.2⟩
    · exact ih (by omega) h

theorem staysInside_names {names : List Text}
    (hvalid : ∀ name ∈ names, validatePathSegment name = .ok ()) {depth : Nat} :
    staysInside depth (names ++ rest) = staysInside (depth + names.length) rest := by
  induction names generalizing depth with
  | nil => rfl
  | cons name names ih =>
    obtain ⟨hname, hnames⟩ := forall_mem_cons.1 hvalid
    obtain ⟨hstay, hup⟩ := valid_ne_dots hname
    rw [cons_append, staysInside, if_neg hstay, if_neg hup, ih hnames, length_cons]
    congr 1
    omega

section Inside

/-- A target without `..` leads at least one level deeper. -/
theorem not_escapes (hwalked : Walked trees symlinks root links)
    (htargets : resolveTargets links symlinks = .ok targets)
    (hinside : staysInside here.length rest = true) : ¬ Escapes trees root symlinks here rest := by
  rintro ⟨fuel, hescaped⟩
  induction fuel generalizing here rest with
  | zero => cases hescaped
  | succ fuel ih =>
    cases rest with
    | nil => cases hescaped
    | cons seg rest =>
      rw [staysInside] at hinside
      rw [resolve] at hescaped
      by_cases hstay : seg = [] ∨ seg = ['.']
      · rw [if_pos hstay] at hinside hescaped
        exact ih hinside hescaped
      rw [if_neg hstay] at hinside hescaped
      by_cases hup : seg = ['.', '.']
      · rw [if_pos hup, Bool.and_eq_true, decide_eq_true_eq] at hinside
        rw [if_pos hup, if_neg (length_pos_iff.1 (Nat.pos_of_ne_zero hinside.1))] at hescaped
        refine ih ?_ hescaped
        rw [length_dropLast]
        exact hinside.2
      rw [if_neg hup] at hinside hescaped
      cases hnode : nodeAt trees root (here ++ [seg]) with
      | none =>
        rw [hnode] at hescaped
        cases hescaped
      | some node =>
        cases node with
        | directory digest =>
          rw [hnode] at hescaped
          refine ih ?_ hescaped
          rw [length_append]
          exact hinside
        | file =>
          rw [hnode] at hescaped
          by_cases hlast : rest = [] <;> simp [hlast] at hescaped
        | link digest =>
          obtain ⟨object, -, hlink⟩ := isLink_of_node hwalked htargets hnode
          have hvalid := valid_of_nodeAt hnode seg (by simp)
          have hstep : resolve trees root symlinks (fuel + 1) here (seg :: rest) =
              resolve trees root symlinks fuel here (object.val.segments ++ rest) :=
            resolve_link hvalid hlink
          rw [resolve, if_neg hstay, if_neg hup] at hstep
          rw [hstep] at hescaped
          refine ih ?_ hescaped
          rw [staysInside_names hlink.segments]
          have hpos := length_pos_iff.2 (segments_ne_nil object.val)
          exact staysInside_mono (by omega) hinside

end Inside

/-! ## 8. The result -/

section Result

/-- The targets of all links are safe relative targets. -/
def SafeLinks (links : SortedMap Text Digest) (symlinks : SortedMap Digest SymlinkObject) : Prop :=
  ∀ path digest object, links.get? path = some digest → symlinks.get? digest = some object →
    ∃ resolved, safeTargetPath path object.val = .ok resolved

theorem resolveTargets_of_safe (hsafe : SafeLinks links symlinks)
    (hobjs : ∀ path digest, links.get? path = some digest → symlinks.contains digest = true) :
    ∃ targets, resolveTargets links symlinks = .ok targets := by
  refine exists_mapM_ok ?_
  rintro ⟨path, digest⟩ hmem
  have hget := get?_eq_some.2 hmem
  obtain ⟨object, hobj⟩ :=
    mem_keys.1 (contains_iff.1 (hobjs path digest hget))
  obtain ⟨res, hresolved⟩ := hsafe path digest object hget hobj
  refine ⟨(path, res), ?_⟩
  simp only [bind_ok, require_ok, pure_ok]
  exact ⟨object, hobj, res, hresolved, rfl⟩

theorem validateSymlinks_iff_terminates {root : Digest}
    {trees : SortedMap Digest (TreeObject sha256)} (hwalked : Walked trees symlinks root links)
    (hsafe : SafeLinks links symlinks) :
    validateSymlinks links symlinks = .ok () ↔
      ∀ names node, nodeAt trees root names = some node →
        Terminates trees root symlinks [] names := by
  obtain ⟨targets, htargets⟩ := resolveTargets_of_safe hsafe hwalked.objects
  obtain ⟨visited, left, hprog, hiff⟩ := validateSymlinks_iff hwalked.plain htargets
  rw [hiff]
  constructor
  · intro hall names node hnode
    obtain ⟨rank, hrank⟩ := hprog.rank fun path hpath => hall path (List.mem_toFinset.1 hpath)
    simp only [List.mem_toFinset] at hrank
    exact terminates hwalked htargets hrank (valid_of_nodeAt hnode)
  · intro hterminates
    by_contra hmissed
    obtain ⟨path, hpath⟩ := not_forall.1 hmissed
    obtain ⟨hkey, hnot⟩ := Classical.not_imp.1 hpath
    have hmem : ∀ path, path ∈ (links.keys.toFinset.filter fun path => path ∉ visited) ↔
        path ∈ links.keys ∧ path ∉ visited := by simp
    have hpreceded : ∀ path ∈ links.keys.toFinset.filter (fun path => path ∉ visited),
        ∃ before ∈ links.keys.toFinset.filter (fun path => path ∉ visited),
          path ∈ (linkGraph links targets).targets before := by
      intro path hpath
      obtain ⟨hkey, hnot⟩ := (hmem path).1 hpath
      obtain ⟨before, hbefore, hbeforenot, hedge⟩ :=
        hprog.preceded (mem_toFinset.2 hkey) hnot
      exact ⟨before, (hmem before).2 ⟨mem_toFinset.1 hbefore, hbeforenot⟩, hedge⟩
    have hsingle : ∀ path ∈ links.keys.toFinset.filter (fun path => path ∉ visited),
        ∀ first ∈ (linkGraph links targets).targets path,
          ∀ second ∈ (linkGraph links targets).targets path, first = second := by
      intro path hpath
      obtain ⟨hkey, -⟩ := (hmem path).1 hpath
      obtain ⟨digest, hget⟩ := mem_keys.1 hkey
      obtain ⟨front, name, hfront, hname, rfl⟩ := hwalked.plain path hkey
      have hplain : ∀ other ∈ front ++ [name], Plain other := by
        intro other hother
        rcases mem_append.1 hother with hother | hother
        · exact hfront other hother
        · exact mem_singleton.1 hother ▸ hname
      obtain ⟨object, -, hlink⟩ :=
        isLink_of_node hwalked htargets ((hwalked.linkAt _ digest).2 ⟨hplain, hget⟩)
      exact hlink.single hwalked htargets
    obtain ⟨names, node, hnode, hloops⟩ := loops hwalked htargets
      (fun path hpath => ((hmem path).1 hpath).1) ⟨path, (hmem path).2 ⟨hkey, hnot⟩⟩
      (Topological.closed_of_preceded hsingle hpreceded)
    exact hloops (hterminates names node hnode)

/-- **Symlink safety.** Safe links are accepted exactly when every path resolves; then no path
that stays inside on its own leaves the tree. -/
theorem symlinks_safe (root : Digest) (trees : SortedMap Digest (TreeObject sha256))
    (symlinks : SortedMap Digest SymlinkObject) :
    (∀ state, walkTree trees symlinks maxTreeDepth root [] 0 [] .default = .ok state →
      SafeLinks state.links symlinks →
      (validateSymlinks state.links symlinks = .ok () ↔
        ∀ names node, nodeAt trees root names = some node →
          Terminates trees root symlinks [] names)) ∧
    ∀ summary, validateGraph root trees symlinks = .ok summary →
      ∀ here digest rest, nodeAt trees root here = some (.directory digest) →
        staysInside here.length rest = true → ¬ Escapes trees root symlinks here rest := by
  constructor
  · intro state hwalk hsafe
    exact validateSymlinks_iff_terminates (walkTree_walked hwalk) hsafe
  · intro summary hvalid here digest rest _ hinside
    simp only [validateGraph, bind_ok, exists_unit] at hvalid
    obtain ⟨-, state, hwalk, hlinks, -⟩ := hvalid
    rw [validateSymlinks, bind_ok] at hlinks
    obtain ⟨targets, htargets, -⟩ := hlinks
    exact not_escapes (walkTree_walked hwalk) htargets hinside

end Result

/-! ## 9. A tree with one link -/

theorem sampleName_valid : validatePathSegment ['a'] = .ok () := by decide

theorem sampleTarget_valid : validateSymlinkTarget ['b'] = .ok () := by decide

theorem sampleFile_valid : validatePathSegment ['b'] = .ok () := by decide

theorem sampleDigest_lt : (Digest.mk 1).value < 16 ^ 64 := by decide

theorem sampleFileDigest_lt : (Digest.mk 2).value < 16 ^ 64 := by decide

def sampleEntries : List TreeEntry :=
  [.safeRelativeSymlink ⟨['a'], sampleName_valid⟩ ⟨⟨1⟩, sampleDigest_lt⟩,
    ⟨⟨['b'], sampleFile_valid⟩, 0o644#32, .file ⟨⟨2⟩, sampleFileDigest_lt⟩ 3⟩]

theorem sampleEntries_sorted : sortEntries sampleEntries = sampleEntries := by decide

theorem sampleEntries_valid : checkTree (fun _ => ⟨0⟩) 0o755#32 sampleEntries = .ok () := by decide

/-- A tree with a link to the file beside it. -/
def sampleTree : TreeObject fun _ => ⟨0⟩ :=
  ⟨0o755#32, sampleEntries, sampleEntries_sorted, sampleEntries_valid⟩

def sampleTrees : SortedMap Digest (TreeObject fun _ => ⟨0⟩) :=
  SortedMap.empty.insert ⟨0⟩ sampleTree

def sampleSymlinks : SortedMap Digest SymlinkObject :=
  SortedMap.empty.insert ⟨1⟩ ⟨['b'], sampleTarget_valid⟩

def sampleLinks : SortedMap Text Digest := SortedMap.empty.insert ['a'] ⟨1⟩

theorem sampleLinks_safe : SafeLinks sampleLinks sampleSymlinks := by
  intro path digest object hlink hobj
  rw [sampleLinks, get?_insert] at hlink
  rw [sampleSymlinks, get?_insert] at hobj
  split at hlink
  · rename_i hpath
    obtain rfl := some.inj hlink
    obtain rfl := some.inj hobj
    rw [hpath]
    exact ⟨['b'], by decide⟩
  · cases hlink

theorem symlinks_safe_sample :
    (∀ names node, nodeAt sampleTrees ⟨0⟩ names = some node →
      Terminates sampleTrees ⟨0⟩ sampleSymlinks [] names) ∧
    ¬ Escapes sampleTrees ⟨0⟩ sampleSymlinks [] [['a'], ['.', '.']] :=
  ⟨((symlinks_safe ⟨0⟩ sampleTrees sampleSymlinks).1 ⟨2, 3, 1, [(⟨2⟩, 3)], sampleLinks⟩
      rfl sampleLinks_safe).1 (by decide +kernel),
    (symlinks_safe ⟨0⟩ sampleTrees sampleSymlinks).2 ⟨2, 3, 1⟩ (by decide +kernel) [] ⟨0⟩ _ rfl
      (by decide)⟩

end Malm.Tree
