/-
Malm.Tree.Unfolding — the logical tree of a graph, entry by entry.

The purpose of `TreeGraphV1::new`, not a function of the source: a shared object stands for
an entry at each of its paths, and the limits and the summary are about those.
-/
import Malm.Tree.ResolutionTheorems

namespace Malm.Tree

open Checks List Option Node

variable {e : TreeEntry} {names : List Text}

/-! ## 1. Entries of the unfolded tree -/

/-- An entry, with the names on the way to it. -/
structure Occurrence where
  names : List Text
  entry : TreeEntry
deriving DecidableEq

def Occurrence.fileBytes (occurrence : Occurrence) : Nat :=
  match occurrence.entry.kind with
  | .file _ byteLen => byteLen
  | _ => 0

def Occurrence.fileLength (occurrence : Occurrence) : Option (Digest × Nat) :=
  match occurrence.entry.kind with
  | .file digest byteLen => some (digest.val, byteLen)
  | _ => none

variable {sha256 : List UInt8 → Digest}

section Spec

variable (trees : SortedMap Digest (TreeObject sha256))
  (symlinks : SortedMap Digest SymlinkObject) (root : Digest) (all : Finset Occurrence)

/-- An entry of an object that a directory of the unfolded tree stands for. -/
def Occurs (occurrence : Occurrence) : Prop :=
  ∃ front digest tree, nodeAt trees root front = some (.directory digest) ∧
    trees.get? digest = some tree ∧ occurrence.entry ∈ tree.entries ∧
    occurrence.names = front ++ [occurrence.entry.name.val]

/-- The unfolded tree is finite, and these are its entries. -/
def Unfolds : Prop := ∀ occurrence, occurrence ∈ all ↔ Occurs trees root occurrence

def summaryOf (all : Finset Occurrence) : TreeSummary where
  entries := all.card
  fileBytes := ∑ occurrence ∈ all, occurrence.fileBytes
  depth := all.sup fun occurrence => occurrence.names.length

/-- The objects of the unfolded tree are there, as their entries say. -/
structure Consistent : Prop where
  root : trees.contains root = true
  directories : ∀ occurrence ∈ all, ∀ child, occurrence.entry.kind = .directory child →
    ∃ tree, trees.get? child.val = some tree ∧ occurrence.entry.mode = tree.rootMode
  links : ∀ occurrence ∈ all, ∀ digest, occurrence.entry.kind = .safeRelativeSymlink digest →
    symlinks.contains digest.val = true
  lengths : ∀ occurrence ∈ all, ∀ other ∈ all, ∀ digest byteLen otherLen,
    occurrence.fileLength = some (digest, byteLen) → other.fileLength = some (digest, otherLen) →
    byteLen = otherLen

structure WithinLimits (all : Finset Occurrence) : Prop where
  entries : (summaryOf all).entries ≤ maxTreeEntries
  fileBytes : (summaryOf all).fileBytes ≤ maxTreeAggregateFileBytes
  depth : (summaryOf all).depth ≤ maxTreeDepth
  pathBytes : ∀ occurrence ∈ all, (pathOf occurrence.names).byteLen ≤ maxTreePathBytes

/-- The links have safe targets, and no path goes round in them. -/
structure SafelyLinked : Prop where
  targets : ∀ occurrence ∈ all, ∀ digest object,
    occurrence.entry.kind = .safeRelativeSymlink digest →
    symlinks.get? digest.val = some object →
    ∃ resolved, safeTargetPath (pathOf occurrence.names) object.val = .ok resolved
  resolves : ∀ occurrence ∈ all, Terminates trees root symlinks [] occurrence.names

/-- The objects by their identities, which are distinct. -/
def IndexOf {α : Type} (identity : α → Digest) (objects : List α) (index : SortedMap Digest α) :
    Prop :=
  ∀ digest object, index.get? digest = some object ↔ object ∈ objects ∧ identity object = digest

end Spec

/-! ## 2. The entries in the order of the walk -/

variable {root digest : Digest} {here : List Text} {deeper : Digest → List Text → List Occurrence}

section Listing

variable (trees : SortedMap Digest (TreeObject sha256))

def unfoldEntry (deeper : Digest → List Text → List Occurrence) (here : List Text)
    (entry : TreeEntry) : List Occurrence :=
  ⟨here ++ [entry.name.val], entry⟩ ::
    match entry.kind with
    | .directory child => deeper child.val (here ++ [entry.name.val])
    | _ => []

def unfoldObject (deeper : Digest → List Text → List Occurrence) (digest : Digest)
    (here : List Text) : List Occurrence :=
  match trees.get? digest with
  | none => []
  | some tree => tree.entries.flatMap (unfoldEntry deeper here)

/-- The entries below a directory, at most `left` levels below its own. -/
def unfoldTree : Nat → Digest → List Text → List Occurrence
  | 0, digest, here => unfoldObject trees (fun _ _ => []) digest here
  | left + 1, digest, here => unfoldObject trees (unfoldTree left) digest here

variable {trees} {occurrence : Occurrence}

theorem mem_unfoldObject : occurrence ∈ unfoldObject trees deeper digest here ↔
    ∃ tree e, trees.get? digest = some tree ∧ e ∈ tree.entries ∧
      (occurrence = ⟨here ++ [e.name.val], e⟩ ∨
        ∃ child, e.kind = .directory child ∧
          occurrence ∈ deeper child.val (here ++ [e.name.val])) := by
  have hentry : ∀ e, occurrence ∈ unfoldEntry deeper here e ↔
      occurrence = ⟨here ++ [e.name.val], e⟩ ∨
        ∃ child, e.kind = .directory child ∧
          occurrence ∈ deeper child.val (here ++ [e.name.val]) := by
    intro e
    rw [unfoldEntry, mem_cons]
    cases hkind : e.kind <;> simp
  rw [unfoldObject]
  cases hget : trees.get? digest with
  | none => simp
  | some tree =>
    simp only [mem_flatMap, hentry, some.injEq]
    constructor
    · intro h
      obtain ⟨e, hmem, hcase⟩ := h
      exact ⟨tree, e, rfl, hmem, hcase⟩
    · intro h
      obtain ⟨_, e, rfl, hmem, hcase⟩ := h
      exact ⟨e, hmem, hcase⟩

theorem nodeAt_entry {tree : TreeObject sha256}
    (hhere : nodeAt trees root here = some (.directory digest))
    (htree : trees.get? digest = some tree) (hentry : e ∈ tree.entries) :
    nodeAt trees root (here ++ [e.name.val]) = some e.kind.node := by
  rw [nodeAt_concat hhere, child_eq_some]
  exact ⟨digest, tree, e, rfl, htree, find?_entry tree hentry, rfl⟩

theorem Occurs.nodeAt (h : Occurs trees root occurrence) :
    nodeAt trees root occurrence.names = some occurrence.entry.kind.node := by
  obtain ⟨front, digest, tree, hfront, htree, hentry, hnames⟩ := h
  rw [hnames]
  exact nodeAt_entry hfront htree hentry

theorem occurs_of_nodeAt {node : Node} (h : Tree.nodeAt trees root names = some node)
    (hne : names ≠ []) :
    ∃ e, Occurs trees root ⟨names, e⟩ ∧ e.kind.node = node := by
  induction names using reverseRecOn with
  | nil => exact absurd rfl hne
  | append_singleton front name _ =>
    obtain ⟨digest, hfront⟩ := nodeAt_front h (by simp)
    rw [nodeAt_concat hfront, child_eq_some] at h
    obtain ⟨_, tree, e, heq, htree, hfind, hnode⟩ := h
    cases heq
    have hname : e.name.val = name := by simpa using List.find?_some hfind
    exact ⟨e, ⟨front, digest, tree, hfront, htree, List.mem_of_find?_eq_some hfind,
      by rw [hname]⟩, hnode⟩

theorem Occurs.entry_unique {other : TreeEntry} (h : Occurs trees root ⟨names, e⟩)
    (hother : Occurs trees root ⟨names, other⟩) :
    e = other := by
  obtain ⟨front, digest, tree, hfront, htree, hentry, hnames⟩ := h
  obtain ⟨front', digest', tree', hfront', htree', hentry', hnames'⟩ := hother
  obtain ⟨rfl, hname⟩ := append_inj' (hnames.symm.trans hnames') rfl
  cases hfront.symm.trans hfront'
  obtain rfl := some.inj (htree.symm.trans htree')
  have hfind := find?_entry tree hentry
  rw [(cons.inj hname).1, find?_entry tree hentry'] at hfind
  exact (some.inj hfind).symm

theorem Occurs.below_entry (hoccurs : Occurs trees root occurrence)
    (hhere : Tree.nodeAt trees root here = some (.directory digest))
    (hstart : here <+: occurrence.names) (hlen : here.length < occurrence.names.length) :
    ∃ tree e, trees.get? digest = some tree ∧ e ∈ tree.entries ∧
      (occurrence = ⟨here ++ [e.name.val], e⟩ ∨
        ∃ child, e.kind = .directory child ∧
          here ++ [e.name.val] <+: occurrence.names ∧
          (here ++ [e.name.val]).length < occurrence.names.length) := by
  obtain ⟨back, hback⟩ := hstart
  obtain ⟨name, back, rfl⟩ : ∃ name rest, back = name :: rest := by
    cases back with
    | nil =>
      rw [← hback, append_nil] at hlen
      exact absurd hlen (lt_irrefl _)
    | cons name rest => exact ⟨name, rest, rfl⟩
  have hnode := hoccurs.nodeAt
  rw [← hback, append_cons] at hnode
  by_cases hnil : back = []
  · subst hnil
    rw [append_nil, nodeAt_concat hhere, child_eq_some] at hnode
    obtain ⟨_, tree, e, heq, htree, hfind, -⟩ := hnode
    cases heq
    have hname : e.name.val = name := by simpa using List.find?_some hfind
    have hmem := List.mem_of_find?_eq_some hfind
    refine ⟨tree, e, htree, hmem, .inl ?_⟩
    have hentry : Occurs trees root ⟨here ++ [name], e⟩ :=
      ⟨here, digest, tree, hhere, htree, hmem, by rw [hname]⟩
    obtain ⟨names, found⟩ := occurrence
    obtain rfl : here ++ [name] = names := hback
    rw [hname, hentry.entry_unique hoccurs]
  · obtain ⟨child, hchild⟩ := nodeAt_front hnode hnil
    rw [nodeAt_concat hhere, child_eq_some] at hchild
    obtain ⟨_, tree, e, heq, htree, hfind, hkind⟩ := hchild
    cases heq
    have hname : e.name.val = name := by simpa using List.find?_some hfind
    refine ⟨tree, e, htree, List.mem_of_find?_eq_some hfind, .inr ?_⟩
    cases hentry : e.kind with
    | file digest byteLen => rw [hentry] at hkind; cases hkind
    | safeRelativeSymlink digest => rw [hentry] at hkind; cases hkind
    | directory child =>
      refine ⟨child, rfl, ?_, ?_⟩
      · rw [hname]
        exact ⟨back, (append_cons here name back).symm.trans hback⟩
      · have hpos := length_pos_of_ne_nil hnil
        rw [← hback]
        simp only [length_append, length_cons, length_nil]
        omega

theorem nodeAt_directory {tree : TreeObject sha256} {child : ObjectDigest}
    (hhere : nodeAt trees root here = some (.directory digest))
    (htree : trees.get? digest = some tree) (hentry : e ∈ tree.entries)
    (hkind : e.kind = .directory child) :
    nodeAt trees root (here ++ [e.name.val]) = some (.directory child.val) := by
  rw [nodeAt_entry hhere htree hentry, hkind]
  rfl

theorem mem_unfoldObject_of (left : Nat) (hhere : nodeAt trees root here = some (.directory digest))
    (hdeeper : ∀ tree, trees.get? digest = some tree → ∀ e ∈ tree.entries, ∀ child,
      e.kind = .directory child →
        (occurrence ∈ deeper child.val (here ++ [e.name.val]) ↔
          Occurs trees root occurrence ∧ here ++ [e.name.val] <+: occurrence.names ∧
            here.length + 1 < occurrence.names.length ∧
            occurrence.names.length ≤ here.length + 1 + left)) :
    occurrence ∈ unfoldObject trees deeper digest here ↔
      Occurs trees root occurrence ∧ here <+: occurrence.names ∧
        here.length < occurrence.names.length ∧
        occurrence.names.length ≤ here.length + left + 1 := by
  rw [mem_unfoldObject]
  constructor
  · rintro ⟨tree, e, htree, hentry, rfl | ⟨child, hkind, hmem⟩⟩
    · refine ⟨⟨here, digest, tree, hhere, htree, hentry, rfl⟩, prefix_append _ _, ?_, ?_⟩ <;> simp
    · obtain ⟨hoccurs, hstart, hlen, hdepth⟩ := (hdeeper tree htree e hentry child hkind).1 hmem
      exact ⟨hoccurs, (prefix_append _ _).trans hstart, by omega, by omega⟩
  · rintro ⟨hoccurs, hstart, hlen, hdepth⟩
    obtain ⟨tree, e, htree, hentry, hcase⟩ := hoccurs.below_entry hhere hstart hlen
    refine ⟨tree, e, htree, hentry, ?_⟩
    rcases hcase with heq | ⟨child, hkind, hstart, hlonger⟩
    · exact .inl heq
    · rw [length_append, length_singleton] at hlonger
      exact .inr ⟨child, hkind, (hdeeper tree htree e hentry child hkind).2
        ⟨hoccurs, hstart, hlonger, by omega⟩⟩

theorem mem_unfoldTree : ∀ {left : Nat} {digest : Digest} {here : List Text},
    nodeAt trees root here = some (.directory digest) →
    (occurrence ∈ unfoldTree trees left digest here ↔
      Occurs trees root occurrence ∧ here <+: occurrence.names ∧
        here.length < occurrence.names.length ∧
        occurrence.names.length ≤ here.length + left + 1) := by
  intro left
  induction left with
  | zero =>
    intro digest here hhere
    refine mem_unfoldObject_of 0 hhere fun _ _ _ _ _ _ => iff_of_false not_mem_nil ?_
    omega
  | succ left ih =>
    intro digest here hhere
    refine mem_unfoldObject_of (left + 1) hhere fun tree htree e hentry child hkind => ?_
    rw [ih (nodeAt_directory hhere htree hentry hkind), length_append, length_singleton,
      ← Nat.add_assoc]

theorem nodup_unfoldObject
    (hdeeper : ∀ digest here, (deeper digest here).Nodup ∧ ∀ occurrence ∈ deeper digest here,
      here <+: occurrence.names ∧ here.length < occurrence.names.length) :
    (unfoldObject trees deeper digest here).Nodup ∧
      ∀ occurrence ∈ unfoldObject trees deeper digest here,
        here <+: occurrence.names ∧ here.length < occurrence.names.length := by
  -- what is found through an entry starts with the name of that entry
  have hentry : ∀ entry : TreeEntry, ∀ occurrence ∈ unfoldEntry deeper here entry,
      here ++ [entry.name.val] <+: occurrence.names := by
    intro entry occurrence hmem
    rw [unfoldEntry, mem_cons] at hmem
    rcases hmem with rfl | hmem
    · exact prefix_rfl
    · cases hkind : entry.kind with
      | file digest byteLen => simp [hkind] at hmem
      | safeRelativeSymlink digest => simp [hkind] at hmem
      | directory child =>
        rw [hkind] at hmem
        exact ((hdeeper _ _).2 occurrence hmem).1
  constructor
  · rw [unfoldObject]
    cases trees.get? digest with
    | none => exact nodup_nil
    | some tree =>
      have hascending : (tree.entries.map fun entry => entry.name.val).Pairwise (· < ·) :=
        tree.ascending.pairwise
      refine nodup_flatMap.2 ⟨?_, (pairwise_map.1 hascending).imp ?_⟩
      · intro entry _
        rw [unfoldEntry]
        cases entry.kind with
        | file digest byteLen => exact nodup_singleton _
        | safeRelativeSymlink digest => exact nodup_singleton _
        | directory child =>
          refine nodup_cons.2 ⟨?_, (hdeeper _ _).1⟩
          intro hmem
          exact lt_irrefl _ ((hdeeper _ _).2 _ hmem).2
      · intro first snd hlt occurrence hfirst hsecond
        have hnames := prefix_of_prefix_length_le (hentry first occurrence hfirst)
          (hentry snd occurrence hsecond) (by simp)
        have heq := (hnames.eq_of_length (by simp))
        exact absurd (cons.inj (append_cancel_left heq)).1 (ne_of_lt hlt)
  · intro occurrence hmem
    obtain ⟨tree, entry, -, hin, hcase⟩ := mem_unfoldObject.1 hmem
    have hbelow : occurrence ∈ unfoldEntry deeper here entry := by
      rw [unfoldEntry, mem_cons]
      rcases hcase with heq | hcase
      · exact .inl heq
      · obtain ⟨child, hkind, hmem⟩ := hcase
        rw [hkind]
        exact .inr hmem
    have hstart := hentry entry occurrence hbelow
    have hlen := hstart.length_le
    rw [length_append, length_singleton] at hlen
    exact ⟨(prefix_append _ _).trans hstart, hlen⟩

variable (trees) in
theorem nodup_unfoldTree : ∀ (left : Nat) (digest : Digest) (here : List Text),
    (unfoldTree trees left digest here).Nodup ∧
      ∀ occurrence ∈ unfoldTree trees left digest here,
        here <+: occurrence.names ∧ here.length < occurrence.names.length := by
  intro left
  induction left with
  | zero => exact fun _ _ => nodup_unfoldObject (by simp)
  | succ left ih => exact fun _ _ => nodup_unfoldObject ih

end Listing

/-! ## 3. One loop over the entries -/

section Visit

variable (trees : SortedMap Digest (TreeObject sha256))
  (symlinks : SortedMap Digest SymlinkObject)

/-- What `walk_tree` does with an entry, before it walks a child directory. -/
def visitOccurrence (state : WalkState) (occurrence : Occurrence) :
    Except TreeGraphError WalkState := do
  let path := pathOf occurrence.names
  let state ← enterEntry path occurrence.names.length state
  match occurrence.entry.kind with
  | .file digest byteLen => enterFile state digest.val byteLen
  | .directory child => do
    let childTree ← require (trees.get? child.val) (.missingTreeObject child.val path)
    reject (occurrence.entry.mode ≠ childTree.rootMode)
      (.directoryModeMismatch path occurrence.entry.mode childTree.rootMode)
    return state
  | .safeRelativeSymlink digest => enterSymlink symlinks state path digest.val

variable {trees symlinks}

variable {descend : Digest → Text → WalkState → Except TreeGraphError WalkState}

/-- Descending from an entry visits what the entry unfolds to. -/
def DescendsInto (trees : SortedMap Digest (TreeObject sha256))
    (symlinks : SortedMap Digest SymlinkObject)
    (descend : Digest → Text → WalkState → Except TreeGraphError WalkState)
    (deeper : Digest → List Text → List Occurrence) (here : List Text) (e : TreeEntry) : Prop :=
  ∀ child before after, e.kind = .directory child → trees.contains child.val = true →
    visitOccurrence trees symlinks before ⟨here ++ [e.name.val], e⟩ = .ok after →
    descend child.val (pathOf (here ++ [e.name.val])) after =
      (deeper child.val (here ++ [e.name.val])).foldlM (visitOccurrence trees symlinks) after

theorem walkEntry_eq {state : WalkState} (hplain : ∀ name ∈ here, Plain name)
    (hdescend : DescendsInto trees symlinks descend deeper here e) :
    walkEntry trees symlinks descend (pathOf here) here.length state e =
      (unfoldEntry deeper here e).foldlM (visitOccurrence trees symlinks) state := by
  rw [unfoldEntry, foldlM_cons]
  have hdescend := fun child => hdescend child state
  simp only [walkEntry, visitOccurrence, joinPath_name hplain (plain_name e),
    length_append, length_singleton] at hdescend ⊢
  cases henter : enterEntry (pathOf (here ++ [e.name.val])) (here.length + 1) state with
  | error error => rfl
  | ok entered =>
    simp only [henter, ok_bind] at hdescend ⊢
    cases hkind : e.kind with
    | file digest byteLen => simp [foldlM_nil]
    | safeRelativeSymlink digest => simp [foldlM_nil]
    | directory child =>
      simp only [hkind] at hdescend ⊢
      cases hget : trees.get? child.val with
      | none => rfl
      | some childTree =>
        have hcontains : trees.contains child.val = true := by
          rw [SortedMap.contains, hget]
          rfl
        simp only [hget, require, ok_bind] at hdescend ⊢
        by_cases hmode : e.mode = childTree.rootMode
        · simp only [hmode, ne_eq, not_true_eq_false, reject, if_false, ok_bind,
            pure_eq] at hdescend ⊢
          exact hdescend child entered rfl hcontains rfl
        · simp [reject, hmode, error_bind]

theorem foldlM_unfold (hplain : ∀ name ∈ here, Plain name) :
    ∀ {es : List TreeEntry} {s : WalkState},
      (∀ e ∈ es, DescendsInto trees symlinks descend deeper here e) →
      es.foldlM (walkEntry trees symlinks descend (pathOf here) here.length) s =
        (es.flatMap (unfoldEntry deeper here)).foldlM (visitOccurrence trees symlinks) s
  | [], s, _ => rfl
  | e :: es, s, hdescend => by
    rw [foldlM_cons, flatMap_cons, foldlM_append,
      walkEntry_eq hplain (hdescend e mem_cons_self)]
    congr 1
    funext after
    exact foldlM_unfold hplain fun other hother => hdescend other (mem_cons_of_mem _ hother)

/-- No path of the tree is longer than the depth limit. -/
def Shallow (trees : SortedMap Digest (TreeObject sha256)) (root : Digest) : Prop :=
  ∀ names node, nodeAt trees root names = some node → names.length ≤ maxTreeDepth

section

variable (hshallow : Shallow trees root)
  (hhere : nodeAt trees root here = some (.directory digest))
include hshallow hhere

theorem Shallow.not_cycle (hne : names ≠ []) :
    (directory digest).descend trees names ≠ some (.directory digest) := by
  intro hcycle
  have hround : ∀ rounds : Nat, ∃ back : List Text, rounds ≤ back.length ∧
      (directory digest).descend trees back = some (.directory digest) := by
    intro rounds
    induction rounds with
    | zero => exact ⟨[], le_rfl, rfl⟩
    | succ rounds ih =>
      obtain ⟨back, hlen, hback⟩ := ih
      refine ⟨names ++ back, ?_, ?_⟩
      · have hpos := length_pos_of_ne_nil hne
        rw [length_append]
        omega
      · rw [descend_append, hcycle]
        exact hback
  obtain ⟨back, hlen, hback⟩ := hround (maxTreeDepth + 1)
  have hnode : nodeAt trees root (here ++ back) = some (.directory digest) := by
    rw [nodeAt_append, hhere]
    exact hback
  have hbound := hshallow _ _ hnode
  rw [length_append] at hbound
  omega

theorem walkObject_eq {ancestors : List Digest} {state : WalkState}
    (hpres : trees.contains digest = true)
    (hancestors : ∀ above ∈ ancestors, ∃ names, names ≠ [] ∧
      (directory above).descend trees names = some (.directory digest))
    (hdescend : ∀ tree, trees.get? digest = some tree → ∀ e ∈ tree.entries,
      DescendsInto trees symlinks descend deeper here e) :
    walkObject trees symlinks descend digest (pathOf here) here.length ancestors state =
      (unfoldObject trees deeper digest here).foldlM (visitOccurrence trees symlinks) state := by
  have hnew : digest ∉ ancestors := by
    intro hmem
    obtain ⟨names, hne, hcycle⟩ := hancestors digest hmem
    exact hshallow.not_cycle hhere hne hcycle
  obtain ⟨tree, htree⟩ := isSome_iff_exists.1 hpres
  rw [walkObject, unfoldObject, htree]
  simp only [reject, if_neg hnew, ok_bind, require]
  exact foldlM_unfold (plain_of_nodeAt hhere) (hdescend tree htree)

end

theorem walkTree_eq (hshallow : Shallow trees root) : ∀ {left : Nat} {digest : Digest}
    {here : List Text} {ancestors : List Digest} {state : WalkState},
    nodeAt trees root here = some (.directory digest) → trees.contains digest = true →
      (∀ above ∈ ancestors, ∃ names, names ≠ [] ∧
        (directory above).descend trees names = some (.directory digest)) →
      here.length + left = maxTreeDepth →
      walkTree trees symlinks left digest (pathOf here) here.length ancestors state =
        (unfoldTree trees left digest here).foldlM (visitOccurrence trees symlinks) state := by
  intro left
  induction left with
  | zero =>
    intro digest here ancestors state hhere hpres hancestors hlevel
    refine walkObject_eq hshallow hhere hpres hancestors ?_
    intro tree _ e _ child before after _ _ hvisit
    -- an e this deep is refused before its child is walked
    simp only [visitOccurrence, bind_ok] at hvisit
    obtain ⟨entered, henter, -⟩ := hvisit
    have hdepth := (enterEntry_ok henter).1
    rw [length_append, length_singleton] at hdepth
    omega
  | succ left ih =>
    intro digest here ancestors state hhere hpres hancestors hlevel
    refine walkObject_eq hshallow hhere hpres hancestors ?_
    intro tree htree e hentry child before after hkind hchild _
    have hnode := nodeAt_directory hhere htree hentry hkind
    have hstep : (directory digest).descend trees [e.name.val] =
        some (.directory child.val) := by
      rw [nodeAt_append, hhere] at hnode
      exact hnode
    have hlen : here.length + 1 = (here ++ [e.name.val]).length := by simp
    rw [hlen]
    refine ih hnode hchild ?_ (by rw [← hlen]; omega)
    intro above habove
    rcases mem_cons.1 habove with rfl | habove
    · exact ⟨_, by simp, hstep⟩
    · obtain ⟨names, -, hnames⟩ := hancestors above habove
      refine ⟨names ++ [e.name.val], by simp, ?_⟩
      rw [descend_append, hnames]
      exact hstep

end Visit

end Malm.Tree
