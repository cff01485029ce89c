/-
Malm.Commit.FsckClosure — a clean check reports what a prune removes, but for
two kinds of blobs.

What the scan takes for retained is `FsckRetains`. It differs from the closure of a prune
in blobs only: the scan does not follow a pack manifest to its members, and it takes the
files of every prepared snapshot for retained.
-/
import Malm.Commit.FsckTheorems
import Malm.Commit.AuthorityTheorems

namespace Malm.Commit

open Store Checks Scan List Scan.Emits SortedMap FsckAuthorityRoots

variable {codec : ObjectCodec} {machine : Machine} {store : ObjectStore}

variable {e : StoreEntry} {found : FsckAuthorityRoots} {objects : CanonicalObjects}

/-! ## 1. The closure of the scan -/

/-- `PruneRequestV1::new(Vec::new())`: no plan is named and none is swept. -/
def PruneRequest.plain : PruneRequest := ⟨[], noPlans_sorted, false⟩

/-- What a prune without plans retains. -/
abbrev Kept (codec : ObjectCodec) (state : StoreState) (entry : StoreEntry) : Prop :=
  Retains codec state.objects (PruneRoot codec state .plain)
    (Unswept codec state.objects .plain) entry

/-- What authority, a prepared plan or a reached generation names. -/
def Named (codec : ObjectCodec) (state : StoreState) (root : Root) : Prop :=
  PruneRoot codec state .plain root ∨
    (∃ planId record, loadPrepared codec state.objects planId = .ok record ∧
      PlanAdds record root) ∨
    ∃ digest generation, Reaches codec state .plain digest ∧
      loadGeneration codec state.objects digest = .ok generation ∧ GenerationAdds generation root

/-- What the scan takes for retained: of the blobs only those that are named. -/
def FsckRetains (codec : ObjectCodec) (state : StoreState) : StoreEntry → Prop
  | .blob digest => Named codec state (.blob digest)
  | entry => Kept codec state entry

section Closure

variable {state : StoreState}

theorem kept_plan {planId : PreparedId} {rec : PreparedRecord}
    (hload : loadPrepared codec state.objects planId = .ok rec) :
    Kept codec state (.plan planId) :=
  .keptPlan ⟨rfl, not_mem_nil, rec, hload⟩

variable {digest : Digest} {marks : FsckMarks} {world : FsckWorld} {roots : FsckAuthorityRoots}

theorem kept_generation :
    Kept codec state (.generation digest) ↔ Reaches codec state .plain digest := by
  constructor
  · intro h
    cases h with
    | lineage root mem => exact ⟨_, _, root, mem⟩
  · rintro ⟨first, limit, hroot, hmem⟩
    exact .lineage hroot hmem

theorem kept_pack : Kept codec state (.pack digest) ↔ Named codec state (.pack digest) := by
  constructor
  · intro h
    cases h with
    | pinnedPack root => exact .inl root
    | planPack above loads mem => exact .inr (.inl ⟨_, _, loads, mem⟩)
  · rintro (hroot | ⟨planId, rec, hload, hmem⟩ | ⟨_, gen, -, -, hfalse⟩)
    · exact .pinnedPack hroot
    · exact .planPack (kept_plan hload) hload hmem
    · cases hfalse

theorem named_tree_kept (h : Named codec state (.tree digest)) :
    Kept codec state (.tree digest) := by
  rcases h with hroot | ⟨planId, rec, hload, hmem⟩ | ⟨found, gen, hreach, hload, hmem⟩
  · exact .pinnedTree hroot
  · exact .planTree (kept_plan hload) hload hmem
  · exact .generationTree (kept_generation.2 hreach) hload hmem

theorem named_symlink_kept (h : Named codec state (.symlink digest)) :
    Kept codec state (.symlink digest) := by
  rcases h with hroot | ⟨planId, rec, hload, hmem⟩ | ⟨found, gen, hreach, hload, hmem⟩
  · exact .pinnedSymlink hroot
  · exact .planSymlink (kept_plan hload) hload hmem
  · exact .generationSymlink (kept_generation.2 hreach) hload hmem

theorem named_file_kept (h : Named codec state (.file digest)) :
    Kept codec state (.file digest) := by
  rcases h with hroot | ⟨planId, rec, hload, hmem⟩ | ⟨found, gen, hreach, hload, hmem⟩
  · exact .pinnedFile hroot
  · cases hmem
  · cases hmem

theorem kept_blob (h : Kept codec state (.blob digest)) :
    Named codec state (.blob digest) ∨ ∃ pack, Kept codec state (.packManifest pack) ∧
      ∃ member ∈ storedMembers state.objects pack, member.blob = digest := by
  cases h with
  | pinnedBlob root => exact .inl (.inl root)
  | generationArtifact above loads mem =>
    exact .inl (.inr (.inr
      ⟨_, _, kept_generation.1 above, loads, .inl ⟨_, mem, rfl⟩⟩))
  | generationFile above loads mem =>
    exact .inl (.inr (.inr
      ⟨_, _, kept_generation.1 above, loads, .inr ⟨_, mem, rfl⟩⟩))
  | planArtifact above loads mem =>
    exact .inl (.inr (.inl ⟨_, _, loads, .inl ⟨_, mem, rfl⟩⟩))
  | member above mem => exact .inr ⟨_, above, _, mem, rfl⟩

theorem named_blob (h : Named codec state (.blob digest)) :
    Kept codec state (.blob digest) ∨ ∃ planId rec,
      loadPrepared codec state.objects planId = .ok rec ∧
        ∃ file ∈ snapshotFiles rec.desiredSnapshot, file.1 = digest := by
  rcases h with hroot | ⟨planId, rec, hload, ⟨art, hmem, rfl⟩ | hfile⟩ |
    ⟨found, generation, hreach, hload, ⟨art, hmem, rfl⟩ | ⟨file, hmem, rfl⟩⟩
  · exact .inl (.pinnedBlob hroot)
  · exact .inl (.planArtifact (kept_plan hload) hload hmem)
  · exact .inr ⟨planId, rec, hload, hfile⟩
  · exact .inl (.generationArtifact (kept_generation.2 hreach) hload hmem)
  · exact .inl (.generationFile (kept_generation.2 hreach) hload hmem)

def FsckMarks.Holds (marks : FsckMarks) : StoreEntry → Prop
  | .tree digest => digest ∈ marks.trees
  | .symlink digest => digest ∈ marks.symlinks
  | .file digest => digest ∈ marks.files
  | _ => True

theorem RootsMarked.entry {start : FsckMarks} {roots : List Digest}
    (h : RootsMarked objects start roots marks) (hstart : start.trees = [])
    (hmem : digest ∈ marks.trees) {tree : TreeObject}
    (hstored : objects.trees.get? digest = some tree) {e : TreeEntry} (hentry : e ∈ tree.entries) :
    match e.kind with
      | .file t _ => t ∈ marks.files
      | .directory t => t ∈ marks.trees
      | .symlink t => t ∈ marks.symlinks := by
  have hclosed : MarksClosed objects start [] := by
    intro other hother
    rw [hstart] at hother
    cases hother
  obtain ⟨found, hfound, hentries⟩ := h.closed hclosed digest hmem
  obtain rfl : tree = found := Option.some.inj (hstored.symm.trans hfound)
  have hmarked := hentries e hentry
  cases hkind : e.kind with
  | file t byteLen =>
    rw [hkind] at hmarked
    exact hmarked
  | symlink t =>
    rw [hkind] at hmarked
    exact hmarked
  | directory t =>
    rw [hkind] at hmarked
    rcases hmarked with hmarked | hmarked
    · exact hmarked
    · cases hmarked

/-- **The marks are the retained canonical objects.** -/
theorem marks_iff_kept (hworld : WorldFrom codec state world)
    (hfound : ∀ root, Named codec state root → found.Holds root)
    (hnamed : ∀ root, found.Holds root → Named codec state root ∨ ∃ planId, root = .plan planId)
    (h : RootsMarked world.canonical ⟨found.files, found.symlinks, []⟩
      (sortedSet found.trees) marks) :
    (Kept codec state e → marks.Holds e) ∧
      (marks.Holds e → (∃ digest, e = .tree digest ∨ e = .symlink digest ∨
        e = .file digest) → Kept codec state e) := by
  constructor
  · intro hkept
    have hroot : ∀ digest, Named codec state (.tree digest) → digest ∈ marks.trees :=
      fun digest hname => h.reached digest (mem_sortedSet.2 (hfound _ hname))
    have hlink : ∀ digest, Named codec state (.symlink digest) → digest ∈ marks.symlinks :=
      fun digest hname => h.grows.2.2 (hfound _ hname)
    induction hkept with
    | pinnedFile root => exact h.grows.2.1 (hfound _ (.inl root))
    | pinnedSymlink root => exact hlink _ (.inl root)
    | pinnedTree root => exact hroot _ (.inl root)
    | generationTree above loads mem _ =>
      exact hroot _ (.inr (.inr ⟨_, _, kept_generation.1 above, loads, mem⟩))
    | generationSymlink above loads mem _ =>
      exact hlink _ (.inr (.inr ⟨_, _, kept_generation.1 above, loads, mem⟩))
    | planTree above loads mem _ => exact hroot _ (.inr (.inl ⟨_, _, loads, mem⟩))
    | planSymlink above loads mem _ => exact hlink _ (.inr (.inl ⟨_, _, loads, mem⟩))
    | treeFile above stored mem kind ih =>
      have hentry := h.entry rfl ih ((hworld.trees _ _).2 ⟨_, stored⟩) mem
      rw [kind] at hentry
      exact hentry
    | treeDirectory above stored mem kind ih =>
      have hentry := h.entry rfl ih ((hworld.trees _ _).2 ⟨_, stored⟩) mem
      rw [kind] at hentry
      exact hentry
    | treeSymlink above stored mem kind ih =>
      have hentry := h.entry rfl ih ((hworld.trees _ _).2 ⟨_, stored⟩) mem
      rw [kind] at hentry
      exact hentry
    | _ => trivial
  · have hallows : MarkAllows world.canonical (fun digest => Kept codec state (.tree digest))
        (fun digest => Kept codec state (.file digest))
        (fun digest => Kept codec state (.symlink digest)) := by
      refine ⟨?_⟩
      intro digest tree hkept hget item hitem
      obtain ⟨size, hstored⟩ := (hworld.trees digest tree).1 hget
      cases hkind : item.kind with
      | file t byteLen => exact .treeFile hkept hstored hitem hkind
      | directory t => exact .treeDirectory hkept hstored hitem hkind
      | symlink t => exact .treeSymlink hkept hstored hitem hkind
    have hin : ∀ root, found.Holds root → (∀ planId, root ≠ .plan planId) →
        Named codec state root := by
      intro root hholds hplan
      rcases hnamed root hholds with hname | ⟨planId, rfl⟩
      · exact hname
      · exact absurd rfl (hplan planId)
    have hstart : MarksInside (fun digest => Kept codec state (.tree digest))
        (fun digest => Kept codec state (.file digest))
        (fun digest => Kept codec state (.symlink digest))
        ⟨found.files, found.symlinks, []⟩ := by
      refine ⟨?_, ?_, ?_⟩
      · intro digest hmem
        cases hmem
      · intro digest hmem
        exact named_file_kept (hin (.file digest) hmem (by simp))
      · intro digest hmem
        exact named_symlink_kept (hin (.symlink digest) hmem (by simp))
    obtain ⟨htrees, hfiles, hlinks⟩ := h.inside _ _ _ hallows hstart
      fun digest hmem => named_tree_kept (hin (.tree digest) (mem_sortedSet.1 hmem) (by simp))
    rintro hmem ⟨digest, rfl | rfl | rfl⟩
    · exact htrees digest hmem
    · exact hlinks digest hmem
    · exact hfiles digest hmem

def StoreEntry.subject : StoreEntry → FsckSubject
  | .generation digest => .generation digest
  | .plan planId => .preparedPlan planId
  | .blob digest => .artifactBlob digest
  | .pack digest => .packObject digest
  | .packManifest digest => .packObject digest
  | .tree digest => .canonicalTree digest
  | .symlink digest => .canonicalSymlink digest
  | .file digest => .canonicalFile digest

/-- What a clean scan says about the authority of a store. -/
structure AuthorityFindings (codec : ObjectCodec) (state : StoreState)
    (emitted : List FsckFinding) : Prop where
  reports : ∀ subject, Reports emitted subject ↔ ∃ entry, ¬ state.objects.Lacks entry ∧
    ¬ FsckRetains codec state entry ∧ entry.subject = subject
  stored : ∀ digest, Named codec state (.blob digest) → digest ∈ state.objects.blobs.keys

theorem recorded_holds (hworld : WorldFrom codec state world) (hroots : ∀ root, roots.Holds root ↔
      (∃ planId ∈ state.objects.prepared.keys, root = .plan planId) ∨
        PruneRoot codec state .plain root) {walk : FsckWalk}
    (hwalk : ∀ digest, digest ∈ walk.reachable ↔ Reaches codec state .plain digest)
    {plans : FsckDependencies} (hplans : ∀ root, plans.roots.Holds root ↔ roots.Holds root ∨
      ∃ planId ∈ sortedSet roots.plans, ∃ rec, world.prepared.get? planId = some rec ∧
        PlanAdds rec root) (root : Root) :
    ((generationsOf world.generations walk.reachable).foldl recordGenerationDependencies
        plans).roots.Holds root ↔
      (∃ planId ∈ state.objects.prepared.keys, root = .plan planId) ∨ Named codec state root := by
  have hstored : ∀ planId rec, loadPrepared codec state.objects planId = .ok rec →
      planId ∈ sortedSet roots.plans := by
    intro planId rec hload
    refine mem_sortedSet.2 ((hroots (.plan planId)).2 (.inl ⟨planId, ?_, rfl⟩))
    exact (hworld.planKeys planId).1 (mem_keys.2 ⟨rec, (hworld.plans _ _).2 hload⟩)
  rw [recordGenerations_hold, hplans, hroots, Named, or_assoc, or_assoc]
  refine or_congr_right (or_congr_right (or_congr ?_ ?_))
  · constructor
    · rintro ⟨planId, -, rec, hget, hadds⟩
      exact ⟨planId, rec, (hworld.plans _ _).1 hget, hadds⟩
    · rintro ⟨planId, rec, hload, hadds⟩
      exact ⟨planId, hstored planId rec hload, rec, (hworld.plans _ _).2 hload, hadds⟩
  · simp only [generationsOf, mem_filterMap, mem_sortedSet, hworld.generations, hwalk]
    constructor
    · rintro ⟨gen, ⟨digest, hreach, hload⟩, hadds⟩
      exact ⟨digest, gen, hreach, hload, hadds⟩
    · rintro ⟨digest, gen, hreach, hload, hadds⟩
      exact ⟨gen, ⟨digest, hreach, hload⟩, hadds⟩

/-- **The roots of the scan** are those of a prune, and every prepared plan. -/
theorem roots_hold (hworld : WorldFrom codec state world) {heads : FsckAuthorityRoots}
    (hheads : ∀ root, heads.Holds root ↔
      (start world.prepared.keys).Holds root ∨
        ∃ head ∈ world.catalog.toList.flatMap StateCatalog.heads,
          HeadAdds world.generations head root) (hroots : ∀ root, roots.Holds root ↔
      heads.Holds root ∨ ∃ plan ∈ world.prepared.entries,
        root ∈ recordRoots plan.2.restorePoint plan.2.retention) (root : Root) :
    roots.Holds root ↔ (∃ planId ∈ state.objects.prepared.keys, root = .plan planId) ∨
      PruneRoot codec state .plain root := by
  have hstart : (start world.prepared.keys).Holds root ↔
      ∃ planId ∈ state.objects.prepared.keys, root = .plan planId := by
    cases root <;> simp [start, FsckAuthorityRoots.Holds, hworld.planKeys]
  have hhead : (∃ head ∈ world.catalog.toList.flatMap StateCatalog.heads,
      HeadAdds world.generations head root) ↔ HeadRoot codec state root := by
    simp [hworld.catalog, HeadRoot, HeadAdds, hworld.generations]
  rw [hroots, hheads, hstart, hhead, planRoot_iff hworld, or_assoc]
  rfl

theorem walk_reaches (hroots : ∀ root, roots.Holds root ↔
      (∃ planId ∈ state.objects.prepared.keys, root = .plan planId) ∨
        PruneRoot codec state .plain root) {walk : FsckWalk}
    (hwalk : ∀ digest, digest ∈ walk.reachable ↔ digest ∈ ([] : List Digest) ∨
      ∃ root ∈ roots.generations, digest ∈ chain state.objects root.limit root.digest)
    (digest : Digest) : digest ∈ walk.reachable ↔ Reaches codec state .plain digest := by
  have hroot : ∀ first limit, (∃ root ∈ roots.generations, root.digest = first ∧
      root.limit = limit) ↔ PruneRoot codec state .plain (.generation first limit) := by
    intro first limit
    show roots.Holds (.generation first limit) ↔ _
    rw [hroots]
    simp
  rw [hwalk]
  constructor
  · rintro (hfalse | ⟨root, hmem, hchain⟩)
    · cases hfalse
    · exact ⟨root.digest, root.limit, (hroot _ _).1 ⟨root, hmem, rfl, rfl⟩, hchain⟩
  · rintro ⟨first, limit, hprune, hchain⟩
    obtain ⟨root, hmem, rfl, rfl⟩ := (hroot first limit).2 hprune
    exact .inr ⟨root, hmem, hchain⟩

theorem not_lacks : ¬ state.objects.Lacks e ↔
    match e with
      | .generation digest => digest ∈ state.objects.generations.keys
      | .plan planId => planId ∈ state.objects.prepared.keys
      | .blob digest => digest ∈ state.objects.blobs.keys
      | .pack digest => digest ∈ state.objects.packs.keys
      | .packManifest digest => digest ∈ state.objects.packManifests.keys
      | .tree digest => digest ∈ state.objects.trees.keys
      | .symlink digest => digest ∈ state.objects.symlinks.keys
      | .file digest => digest ∈ state.objects.files.keys := by
  cases e <;> simp [ObjectStore.Lacks, get?_eq_none]

theorem kept_packManifest :
    Kept codec state (.packManifest digest) ↔ Kept codec state (.pack digest) := by
  constructor
  · intro h
    cases h with
    | manifest above => exact above
  · exact .manifest

/-- What a scan found, marked or reached. -/
def Noted (found : FsckAuthorityRoots) (marks : FsckMarks) (reachable : List Digest) :
    StoreEntry → Prop
  | .generation digest => digest ∈ reachable
  | .plan _ => True
  | .blob digest => digest ∈ found.blobs
  | .pack digest => digest ∈ found.packs
  | .packManifest digest => digest ∈ found.packs
  | entry => marks.Holds entry

section

variable {reachable : List Digest} (hworld : WorldFrom codec state world)
  (hfound : ∀ root, found.Holds root ↔
    (∃ planId ∈ state.objects.prepared.keys, root = .plan planId) ∨ Named codec state root)
  (hmarks : RootsMarked world.canonical ⟨found.files, found.symlinks, []⟩
    (sortedSet found.trees) marks)
  (hreach : ∀ digest, digest ∈ reachable ↔ Reaches codec state .plain digest)

include hworld hfound hmarks hreach

theorem noted_iff (hstored : ¬ state.objects.Lacks e) :
    Noted found marks reachable e ↔ FsckRetains codec state e := by
  have hplan : ∀ root, found.Holds root → Named codec state root ∨ ∃ planId, root = .plan planId := by
    intro root hholds
    rcases (hfound root).1 hholds with ⟨planId, -, hroot⟩ | hnamed
    · exact .inr ⟨planId, hroot⟩
    · exact .inl hnamed
  have hmark : (∃ digest, e = .tree digest ∨ e = .symlink digest ∨ e = .file digest) →
      (marks.Holds e ↔ Kept codec state e) := by
    intro hkind
    obtain ⟨hheld, hkept⟩ : (Kept codec state e → marks.Holds e) ∧
        (marks.Holds e → _ → Kept codec state e) := marks_iff_kept hworld
      (fun root hnamed => (hfound root).2 (.inr hnamed)) hplan hmarks
    exact ⟨fun hholds => hkept hholds hkind, hheld⟩
  have hpack : ∀ digest, digest ∈ found.packs ↔ Kept codec state (.pack digest) := by
    intro digest
    show found.Holds (.pack digest) ↔ _
    rw [hfound, kept_pack]
    simp
  cases e with
  | generation digest => exact (hreach digest).trans kept_generation.symm
  | plan planId =>
    obtain ⟨record, hget⟩ := SortedMap.mem_keys.1
      ((hworld.planKeys planId).2 (not_lacks.1 hstored))
    exact iff_of_true trivial (kept_plan ((hworld.plans planId record).1 hget))
  | blob digest =>
    show found.Holds (.blob digest) ↔ _
    rw [hfound]
    simp [FsckRetains]
  | pack digest => exact hpack digest
  | packManifest digest => exact (hpack digest).trans kept_packManifest.symm
  | file digest => exact hmark ⟨digest, .inr (.inr rfl)⟩
  | symlink digest => exact hmark ⟨digest, .inr (.inl rfl)⟩
  | tree digest => exact hmark ⟨digest, .inl rfl⟩

theorem reports_iff (subject : FsckSubject) :
    ((∃ digest ∈ world.generations.keys, digest ∉ reachable ∧ .generation digest = subject) ∨
      (∃ digest ∈ world.blobs.keys, digest ∉ found.blobs ∧ .artifactBlob digest = subject) ∨
      (∃ digest ∈ world.packs.keys, digest ∉ found.packs ∧ .packObject digest = subject) ∨
      (∃ digest ∈ world.canonical.files.keys, digest ∉ marks.files ∧
        .canonicalFile digest = subject) ∨
      (∃ digest ∈ world.canonical.symlinks.keys, digest ∉ marks.symlinks ∧
        .canonicalSymlink digest = subject) ∨
      ∃ digest ∈ world.canonical.trees.keys, digest ∉ marks.trees ∧
        .canonicalTree digest = subject) ↔
    ∃ entry, ¬ state.objects.Lacks entry ∧ ¬ FsckRetains codec state entry ∧
      entry.subject = subject := by
  have hnoted : ∀ entry, (¬ state.objects.Lacks entry ∧ ¬ FsckRetains codec state entry ∧
      entry.subject = subject) ↔ ¬ state.objects.Lacks entry ∧
        ¬ Noted found marks reachable entry ∧ entry.subject = subject :=
    fun entry => and_congr_right fun hstored => and_congr_left fun _ =>
      not_congr (noted_iff hworld hfound hmarks hreach hstored).symm
  rw [exists_congr hnoted]
  simp only [not_lacks, hworld.generationKeys, hworld.blobKeys, hworld.packKeys, hworld.fileKeys,
    hworld.symlinkKeys, hworld.treeKeys]
  constructor
  · rintro (⟨digest, h⟩ | ⟨digest, h⟩ | ⟨digest, hstored | hstored, h⟩ | ⟨digest, h⟩ |
      ⟨digest, h⟩ | ⟨digest, h⟩)
    · exact ⟨.generation digest, h⟩
    · exact ⟨.blob digest, h⟩
    · exact ⟨.pack digest, hstored, h⟩
    · exact ⟨.packManifest digest, hstored, h⟩
    · exact ⟨.file digest, h⟩
    · exact ⟨.symlink digest, h⟩
    · exact ⟨.tree digest, h⟩
  · rintro ⟨entry, hstored, h⟩
    cases entry with
    | generation digest => exact .inl ⟨digest, hstored, h⟩
    | plan planId => exact absurd trivial h.1
    | blob digest => exact .inr (.inl ⟨digest, hstored, h⟩)
    | pack digest => exact .inr (.inr (.inl ⟨digest, .inl hstored, h⟩))
    | packManifest digest => exact .inr (.inr (.inl ⟨digest, .inr hstored, h⟩))
    | file digest => exact .inr (.inr (.inr (.inl ⟨digest, hstored, h⟩)))
    | symlink digest => exact .inr (.inr (.inr (.inr (.inl ⟨digest, hstored, h⟩))))
    | tree digest => exact .inr (.inr (.inr (.inr (.inr ⟨digest, hstored, h⟩))))

end

variable (state) in
/-- **The findings about authority** of a clean scan. -/
theorem validateAuthority_emits (observe : TargetObserver) (world : FsckWorld) :
    Emits (validateAuthority codec machine observe world) fun _ emitted =>
      WorldFrom codec state world → AuthorityFindings codec state emitted := by
  refine mono (quiet_bind (collectEach_emits (fun heads : FsckHeads => heads.roots.Holds)
      (collectHead_emits world.generations) _ _) fun heads =>
    quiet_bind (collectPlans_emits heads.roots) fun roots =>
    quiet_bind (walkRoots_emits state.objects roots.generations _) fun walk =>
    bind (warnEach_emits (fun e => reportUnreachable_emits walk.reachable e) _)
      fun _ =>
    quiet_bind (recordPlans_emits world.prepared _ _) fun plans =>
    quiet_bind (emits_checks (fun digest => validateBlobRoot_emits _ _ digest) _) fun _ =>
    quiet_bind (emits_checks (fun digest => validatePackRoot_emits _ digest) _) fun _ =>
    quiet_bind (validateCanonicalRoots_emits _) fun marks =>
    bind (reportUnretained_emits world _ marks) fun _ =>
    quiet_bind ((check_emits _ _ _).mono fun _ _ h => ⟨trivial, h.2⟩) fun _ =>
    bind get_emits fun scan =>
    ite (observeSelectedTargets_emits observe world.canonical heads.selected)
      (emits_pure ())) ?_
  rintro ⟨⟩ emitted ⟨heads, hheads, roots, hroots, walk, hwalk, ⟨⟩, unreachedLog, rest, hunreached,
    ⟨plans, ⟨-, hplans⟩, ⟨⟩, hblobs, ⟨⟩, -, marks, hmarks, ⟨⟩, unretainedLog, last, hunretained,
    ⟨⟨⟩, -, scan, begun, ended, ⟨-, -, hbegun⟩, hlast, hended⟩, hrest⟩, hemitted⟩
  subst hbegun hended hrest hemitted hunreached
  intro hworld
  have hrootsHold := roots_hold hworld hheads hroots
  have hreach := walk_reaches hrootsHold (hwalk hworld.generations)
  have hfound := recorded_holds hworld hrootsHold hreach hplans
  have hnone : ∀ subject, ¬ Reports last subject := by
    rcases hlast with ⟨-, hlast⟩ | ⟨-, -, rfl⟩
    · exact hlast
    · rintro subject ⟨finding, hfinding, -⟩
      cases hfinding
  refine ⟨?_, ?_⟩
  · intro subject
    rw [← reports_iff hworld hfound hmarks hreach subject]
    simp only [reports_append, hunretained, hnone, or_false]
    refine or_congr_left ?_
    simp [Reports, unretained, SortedMap.keys, and_assoc]
  · intro digest hnamed
    rw [← hworld.blobKeys]
    exact hblobs digest (mem_sortedSet.2 ((hfound (.blob digest)).2 (.inr hnamed)))

/-! ## 2. The report of a clean check -/

structure CleanReport (codec : ObjectCodec) (state : StoreState) (report : FsckReport) :
    Prop where
  authority : AuthorityFindings codec state report.findings
  members : ∀ digest, ∀ member ∈ storedMembers state.objects digest,
    member.blob ∈ state.objects.blobs.keys

theorem fsckScan_emits (observe : TargetObserver) (packEnvelope : PackEnvelope)
    (layout : StoreLayout) :
    Emits (fsckScan codec machine observe packEnvelope layout state) fun _ emitted =>
      ∃ world, WorldFrom codec state world ∧ AuthorityFindings codec state emitted := by
  refine mono (quiet_bind (inspectStoreShape_emits layout) fun _ =>
    quiet_bind (check_emits _ _ _) fun _ => quiet_bind (check_emits _ _ _) fun _ =>
      quiet_bind (loadWorld_emits packEnvelope state) fun world =>
        bind get_emits fun scan => ite (emits_pure ())
          (validateAuthority_emits state observe world)) ?_
  rintro ⟨⟩ emitted ⟨⟨⟩, -, ⟨⟩, -, ⟨⟩, -, world, hworld, scan, begun, rest,
    ⟨htraversal, hbytes, rfl⟩, hauthority, rfl⟩
  refine ⟨world, hworld, ?_⟩
  rcases hauthority with ⟨hlimited, -⟩ | ⟨-, hauthority⟩
  · simp [htraversal, hbytes] at hlimited
  · exact hauthority hworld

/-- **The report of a clean check** names the entries that `FsckRetains` leaves
out. -/
theorem fsck_clean {observe : TargetObserver} {packEnvelope : PackEnvelope}
    {layout : StoreLayout} {request : FsckRequest}
    (h : (fsck codec machine observe packEnvelope layout request state).isClean = true) :
    CleanReport codec state (fsck codec machine observe packEnvelope layout request state) := by
  have hclean : ¬ fsckLedger.failed ((fsckScan codec machine observe packEnvelope layout state).run
      (.new request)).2 := by
    rintro ⟨finding, hfinding, herror⟩
    have hall := all_eq_true.1 h finding hfinding
    simp [herror] at hall
  obtain ⟨emitted, ⟨-, hfindings⟩, world, hworld, hauthority⟩ :=
    (fsckScan_emits observe packEnvelope layout).clean (.new request)
      (by rintro (hfalse | hfalse | hfalse) <;> cases hfalse) hclean
  refine ⟨?_, hworld.members⟩
  show AuthorityFindings codec state (fsckLedger.findings _)
  rw [hfindings]
  exact hauthority

end Closure

/-! ## 3. The removals of a prune -/

section Removals

variable {state next : StoreState} {request : PruneRequest} {plan : PrunePlan}

abbrev RetainedBy (codec : ObjectCodec) (state : StoreState) (request : PruneRequest)
    (entry : StoreEntry) : Prop :=
  Retains codec state.objects (PruneRoot codec state request)
    (Unswept codec state.objects request) entry

theorem loadCanonicalRoots_retained {treeRoots directSymlinks : List Digest}
    {budget left : CanonicalLoadBudget}
    (h : loadCanonicalRootsWithBudget codec state.objects treeRoots directSymlinks budget =
      .ok (objects, left))
    (hroots : ∀ root ∈ treeRoots, RetainedBy codec state request (.tree root))
    (hlinks : ∀ link ∈ directSymlinks, RetainedBy codec state request (.symlink link)) :
    (∀ digest ∈ objects.trees.keys, RetainedBy codec state request (.tree digest)) ∧
      (∀ digest ∈ objects.files.keys, RetainedBy codec state request (.file digest)) ∧
      ∀ digest ∈ objects.symlinks.keys, RetainedBy codec state request (.symlink digest) := by
  obtain ⟨htrees, hfiles, hsymlinks⟩ := loadCanonicalRoots_inside retains_allows h hroots hlinks
  refine ⟨?_, ?_, ?_⟩
  · intro digest hmem
    obtain ⟨tree, hget⟩ := mem_keys.1 hmem
    exact (htrees digest tree hget).1
  · intro digest hmem
    obtain ⟨data, hget⟩ := mem_keys.1 hmem
    exact hfiles digest data hget
  · intro digest hmem
    obtain ⟨t, hget⟩ := mem_keys.1 hmem
    exact hsymlinks digest t hget

theorem keptPlan_retained (h : planPrune codec machine state request = .ok plan)
    {planId : PreparedId} {rec : PreparedRecord}
    (hload : loadPrepared codec state.objects planId = .ok rec) (hkeep : planId ∉ plan.plans) :
    RetainedBy codec state request (.plan planId) := by
  obtain ⟨-, retained, reached, kept, pinned, blobs, packs, hplanned⟩ := planPrune_ok h
  exact hplanned.kept_retained ⟨hload, hkeep⟩

theorem mem_of_left {stored kept pinned pins : List Digest} {digest : Digest}
    (hstored : digest ∈ stored)
    (hleft : digest ∉ stored.filter fun digest => digest ∉ kept ++ pinned ++ pins) :
    digest ∈ kept ∨ digest ∈ pinned ∨ digest ∈ pins := by
  by_contra hnot
  refine hleft (mem_filter.2 ⟨hstored, decide_eq_true ?_⟩)
  simpa [or_assoc] using hnot

theorem planPrune_leaves_retained (h : planPrune codec machine state request = .ok plan) :
    (∀ digest ∈ state.objects.trees.keys, digest ∉ plan.trees →
      RetainedBy codec state request (.tree digest)) ∧
    (∀ digest ∈ state.objects.files.keys, digest ∉ plan.files →
      RetainedBy codec state request (.file digest)) ∧
    ∀ digest ∈ state.objects.symlinks.keys, digest ∉ plan.symlinks →
      RetainedBy codec state request (.symlink digest) := by
  have hrec := fun planId rec => @keptPlan_retained codec machine state request plan h
    planId rec
  unfold planPrune at h
  simp only [bind_ok, exists_unit, Prod.exists] at h
  obtain ⟨loaded, hload, -, retained, reached, hreach, hplan⟩ := h
  obtain ⟨hloaded, -⟩ := loadWholeStore_ok hload
  have hreached := reachRetained_ok hloaded hreach
  unfold planRemovals retainCanonical at hplan
  simp only [bind_ok, exists_unit, Prod.exists, pure_ok] at hplan
  obtain ⟨canonical, ⟨kept, spent, hkept, pinned, left, hpinned, rfl⟩, -, -, blobs, bytes,
    -, names, -, -, -, -, trees, charged, -, -, -, -, -, gens, -, rfl⟩ := hplan
  have hgen : ∀ gen ∈ generationsOf loaded.generations reached, ∃ digest,
      loadGeneration codec state.objects digest = .ok gen ∧
        RetainedBy codec state request (.generation digest) := by
    intro gen hmem
    obtain ⟨digest, hdigest, hgenerationLoad⟩ := (mem_generationsOf hloaded).1 hmem
    obtain ⟨first, limit, hroot, hchain⟩ := (hreached.reachable digest).1 hdigest
    exact ⟨digest, hgenerationLoad, .lineage hroot hchain⟩
  have htree : ∀ tree ∈ recordTreeRoots ((loaded.prepared.entries.filter fun e =>
      e.1 ∉ prunedPlanIds loaded request retained).map Prod.snd)
        (generationsOf loaded.generations reached), RetainedBy codec state request (.tree tree) := by
    intro tree hmem
    rcases mem_recordTreeRoots.1 hmem with ⟨rec, hrecordMem, htree⟩ |
      ⟨gen, hgenerationMem, htree⟩
    · obtain ⟨planId, hplanLoad, hkeep⟩ := (mem_keptRecords hloaded).1 hrecordMem
      exact .planTree (hrec planId rec hplanLoad hkeep) hplanLoad htree
    · obtain ⟨digest, hgenerationLoad, habove⟩ := hgen gen hgenerationMem
      exact .generationTree habove hgenerationLoad htree
  have hlink : ∀ link ∈ stateSymlinks (recordStates ((loaded.prepared.entries.filter fun e =>
      e.1 ∉ prunedPlanIds loaded request retained).map Prod.snd)
        (generationsOf loaded.generations reached)),
      RetainedBy codec state request (.symlink link) := by
    intro link hmem
    rcases mem_recordSymlinks.1 hmem with ⟨rec, hrecordMem, hlink⟩ |
      ⟨gen, hgenerationMem, hlink⟩
    · obtain ⟨planId, hplanLoad, hkeep⟩ := (mem_keptRecords hloaded).1 hrecordMem
      exact .planSymlink (hrec planId rec hplanLoad hkeep) hplanLoad hlink
    · obtain ⟨digest, hgenerationLoad, habove⟩ := hgen gen hgenerationMem
      exact .generationSymlink habove hgenerationLoad hlink
  obtain ⟨hkeptTrees, hkeptFiles, hkeptLinks⟩ := loadCanonicalRoots_retained hkept htree hlink
  obtain ⟨hpinnedTrees, hpinnedFiles, hpinnedLinks⟩ :=
    loadCanonicalRoots_retained hpinned
      (fun tree hmem => .pinnedTree ((hreached.trees tree).1 hmem))
      (fun link hmem => .pinnedSymlink ((hreached.symlinks link).1 hmem))
  refine ⟨?_, ?_, ?_⟩
  · intro digest hstored hleft
    rcases mem_of_left hstored hleft with hmem | hmem | hmem
    · exact hkeptTrees digest hmem
    · exact hpinnedTrees digest hmem
    · exact .pinnedTree ((hreached.trees digest).1 hmem)
  · intro digest hstored hleft
    rcases mem_of_left hstored hleft with hmem | hmem | hmem
    · exact hkeptFiles digest hmem
    · exact hpinnedFiles digest hmem
    · exact .pinnedFile ((hreached.files digest).1 hmem)
  · intro digest hstored hleft
    rcases mem_of_left hstored hleft with hmem | hmem | hmem
    · exact hkeptLinks digest hmem
    · exact hpinnedLinks digest hmem
    · exact .pinnedSymlink ((hreached.symlinks digest).1 hmem)

/-- **A prune removes what is stored and not retained**, and nothing else. -/
theorem mem_removals_iff (h : planPrune codec machine state request = .ok plan)
    (entry : StoreEntry) :
    entry ∈ removals state.objects plan ↔
      ¬ state.objects.Lacks entry ∧ ¬ RetainedBy codec state request entry := by
  have hleft := planPrune_leaves_retained h
  obtain ⟨⟨loaded, hloaded, hnamed⟩, retained, reached, kept, pinned, blobs, packs, hplanned⟩ :=
    planPrune_ok h
  constructor
  · intro hmem
    refine ⟨?_, fun hretains => planPrune_keeps h hretains hmem⟩
    rw [mem_removals] at hmem
    refine not_lacks.2 ?_
    cases entry with
    | generation digest => exact ((hplanned.generations digest).1 hmem).1
    | plan planId =>
      rcases (hplanned.prunedPlans planId).1 hmem with hmem | ⟨-, hmem, -⟩
      · exact hnamed planId hmem
      · exact hmem
    | blob digest => exact ((hplanned.removedBlobs digest).1 hmem).1
    | pack digest => exact hmem.2
    | packManifest digest => exact hmem.2
    | tree digest => exact ((hplanned.removedTrees digest).1 hmem).1
    | symlink digest => exact ((hplanned.removedLinks digest).1 hmem).1
    | file digest => exact ((hplanned.removedFiles digest).1 hmem).1
  · rintro ⟨hlacks, hretains⟩
    have hstored := not_lacks.1 hlacks
    rw [mem_removals]
    by_contra hmem
    refine hretains ?_
    cases entry with
    | generation digest =>
      refine hplanned.reached_retained ?_
      by_contra hreached
      exact hmem ((hplanned.generations digest).2 ⟨hstored, hreached⟩)
    | plan planId =>
      obtain ⟨rec, hget⟩ := mem_keys.1 ((hloaded.planKeys planId).2 hstored)
      exact hplanned.kept_retained ⟨(hloaded.plans planId rec).1 hget, hmem⟩
    | blob digest =>
      refine hplanned.blob_retained ?_
      by_contra hneeded
      exact hmem ((hplanned.removedBlobs digest).2 ⟨hstored, hneeded⟩)
    | pack digest =>
      refine hplanned.pack_retained ?_
      by_contra hneeded
      exact hmem ⟨(hplanned.removedPacks digest).2 ⟨.inl hstored, hneeded⟩, hstored⟩
    | packManifest digest =>
      refine .manifest (hplanned.pack_retained ?_)
      by_contra hneeded
      exact hmem ⟨(hplanned.removedPacks digest).2 ⟨.inr hstored, hneeded⟩, hstored⟩
    | tree digest => exact hleft.1 digest hstored hmem
    | symlink digest => exact hleft.2.2 digest hstored hmem
    | file digest => exact hleft.2.1 digest hstored hmem

theorem pruneStore_removes (h : pruneStore codec machine state request = .ok next)
    (entry : StoreEntry) :
    ¬ state.objects.Lacks entry ∧ next.objects.Lacks entry ↔
      ¬ state.objects.Lacks entry ∧ ¬ RetainedBy codec state request entry := by
  obtain ⟨plan, hplan, rfl⟩ := pruneStore_ok h
  rw [← mem_removals_iff hplan entry]
  constructor
  · rintro ⟨hstored, hlacks⟩
    by_contra hmem
    exact hstored ((unlinkAll_same hmem).symm.lacks hlacks)
  · intro hmem
    exact ⟨((mem_removals_iff hplan entry).1 hmem).1, unlinkAll_lacks (.inr hmem)⟩

end Removals

/-! ## 4. The report and the removals -/

/-- Where the two closures meet: on blobs of manifests and files of prepared snapshots. -/
structure RetainedAlike (codec : ObjectCodec) (state : StoreState) : Prop where
  members : ∀ pack, Kept codec state (.packManifest pack) →
    ∀ member ∈ storedMembers state.objects pack, Named codec state (.blob member.blob)
  planFiles : ∀ planId record, loadPrepared codec state.objects planId = .ok record →
    ∀ file ∈ snapshotFiles record.desiredSnapshot, Kept codec state (.blob file.1)

variable {state next : StoreState}

theorem RetainedAlike.retains_iff (h : RetainedAlike codec state) (entry : StoreEntry) :
    FsckRetains codec state entry ↔ Kept codec state entry := by
  cases entry with
  | blob digest =>
    constructor
    · intro hnamed
      rcases named_blob hnamed with hkept | ⟨planId, rec, hload, file, hfile, rfl⟩
      · exact hkept
      · exact h.planFiles planId rec hload file hfile
    · intro hkept
      rcases kept_blob hkept with hnamed | ⟨pack, hpack, member, hmember, rfl⟩
      · exact hnamed
      · exact h.members pack hpack member hmember
  | _ => exact Iff.rfl

theorem subject_blob {digest : Digest} :
    e.subject = .artifactBlob digest ↔ e = .blob digest := by
  cases e <;> simp [StoreEntry.subject]

/-- **A clean report is what a prune removes** exactly when the two closures meet. -/
theorem fsck_reports_removals_iff {observe : TargetObserver} {packEnvelope : PackEnvelope}
    {layout : StoreLayout} {request : FsckRequest}
    (hclean : (fsck codec machine observe packEnvelope layout request state).isClean = true)
    (hprune : pruneStore codec machine state .plain = .ok next) :
    (∀ subject,
      Reports (fsck codec machine observe packEnvelope layout request state).findings subject ↔
        ∃ entry, (¬ state.objects.Lacks entry ∧ next.objects.Lacks entry) ∧
          entry.subject = subject) ↔
    RetainedAlike codec state := by
  obtain ⟨hauthority, hmembers⟩ := fsck_clean hclean
  have hremoved := pruneStore_removes hprune
  simp only [hauthority.reports, hremoved]
  constructor
  · intro hsame
    refine ⟨?_, ?_⟩
    · intro pack hpack member hmember
      by_contra hunnamed
      have hstored := hmembers pack member hmember
      obtain ⟨entry, ⟨-, hunkept⟩, hsubject⟩ := (hsame (.artifactBlob member.blob)).1
        ⟨.blob member.blob, not_lacks.2 hstored, hunnamed, rfl⟩
      rw [subject_blob.1 hsubject] at hunkept
      exact hunkept (.member hpack hmember)
    · intro planId record hload file hfile
      by_contra hunkept
      have hnamed : Named codec state (.blob file.1) :=
        .inr (.inl ⟨planId, record, hload, .inr ⟨file, hfile, rfl⟩⟩)
      have hstored := hauthority.stored file.1 hnamed
      obtain ⟨entry, -, hunnamed, hsubject⟩ := (hsame (.artifactBlob file.1)).2
        ⟨.blob file.1, ⟨not_lacks.2 hstored, hunkept⟩, rfl⟩
      rw [subject_blob.1 hsubject] at hunnamed
      exact hunnamed hnamed
  · intro halike subject
    simp only [halike.retains_iff, and_assoc]

def sampleObserver : TargetObserver := fun _ _ observed _ => (.ok .exact, observed)

def sampleLayout : StoreLayout where
  root := ["descriptor.json".toList, "objects".toList, "state".toList]
  objects := some ["blobs".toList, "pack-manifests".toList]
  state := some ["catalog.json".toList, "generations".toList]
  transactions := none
  transactionLock := true
  maintenanceLock := true

def sampleFsck (state : StoreState) : FsckReport :=
  fsck sampleCodec sampleMachine sampleObserver ⟨fun _ => true⟩ sampleLayout .default state

/-- The small store meets the condition: its report is what a prune removes. -/
theorem fsck_reports_removals_iff_sample :
    ∃ next, pruneStore sampleCodec sampleMachine sweepState .plain = .ok next ∧
      ((∀ subject, Reports (sampleFsck sweepState).findings subject ↔
        ∃ entry, (¬ sweepState.objects.Lacks entry ∧ next.objects.Lacks entry) ∧
          entry.subject = subject) ↔
      RetainedAlike sampleCodec sweepState) := by
  have hcheck : okAnd (pruneStore sampleCodec sampleMachine sweepState .plain)
      (fun _ => true) = true := by
    decide +kernel
  obtain ⟨next, hprune, -⟩ := okAnd_iff.1 hcheck
  have hclean : (sampleFsck sweepState).isClean = true := by
    decide +kernel
  exact ⟨next, hprune, fsck_reports_removals_iff hclean hprune⟩

/-- The small store with the pack of its plan, and that pack's member blob. -/
def packState : StoreState where
  objects := { sampleObjects [{ sampleFilePlan ['w'] ['f'] 1 with
      inputs := [⟨.source, "pack:p".toList, ⟨50⟩⟩] }] with
    generations := SortedMap.empty.insert ⟨101⟩ (publishedFile (.canonical (generationOf ⟨1⟩ none
      { sampleFilePlan ['w'] ['f'] 1 with inputs := [⟨.source, "pack:p".toList, ⟨50⟩⟩] })))
    packManifests := SortedMap.empty.insert ⟨50⟩ (publishedFile (.canonical [⟨['m'], ⟨7⟩, 4⟩]))
    blobs := (SortedMap.empty.insert ⟨5⟩ (publishedFile ⟨⟨5⟩, 3⟩)).insert ⟨7⟩
      (publishedFile ⟨⟨7⟩, 4⟩) }
  catalog := sampleCatalog

/-- The clean check reports the member blob, which a prune keeps. -/
theorem fsck_reports_kept_member :
    (sampleFsck packState).isClean = true ∧
    ∃ next, pruneStore sampleCodec sampleMachine packState .plain = .ok next ∧
      Reports (sampleFsck packState).findings (.artifactBlob ⟨7⟩) ∧
      ¬ ∃ entry, (¬ packState.objects.Lacks entry ∧ next.objects.Lacks entry) ∧
        entry.subject = .artifactBlob ⟨7⟩ := by
  have hcheck : okAnd (pruneStore sampleCodec sampleMachine packState .plain)
      (fun next => (next.objects.blobs.get? ⟨7⟩).isSome) = true := by
    decide +kernel
  obtain ⟨next, hprune, hkept⟩ := okAnd_iff.1 hcheck
  refine ⟨by decide +kernel, next, hprune, ?_, ?_⟩
  · exact ⟨unretained (.artifactBlob ⟨7⟩)
      "the verified artifact blob is not retained by current authority", by decide +kernel⟩
  · rintro ⟨entry, ⟨-, hlacks⟩, hsubject⟩
    rw [subject_blob.1 hsubject] at hlacks
    rw [show next.objects.blobs.get? ⟨7⟩ = none from hlacks] at hkept
    cases hkept

end Malm.Commit
