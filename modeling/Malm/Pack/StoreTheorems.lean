/-
Malm.Pack.StoreTheorems — a published pack can be loaded.

The invariant: every blob has the bytes its name says, and every manifest lists
stored members of the pack it is named by. A prune keeps it unless it stops between
the removal of a member and that of the manifest that lists it; then the next
publication reuses the manifest, and loading fails.
-/
import Malm.Commit.RetentionTheorems
import Malm.Pack.Store

namespace Malm.Pack

open Commit Checks List SortedMap

variable {file : StoreFile (Encoded (List PackMember))} {next store : ObjectStore}

/-! ## 1. Files in path order -/

theorem sortFiles_perm (files : List PackFile) : (sortFiles files).Perm files :=
  perm_insertionSort _ files

theorem mem_sortFiles {files : List PackFile} {file : PackFile} :
    file ∈ sortFiles files ↔ file ∈ files :=
  (sortFiles_perm files).mem_iff

theorem sortFiles_sorted (files : List PackFile) :
    (sortFiles files).Pairwise fun left right => left.path ≤ right.path :=
  pairwise_insertionSort (fun left right : PackFile => left.path ≤ right.path) files

theorem sortFiles_sortFiles (files : List PackFile) :
    sortFiles (sortFiles files) = sortFiles files :=
  (sortFiles_sorted files).insertionSort_eq

theorem checkEntries_strict : ∀ {files : List PackFile} {prev : Option PackPath} {total : Nat},
    checkEntries prev total files = .ok () →
      (files.Pairwise fun left right => left.path ≤ right.path) →
      (∀ path, prev = some path → ∀ file ∈ files, path ≤ file.path) →
      (∀ path, prev = some path → ∀ file ∈ files, path < file.path) ∧
        (files.map PackFile.path).Pairwise (· < ·) ∧
        ∀ file ∈ files, file.bytes.byteLen ≤ maxPackFileBytes
  | [], _, _, _, _, _ => by simp
  | file :: files, prev, total, h, hsorted, hprev => by
    rw [checkEntries] at h
    simp only [bind_ok, exists_unit, reject_ok, not_lt] at h
    obtain ⟨hne, hsize, -, hrest⟩ := h
    obtain ⟨hfirst, hsorted⟩ := pairwise_cons.1 hsorted
    obtain ⟨hlater, hstrict, hsizes⟩ := checkEntries_strict hrest hsorted fun path hpath => by
      cases hpath
      exact hfirst
    have hbelow : ∀ path, prev = some path → path < file.path := by
      intro path hpath
      refine lt_of_le_of_ne (hprev path hpath file mem_cons_self) ?_
      rintro rfl
      exact hne hpath
    refine ⟨?_, ?_, ?_⟩
    · intro path hpath other hother
      rcases mem_cons.1 hother with rfl | hother
      · exact hbelow path hpath
      · exact (hbelow path hpath).trans (hlater _ rfl other hother)
    · rw [map_cons, pairwise_cons]
      refine ⟨?_, hstrict⟩
      intro path hpath
      obtain ⟨other, hother, rfl⟩ := mem_map.1 hpath
      exact hlater _ rfl other hother
    · intro other hother
      rcases mem_cons.1 hother with rfl | hother
      · exact hsize
      · exact hsizes other hother

/-! ## 2. Packs -/

/-- The files of a pack: its digest is theirs, and their paths are pack paths. -/
structure PackOf (codec : PackCodec) (digest : Digest) (files : List PackFile) : Prop where
  content : packContentDigest codec files = .ok digest
  paths : ∀ file ∈ files, packPathShape file.path = true

variable {digest : Digest} {files : List PackFile}

section Packs

variable {codec : PackCodec}

section

variable (h : packContentDigest codec files = .ok digest)
include h

theorem packContentDigest_ok :
    files.length ≤ maxPackTreeEntries ∧ checkEntries none 0 (sortFiles files) = .ok () ∧
      codec.contentDigest (sortFiles files) = digest := by
  unfold packContentDigest validatedPackEntries at h
  simp only [bind_ok, exists_unit, reject_ok, pure_ok, not_lt] at h
  obtain ⟨entries, ⟨hlen, hcheck, -, rfl⟩, hdigest⟩ := h
  exact ⟨hlen, hcheck, hdigest⟩

theorem sortFiles_strict :
    ((sortFiles files).map PackFile.path).Pairwise (· < ·) :=
  (checkEntries_strict (packContentDigest_ok h).2.1 (sortFiles_sorted files) (by simp)).2.1

theorem files_nodup :
    (files.map PackFile.path).Nodup :=
  (((sortFiles_perm files).map PackFile.path).nodup_iff).1
    ((sortFiles_strict h).imp fun hlt => ne_of_lt hlt)

end

theorem PackOf.strict (h : PackOf codec digest files) :
    ((sortFiles files).map PackFile.path).Pairwise (· < ·) :=
  sortFiles_strict h.content

theorem fromFiles_ok {pack : VerifiedPack}
    (h : VerifiedPack.fromFiles codec digest files = .ok pack) :
    pack.contentDigest = digest ∧ packContentDigest codec files = .ok digest ∧
      pack.files = filesByPath files := by
  unfold VerifiedPack.fromFiles at h
  simp only [bind_ok, exists_unit, reject_ok, mapError_ok, pure_ok, not_not] at h
  obtain ⟨actual, hactual, man, -, rfl, rfl⟩ := h
  exact ⟨rfl, hactual, rfl⟩

theorem filesByPath_entries (hcontent : packContentDigest codec files = .ok digest) :
    (filesByPath files).entries.map (fun e => (⟨e.1, e.2⟩ : PackFile)) =
      sortFiles files := by
  have hfold : filesByPath files = (files.map fun file => (file.path, file.bytes)).foldl
      (fun map e => map.insert e.1 e.2) .empty := by
    rw [filesByPath, foldl_map]
  have hentries : (filesByPath files).entries =
      (sortFiles files).map fun file => (file.path, file.bytes) := by
    refine entries_eq_of_mem_iff (filesByPath files).sorted ?_ ?_
    · rw [map_map]
      exact sortFiles_strict hcontent
    · rintro ⟨path, bytes⟩
      rw [← get?_eq_some, hfold, get?_foldl_insert]
      · simp only [mem_map, mem_sortFiles, get?_empty]
        constructor
        · rintro (hmem | ⟨-, hnone⟩)
          · exact hmem
          · cases hnone
        · exact .inl
      · rw [map_map]
        exact files_nodup hcontent
  rw [hentries, map_map]
  exact map_id _

theorem PackOf.size (h : PackOf codec digest files) {file : PackFile} (hfile : file ∈ files) :
    file.bytes.byteLen ≤ maxPackFileBytes :=
  (checkEntries_strict (packContentDigest_ok h.content).2.1 (sortFiles_sorted files)
    (by simp)).2.2 file (mem_sortFiles.2 hfile)

theorem packContentDigest_sortFiles :
    packContentDigest codec (sortFiles files) = packContentDigest codec files := by
  unfold packContentDigest validatedPackEntries
  rw [sortFiles_sortFiles, (sortFiles_perm files).length_eq]

theorem encodePackManifestObject_files :
    encodePackManifestObject (files.map packMember) =
      .canonical ((sortFiles files).map packMember) := by
  unfold encodePackManifestObject sortFiles
  rw [map_insertionSort (fun left right : PackFile => left.path ≤ right.path)
    (fun left right : PackMember => left.path ≤ right.path) packMember files]
  intro left _ right _
  exact Iff.rfl

theorem packPathShape_bytes {path : PackPath} (h : packPathShape path = true) :
    path.byteLen ≤ maxPackPathBytes := by
  simp only [packPathShape, Bool.and_eq_true, decide_eq_true_eq] at h
  exact h.1.1.1.1.1.2

theorem PackOf.manifestShape (h : PackOf codec digest files) :
    requireManifestShape ⟨true, true, true, .canonical ((sortFiles files).map packMember)⟩ =
      .ok ((sortFiles files).map packMember) := by
  have hlen : ((sortFiles files).map packMember).length ≤ 100000 := by
    rw [length_map, (sortFiles_perm files).length_eq]
    exact (packContentDigest_ok h.content).1
  have hpath : ∀ member ∈ (sortFiles files).map packMember,
      packPathShape member.path = true ∧ member.path.byteLen ≤ 1024 := by
    intro member hmember
    obtain ⟨file, hfile, rfl⟩ := mem_map.1 hmember
    have hshape := h.paths file (mem_sortFiles.1 hfile)
    exact ⟨hshape, packPathShape_bytes hshape⟩
  have hsum : packManifestLen ((sortFiles files).map packMember) ≤ 39 + 100000 * 1119 := by
    have hle : ∀ size ∈ ((sortFiles files).map packMember).map
        fun member => 8 + member.path.byteLen + 8 + 71 + 8, size ≤ 1119 := by
      intro size hsize
      obtain ⟨member, hmember, rfl⟩ := mem_map.1 hsize
      have := (hpath member hmember).2
      omega
    have hbound : (((sortFiles files).map packMember).map
        fun member => 8 + member.path.byteLen + 8 + 71 + 8).sum ≤ _ * 1119 :=
      sum_le_card_nsmul _ 1119 hle
    rw [length_map] at hbound
    unfold packManifestLen
    have := Nat.mul_le_mul_right 1119 hlen
    omega
  have hlong : ¬ ∃ member ∈ (sortFiles files).map packMember, 1024 < member.path.byteLen := by
    rintro ⟨member, hmember, hlt⟩
    exact absurd (hpath member hmember).2 (not_le.2 hlt)
  have hinvalid : ¬ ∃ member ∈ (sortFiles files).map packMember,
      packPathShape member.path = false := by
    rintro ⟨member, hmember, hfalse⟩
    rw [(hpath member hmember).1] at hfalse
    cases hfalse
  have hstrict : (((sortFiles files).map packMember).map PackMember.path).Pairwise (· < ·) := by
    rw [map_map]
    exact h.strict
  unfold requireManifestShape validateObjectStat decodePackManifestObject
  have hobj : ¬ maxPackObjectBytes <
      packManifestLen ((sortFiles files).map packMember) := by
    unfold maxPackObjectBytes
    omega
  have hmanif : ¬ maxPackManifestBytes <
      packManifestLen ((sortFiles files).map packMember) := by
    unfold maxPackManifestBytes
    omega
  simp only [reject, Encoded.byteLen, hobj, hmanif, not_lt.2 hlen, hlong, hinvalid, hstrict,
    ok_bind, pure_eq, not_true, if_false, Bool.not_true, Bool.or_self, Bool.false_eq_true]

end Packs

/-! ## 3. Blobs -/

/-- Every blob has its published shape and the bytes its name says. -/
def BlobsSound (store : ObjectStore) : Prop :=
  ∀ digest file, store.blobs.get? digest = some file →
    ∃ bytes, file = publishedFile bytes ∧ bytes.hash = digest ∧
      bytes.byteLen ≤ maxArtifactBlobBytes

/-- A store that has gained some blobs. -/
structure Gains (store next : ObjectStore) (contents : List Contents) : Prop where
  sound : BlobsSound next
  stored : ∀ bytes ∈ contents, next.blobs.get? bytes.hash = some (publishedFile bytes)
  kept : ∀ digest file, store.blobs.get? digest = some file →
    next.blobs.get? digest = some file
  packs : next.packs = store.packs
  manifests : next.packManifests = store.packManifests

theorem contents_eq {left right : Contents} (hhash : left.hash = right.hash)
    (hlen : left.byteLen = right.byteLen) : left = right := by
  cases left
  cases right
  cases hhash
  cases hlen
  rfl

theorem publishBlob_gains {bytes : Contents} (hsound : BlobsSound store)
    (h : publishBlob store bytes.hash bytes = .ok next) :
    Gains store next [bytes] := by
  unfold publishBlob at h
  simp only [bind_ok, exists_unit, reject_ok, not_lt, not_not] at h
  obtain ⟨hsize, -, h⟩ := h
  split at h
  · rename_i hnone
    cases h
    refine ⟨?_, by simp [publishedFile], ?_, rfl, rfl⟩
    · intro digest file hfile
      rcases of_get?_insert hfile with ⟨hdigest, rfl⟩ | hfile
      · exact ⟨bytes, rfl, hdigest.symm, hsize⟩
      · exact hsound digest file hfile
    · intro digest file hfile
      exact get?_insert_of_none hnone hfile
  · rename_i file hfile
    obtain ⟨found, rfl, hhash, -⟩ := hsound _ _ hfile
    have hsame : found = bytes ∧ next = store := by
      split at h
      · rename_i hshape
        cases h
        simp only [publishedFile, Bool.and_self, Bool.true_and] at hshape
        exact ⟨contents_eq hhash (of_decide_eq_true hshape), rfl⟩
      · simp only [bind_ok, exists_unit, reject_ok, pure_ok, not_not] at h
        exact ⟨h.2.1, h.2.2.symm⟩
    obtain ⟨rfl, rfl⟩ := hsame
    exact ⟨hsound, by simpa using hfile, fun _ _ h => h, rfl, rfl⟩

theorem publishBlobs_gains : ∀ {data : List Contents} {store next : ObjectStore},
    BlobsSound store → publishBlobs store data = .ok next → Gains store next data
  | [], store, next, hsound, h => by
    rw [publishBlobs, foldlM_nil, pure_ok] at h
    subst h
    exact ⟨hsound, by simp, fun _ _ h => h, rfl, rfl⟩
  | bytes :: data, store, next, hsound, h => by
    rw [publishBlobs, foldlM_cons, bind_ok] at h
    obtain ⟨mid, hfirst, hrest⟩ := h
    have hone := publishBlob_gains hsound hfirst
    have hmore := publishBlobs_gains hone.sound hrest
    refine ⟨hmore.sound, ?_, ?_, hmore.packs.trans hone.packs,
      hmore.manifests.trans hone.manifests⟩
    · intro found hfound
      rcases mem_cons.1 hfound with rfl | hfound
      · exact hmore.kept _ _ (hone.stored found mem_cons_self)
      · exact hmore.stored found hfound
    · intro digest file hfile
      exact hmore.kept digest file (hone.kept digest file hfile)

/-! ## 4. Sound stores -/

/-- **The invariant.** Blobs are what their names say, and every manifest's members are stored. -/
structure PackSound (codec : PackCodec) (store : ObjectStore) : Prop where
  blobs : BlobsSound store
  packs : ∀ digest, store.packs.get? digest = none
  manifests : ∀ digest file, store.packManifests.get? digest = some file →
    ∃ files, PackOf codec digest files ∧
      file = publishedFile (.canonical ((sortFiles files).map packMember)) ∧
      ∀ member ∈ files, store.blobs.get? member.bytes.hash = some (publishedFile member.bytes)

section Sound

variable {codec : PackObjectCodec}

theorem PackSound.gains (h : PackSound codec.toPackCodec store) {data : List Contents}
    (hgains : Gains store next data) : PackSound codec.toPackCodec next where
  blobs := hgains.sound
  packs digest := by rw [hgains.packs, h.packs]
  manifests digest file hfile := by
    rw [hgains.manifests] at hfile
    obtain ⟨files, hpack, hmanif, hmembers⟩ := h.manifests digest file hfile
    exact ⟨files, hpack, hmanif, fun member hmember => hgains.kept _ _ (hmembers member hmember)⟩

variable {outcome : PackObjectPublication}

theorem PackSound.publishManifest (h : PackSound codec.toPackCodec store)
    (hpack : PackOf codec.toPackCodec digest files)
    (hpublish : publishManifest store digest files = .ok (outcome, next)) :
    PackSound codec.toPackCodec next ∧ ∃ file, next.packManifests.get? digest = some file := by
  unfold Pack.publishManifest at hpublish
  simp only [bind_ok, pure_ok, Prod.mk.injEq] at hpublish
  obtain ⟨filled, hblobs, -, rfl⟩ := hpublish
  have hgains := publishBlobs_gains h.blobs hblobs
  have hfilled := h.gains hgains
  refine ⟨⟨hfilled.blobs, hfilled.packs, ?_⟩, _, by
    rw [get?_insert, if_pos rfl]⟩
  intro found file hfile
  rcases of_get?_insert hfile with ⟨rfl, rfl⟩ | hfile
  · refine ⟨files, hpack, by rw [encodePackManifestObject_files]; rfl, ?_⟩
    intro member hmember
    exact hgains.stored _ (mem_map_of_mem hmember)
  · exact hfilled.manifests found file hfile

theorem requireContentDigest_ok (h : requireContentDigest codec digest files = .ok ()) :
    packContentDigest codec.toPackCodec files = .ok digest := by
  unfold requireContentDigest at h
  simp only [bind_ok, reject_ok, mapError_ok, not_not] at h
  obtain ⟨actual, hactual, rfl⟩ := h
  exact hactual

section

variable (h : PackSound codec.toPackCodec store)
  (hpaths : ∀ file ∈ files, packPathShape file.path = true)
include h hpaths

theorem PackSound.publishPack
    (hpublish : publishPack codec store digest files = .ok (outcome, next)) :
    PackOf codec.toPackCodec digest files ∧ PackSound codec.toPackCodec next ∧
      ∃ file, next.packManifests.get? digest = some file := by
  unfold Pack.publishPack at hpublish
  have hlegacy : store.packs.contains digest = false := by
    rw [← Bool.not_eq_true, SortedMap.contains_iff, ← SortedMap.get?_eq_none]
    exact h.packs digest
  simp only [bind_ok, exists_unit, hlegacy, Bool.false_eq_true, if_false] at hpublish
  obtain ⟨hcontent, hpublish⟩ := hpublish
  have hpack : PackOf codec.toPackCodec digest files := ⟨requireContentDigest_ok hcontent, hpaths⟩
  split at hpublish
  · rename_i file hfile
    simp only [bind_ok, pure_ok, Prod.mk.injEq] at hpublish
    obtain ⟨-, -, -, rfl⟩ := hpublish
    exact ⟨hpack, h, file, hfile⟩
  · exact ⟨hpack, h.publishManifest hpack hpublish⟩

theorem PackSound.publishVerified {pack : VerifiedPack}
    (hverified : VerifiedPack.fromFiles codec.toPackCodec digest files = .ok pack)
    (hpublish : publishVerified store digest pack = .ok (outcome, next)) :
    PackOf codec.toPackCodec digest files ∧ PackSound codec.toPackCodec next ∧
      ∃ file, next.packManifests.get? digest = some file := by
  obtain ⟨-, hcontent, hfiles⟩ := fromFiles_ok hverified
  have hpack : PackOf codec.toPackCodec digest files := ⟨hcontent, hpaths⟩
  unfold Pack.publishVerified at hpublish
  rw [h.packs digest] at hpublish
  dsimp only at hpublish
  split at hpublish
  · rename_i file hfile
    simp only [bind_ok, pure_ok, Prod.mk.injEq] at hpublish
    obtain ⟨-, -, -, rfl⟩ := hpublish
    exact ⟨hpack, h, file, hfile⟩
  · rw [hfiles, filesByPath_entries hcontent] at hpublish
    have hsorted : PackOf codec.toPackCodec digest (sortFiles files) :=
      ⟨packContentDigest_sortFiles.trans hcontent,
        fun file hfile => hpaths file (mem_sortFiles.1 hfile)⟩
    exact ⟨hpack, h.publishManifest hsorted hpublish⟩

end

/-! ## 5. Loading -/

theorem loadBlobByDigest_of_stored {bytes : Contents} (hsize : bytes.byteLen ≤ maxArtifactBlobBytes)
    (h : store.blobs.get? bytes.hash = some (publishedFile bytes)) :
    loadBlobByDigest store bytes.hash = .ok bytes := by
  simp [loadBlobByDigest, h, publishedFile, require, reject, ok_bind, pure_eq, not_lt.2 hsize]

theorem loadMembers_of_stored : ∀ {files : List PackFile},
    (∀ file ∈ files, file.bytes.byteLen ≤ maxArtifactBlobBytes ∧
      store.blobs.get? file.bytes.hash = some (publishedFile file.bytes)) →
    (files.map packMember).mapM (loadMember store) = .ok files
  | [], _ => rfl
  | file :: files, h => by
    obtain ⟨hsize, hstored⟩ := h file mem_cons_self
    have hmember : loadMember store (packMember file) = .ok file := by
      unfold loadMember packMember
      rw [loadBlobByDigest_of_stored hsize hstored]
      simp [ok_bind, reject, pure_eq]
    rw [map_cons, mapM_cons, hmember,
      loadMembers_of_stored fun other hother => h other (mem_cons_of_mem _ hother)]
    rfl

theorem PackSound.load (hfree : Function.Injective codec.contentDigest)
    (h : PackSound codec.toPackCodec store) (hpack : PackOf codec.toPackCodec digest files)
    (hfile : store.packManifests.get? digest = some file) :
    loadPack codec store digest = .ok (sortFiles files) := by
  obtain ⟨others, hothers, rfl, hmembers⟩ := h.manifests digest file hfile
  -- the manifest may have been published for the same files in another order
  have hsame : sortFiles others = sortFiles files :=
    hfree ((packContentDigest_ok hothers.content).2.2.trans
      (packContentDigest_ok hpack.content).2.2.symm)
  have hstored : ∀ member ∈ sortFiles files,
      member.bytes.byteLen ≤ maxArtifactBlobBytes ∧
        store.blobs.get? member.bytes.hash = some (publishedFile member.bytes) := by
    intro member hmember
    rw [← hsame, mem_sortFiles] at hmember
    exact ⟨hothers.size hmember, hmembers member hmember⟩
  have hshape := hothers.manifestShape
  rw [hsame] at hshape
  have hdigest : requireContentDigest codec digest (sortFiles files) = .ok () := by
    unfold requireContentDigest
    rw [packContentDigest_sortFiles, hpack.content]
    simp [Except.mapError, ok_bind, reject]
  unfold loadPack
  rw [hfile, hsame]
  unfold loadFromManifest publishedFile
  dsimp only
  rw [hshape, ok_bind, loadMembers_of_stored hstored, ok_bind, hdigest, ok_bind]
  rfl

theorem PackSound.load_missing {member : PackFile}
    (hmember : member ∈ files) (hmiss : store.blobs.get? member.bytes.hash = none)
    (hfile : store.packManifests.get? digest =
      some (publishedFile (.canonical ((sortFiles files).map packMember)))) :
    ∀ found, loadPack codec store digest ≠ .ok found := by
  intro found hload
  unfold loadPack at hload
  rw [hfile] at hload
  unfold loadFromManifest at hload
  simp only [bind_ok, exists_unit, pure_ok] at hload
  obtain ⟨members, hshape, loaded, hloaded, -⟩ := hload
  have hmembers : members = (sortFiles files).map packMember := by
    unfold requireManifestShape decodePackManifestObject publishedFile at hshape
    simp only [bind_ok, exists_unit, pure_ok] at hshape
    exact hshape.2.2.2.2.2.2.symm
  subst hmembers
  have hall : ∀ listed ∈ (sortFiles files).map packMember,
      ∃ file, loadMember store listed = .ok file := by
    intro listed hlisted
    exact mapM_ok_of_mem hloaded hlisted
  obtain ⟨file, hfile⟩ := hall _ (mem_map_of_mem (mem_sortFiles.2 hmember))
  unfold loadMember loadBlobByDigest packMember at hfile
  simp only [bind_ok, require_ok] at hfile
  obtain ⟨-, ⟨stored, hstored, -⟩, -⟩ := hfile
  rw [hmiss] at hstored
  cases hstored

theorem PackOf.publish_reused (hpack : PackOf codec.toPackCodec digest files)
    (hlegacy : ∀ digest, store.packs.get? digest = none)
    (hfile : store.packManifests.get? digest =
      some (publishedFile (.canonical ((sortFiles files).map packMember)))) :
    publishPack codec store digest files = .ok (.reused, store) := by
  have hcontains : store.packs.contains digest = false := by
    rw [← Bool.not_eq_true, SortedMap.contains_iff, ← SortedMap.get?_eq_none]
    exact hlegacy digest
  have hshape := hpack.manifestShape
  unfold publishPack requireContentDigest
  rw [hpack.content, hcontains, hfile]
  unfold publishedFile
  simp [Except.mapError, ok_bind, reject, hshape, pure_eq]

end Sound

/-! ## 6. Prunes -/

/-- The prune stops after `count` removals, between a member of a pack and its manifest. -/
def StopsInsidePack (store : ObjectStore) (plan : PrunePlan) (count : Nat) : Prop :=
  ∃ digest, ∃ member ∈ storedMembers store digest,
    .packManifest digest ∈ removals store plan ∧
      .packManifest digest ∉ (removals store plan).take count ∧
      .blob member.blob ∈ (removals store plan).take count

section Prunes

variable {codec : ObjectCodec} {packCodec : PackObjectCodec} {machine : Machine}
  {state : StoreState} {request : PruneRequest} {plan : PrunePlan}

theorem blob_of_unlinkAll {es : List StoreEntry} {file : StoreFile Contents}
    (h : (store.unlinkAll es).blobs.get? digest = some file) :
    store.blobs.get? digest = some file := by
  by_cases hmem : .blob digest ∈ es
  · have hlacks : (store.unlinkAll es).blobs.get? digest = none :=
      @unlinkAll_lacks (.blob digest) es store (.inr hmem)
    rw [hlacks] at h
    cases h
  · have hsame : (store.unlinkAll es).blobs.get? digest = store.blobs.get? digest :=
      @unlinkAll_same (.blob digest) es store hmem
    rw [← hsame, h]

theorem manifest_of_unlinkAll {entries : List StoreEntry}
    (h : (store.unlinkAll entries).packManifests.get? digest = some file) :
    store.packManifests.get? digest = some file ∧ .packManifest digest ∉ entries := by
  by_cases hmem : .packManifest digest ∈ entries
  · have hlacks : (store.unlinkAll entries).packManifests.get? digest = none :=
      @unlinkAll_lacks (.packManifest digest) entries store (.inr hmem)
    rw [hlacks] at h
    cases h
  · have hsame : (store.unlinkAll entries).packManifests.get? digest =
        store.packManifests.get? digest :=
      @unlinkAll_same (.packManifest digest) entries store hmem
    exact ⟨hsame ▸ h, hmem⟩

theorem planPrune_keeps_members (h : planPrune codec machine state request = .ok plan)
    (hstored : digest ∈ state.objects.packManifests.keys)
    (hkept : .packManifest digest ∉ removals state.objects plan) {member : PackMember}
    (hmember : member ∈ storedMembers state.objects digest) :
    .blob member.blob ∉ removals state.objects plan := by
  obtain ⟨-, retained, reached, kept, pinned, blobs, packs, hplanned⟩ := planPrune_ok h
  rw [mem_removals] at hkept ⊢
  have hpack : digest ∈ packs := by
    by_contra hnot
    exact hkept ⟨(hplanned.removedPacks digest).2 ⟨.inr hstored, hnot⟩, hstored⟩
  have hneeded : member.blob ∈ blobs :=
    (hplanned.neededBlobs _).2 (.inr (.inr ⟨digest, hpack, member, hmember, rfl⟩))
  intro hremoved
  exact ((hplanned.removedBlobs _).1 hremoved).2 hneeded

theorem storedMembers_of_get? {members : List PackMember}
    (h : store.packManifests.get? digest = some (publishedFile (.canonical members))) :
    storedMembers store digest = members := by
  unfold storedMembers
  rw [h]
  rfl

theorem PackSound.prune (h : PackSound packCodec.toPackCodec state.objects)
    (hplan : planPrune codec machine state request = .ok plan) {count : Nat}
    (hstop : ¬ StopsInsidePack state.objects plan count) :
    PackSound packCodec.toPackCodec
      (state.objects.unlinkAll ((removals state.objects plan).take count)) where
  blobs digest file hfile := h.blobs digest file (blob_of_unlinkAll hfile)
  packs digest := @unlinkAll_lacks (.pack digest) _ state.objects (.inl (h.packs digest))
  manifests digest file hfile := by
    obtain ⟨hfile, hleft⟩ := manifest_of_unlinkAll hfile
    obtain ⟨files, hpack, rfl, hmembers⟩ := h.manifests digest file hfile
    refine ⟨files, hpack, rfl, ?_⟩
    intro member hmember
    have hlisted : packMember member ∈ storedMembers state.objects digest := by
      rw [storedMembers_of_get? hfile]
      exact mem_map_of_mem (mem_sortFiles.2 hmember)
    have hblob : .blob member.bytes.hash ∉ (removals state.objects plan).take count := by
      intro hremoved
      by_cases hplanned : .packManifest digest ∈ removals state.objects plan
      · exact hstop ⟨digest, packMember member, hlisted, hplanned, hleft, hremoved⟩
      · exact planPrune_keeps_members hplan
          (mem_keys.2 ⟨_, hfile⟩) hplanned hlisted
          (mem_of_mem_take hremoved)
    have hsame : (state.objects.unlinkAll ((removals state.objects plan).take count)).blobs.get?
        member.bytes.hash = state.objects.blobs.get? member.bytes.hash :=
      @unlinkAll_same (.blob member.bytes.hash) _ state.objects hblob
    rw [hsame]
    exact hmembers member hmember

/-! ## 7. Runs -/

/-- What happens to the packs of a store: preparations, publications, also interrupted ones, and
prunes that may crash where `allowed`. -/
inductive PackRun (codec : ObjectCodec) (packCodec : PackObjectCodec)
    (allowed : ObjectStore → PrunePlan → Nat → Prop) : StoreState → Prop
  | initial {state : StoreState} (blobs : state.objects.blobs = .empty)
      (packs : state.objects.packs = .empty)
      (manifests : state.objects.packManifests = .empty) :
      PackRun codec packCodec allowed state
  | publish {state : StoreState} (before : PackRun codec packCodec allowed state)
      (digest : Digest) (files : List PackFile)
      (paths : ∀ file ∈ files, packPathShape file.path = true)
      (outcome : PackObjectPublication) (objects : ObjectStore)
      (published : publishPack packCodec state.objects digest files = .ok (outcome, objects)) :
      PackRun codec packCodec allowed ⟨objects, state.catalog⟩
  | publishVerified {state : StoreState} (before : PackRun codec packCodec allowed state)
      (digest : Digest) (files : List PackFile)
      (paths : ∀ file ∈ files, packPathShape file.path = true) (pack : VerifiedPack)
      (verified : VerifiedPack.fromFiles packCodec.toPackCodec digest files = .ok pack)
      (outcome : PackObjectPublication) (objects : ObjectStore)
      (published : publishVerified state.objects digest pack = .ok (outcome, objects)) :
      PackRun codec packCodec allowed ⟨objects, state.catalog⟩
  | prepare {state : StoreState} (before : PackRun codec packCodec allowed state)
      (contents : List Contents) (filled objects : ObjectStore)
      (published : publishBlobs state.objects contents = .ok filled)
      (blobs : objects.blobs = filled.blobs) (packs : objects.packs = filled.packs)
      (manifests : objects.packManifests = filled.packManifests) :
      PackRun codec packCodec allowed ⟨objects, state.catalog⟩
  | commit {state next : StoreState} (before : PackRun codec packCodec allowed state)
      (prepared : Store.PreparedRecord) (accepted : Commits codec state prepared next) :
      PackRun codec packCodec allowed next
  | prune {state : StoreState} (before : PackRun codec packCodec allowed state)
      (machine : Machine) (request : PruneRequest) (plan : PrunePlan)
      (planned : planPrune codec machine state request = .ok plan) (count : Nat)
      (objects : ObjectStore)
      (removed : ((removals state.objects plan).take count).foldlM (removeEntry codec)
        state.objects = .ok objects)
      (stops : allowed state.objects plan count) :
      PackRun codec packCodec allowed ⟨objects, state.catalog⟩

/-- The runs whose prunes never stop inside a pack. -/
abbrev CleanRun (codec : ObjectCodec) (packCodec : PackObjectCodec) : StoreState → Prop :=
  PackRun codec packCodec fun store plan count => ¬ StopsInsidePack store plan count

/-- **A published pack can be loaded** immediately, with its files in path order. -/
def PublishedLoads (packCodec : PackObjectCodec) (store : ObjectStore) : Prop :=
  (∀ digest files outcome next, (∀ file ∈ files, packPathShape file.path = true) →
    publishPack packCodec store digest files = .ok (outcome, next) →
      loadPack packCodec next digest = .ok (sortFiles files)) ∧
  ∀ digest files pack outcome next, (∀ file ∈ files, packPathShape file.path = true) →
    VerifiedPack.fromFiles packCodec.toPackCodec digest files = .ok pack →
    publishVerified store digest pack = .ok (outcome, next) →
      loadPack packCodec next digest = .ok (sortFiles files)

theorem PackSound.publishedLoads (hfree : Function.Injective packCodec.contentDigest)
    (h : PackSound packCodec.toPackCodec store) : PublishedLoads packCodec store := by
  constructor
  · intro digest files outcome next hpaths hpublish
    obtain ⟨hpack, hsound, file, hfile⟩ := h.publishPack hpaths hpublish
    exact hsound.load hfree hpack hfile
  · intro digest files pack outcome next hpaths hverified hpublish
    obtain ⟨hpack, hsound, file, hfile⟩ := h.publishVerified hpaths hverified hpublish
    exact hsound.load hfree hpack hfile

theorem Commits.objects {next : StoreState} {prep : Store.PreparedRecord}
    (h : Commits codec state prep next) :
    next.objects.blobs = state.objects.blobs ∧ next.objects.packs = state.objects.packs ∧
      next.objects.packManifests = state.objects.packManifests := by
  obtain ⟨machine, planId, tr, ownership, budget, -, hcases⟩ := h.cases
  rcases hcases with ⟨-, -, -, rfl⟩ | ⟨gen, -, -, hpublish⟩
  · exact ⟨rfl, rfl, rfl⟩
  · unfold publishImmutable at hpublish
    rw [bind_ok] at hpublish
    obtain ⟨found, -, hpublish⟩ := hpublish
    split at hpublish
    · split at hpublish
      · rw [pure_ok] at hpublish
        rw [← hpublish]
        exact ⟨rfl, rfl, rfl⟩
      · cases hpublish
    · rw [pure_ok] at hpublish
      rw [← hpublish]
      exact ⟨rfl, rfl, rfl⟩

theorem PackSound.congr (h : PackSound packCodec.toPackCodec store)
    (hblobs : next.blobs = store.blobs) (hpacks : next.packs = store.packs)
    (hmanifests : next.packManifests = store.packManifests) :
    PackSound packCodec.toPackCodec next where
  blobs digest file hfile := h.blobs digest file (hblobs ▸ hfile)
  packs digest := by rw [hpacks, h.packs]
  manifests digest file hfile := by
    rw [hblobs]
    exact h.manifests digest file (hmanifests ▸ hfile)

theorem CleanRun.sound (h : CleanRun codec packCodec state) :
    PackSound packCodec.toPackCodec state.objects := by
  induction h with
  | initial blobs packs manifests =>
    refine ⟨?_, ?_, ?_⟩
    · intro digest file hfile
      rw [blobs, get?_empty] at hfile
      cases hfile
    · intro digest
      rw [packs, get?_empty]
    · intro digest file hfile
      rw [manifests, get?_empty] at hfile
      cases hfile
  | publish before digest files paths outcome objects published ih =>
    exact (ih.publishPack paths published).2.1
  | publishVerified before digest files paths pack verified outcome objects published ih =>
    exact (ih.publishVerified paths verified published).2.1
  | prepare before data filled objects published blobs packs manifests ih =>
    exact (ih.gains (publishBlobs_gains ih.blobs published)).congr blobs packs manifests
  | commit before prep accepted ih =>
    obtain ⟨hblobs, hpacks, hmanifests⟩ := Commits.objects accepted
    exact ih.congr hblobs hpacks hmanifests
  | prune before machine request plan planned count objects removed stops ih =>
    rw [removeEntries_ok removed]
    exact ih.prune planned stops

/-- A prune that stops inside a pack leaves a manifest that cannot be loaded. -/
theorem PackSound.stop_breaks (h : PackSound packCodec.toPackCodec state.objects) {count : Nat}
    (hstop : StopsInsidePack state.objects plan count) :
    ¬ PublishedLoads packCodec
      (state.objects.unlinkAll ((removals state.objects plan).take count)) := by
  obtain ⟨digest, member, hmember, hplanned, hleft, hremoved⟩ := hstop
  obtain ⟨-, hstored⟩ := mem_removals.1 hplanned
  obtain ⟨file, hfile⟩ := mem_keys.1 hstored
  obtain ⟨files, hpack, rfl, -⟩ := h.manifests digest file hfile
  rw [storedMembers_of_get? hfile] at hmember
  obtain ⟨found, hfound, rfl⟩ := mem_map.1 hmember
  have hmanif : (state.objects.unlinkAll
      ((removals state.objects plan).take count)).packManifests.get? digest =
        some (publishedFile (.canonical ((sortFiles files).map packMember))) :=
    Eq.trans (@unlinkAll_same (.packManifest digest) _ state.objects hleft) hfile
  have hmiss : (state.objects.unlinkAll
      ((removals state.objects plan).take count)).blobs.get? found.bytes.hash = none :=
    @unlinkAll_lacks (.blob found.bytes.hash) _ state.objects (.inr hremoved)
  have hlegacy : ∀ other, (state.objects.unlinkAll
      ((removals state.objects plan).take count)).packs.get? other = none :=
    fun other => @unlinkAll_lacks (.pack other) _ state.objects (.inl (h.packs other))
  intro hloads
  have hreused := hpack.publish_reused hlegacy hmanif
  exact PackSound.load_missing (mem_sortFiles.1 hfound) hmiss hmanif _
    (hloads.1 digest files _ _ hpack.paths hreused)

/-- **When published packs load**: in every run whose prunes never stop inside a pack, and only
there. -/
theorem published_pack_loads_iff (hfree : Function.Injective packCodec.contentDigest) :
    (∀ state, CleanRun codec packCodec state → PublishedLoads packCodec state.objects) ∧
      ∀ state machine request plan count objects, CleanRun codec packCodec state →
        planPrune codec machine state request = .ok plan →
        ((removals state.objects plan).take count).foldlM (removeEntry codec) state.objects =
          .ok objects →
        (PublishedLoads packCodec objects ↔ ¬ StopsInsidePack state.objects plan count) := by
  constructor
  · intro state hrun
    exact hrun.sound.publishedLoads hfree
  · intro state machine request plan count objects hrun hplan hremoved
    rw [removeEntries_ok hremoved]
    constructor
    · intro hloads hstop
      exact hrun.sound.stop_breaks hstop hloads
    · intro hstop
      exact (hrun.sound.prune hplan hstop).publishedLoads hfree

end Prunes

/-! ## 8. A small store -/

def fileCode (file : PackFile) : List Nat × Nat × Nat :=
  (file.path.map Char.toNat, file.bytes.hash.value, file.bytes.byteLen)

theorem fileCode_injective : Function.Injective fileCode := by
  rintro ⟨path, ⟨hash⟩, length⟩ ⟨path', ⟨hash'⟩, length'⟩ h
  simp only [fileCode, Prod.mk.injEq] at h
  obtain ⟨hpath, rfl, rfl⟩ := h
  have hsame : path = path' := map_injective_iff.2 (fun _ _ => Char.toNat_inj.1) hpath
  rw [hsame]

/-- Digests that number the files. -/
def countingPackCodec : PackObjectCodec where
  contentDigest files := ⟨Encodable.encode (files.map fileCode)⟩
  decodePack _ := none
  objectFiles _ := none

theorem countingPackCodec_injective : Function.Injective countingPackCodec.contentDigest := by
  intro left right h
  have hcodes := Encodable.encode_injective (congrArg Digest.value h)
  exact map_injective_iff.2 fileCode_injective hcodes

def smallPack : List PackFile := [⟨packManifestFile, ⟨⟨5⟩, 3⟩⟩, ⟨['n'], ⟨⟨6⟩, 1⟩⟩]

def smallMembers : List PackMember := [⟨packManifestFile, ⟨5⟩, 3⟩, ⟨['n'], ⟨6⟩, 1⟩]

def smallDigest : Digest := countingPackCodec.contentDigest smallPack

theorem smallPack_paths : ∀ file ∈ smallPack, packPathShape file.path = true := by
  decide

theorem smallPack_run : ∃ store plan objects last,
    publishPack countingPackCodec .empty smallDigest smallPack = .ok (.published, store) ∧
      storedMembers store smallDigest = smallMembers ∧
      planPrune sampleCodec sampleMachine ⟨store, .empty⟩ .sweep = .ok plan ∧
      removals store plan = [.blob ⟨5⟩, .blob ⟨6⟩, .packManifest smallDigest] ∧
      ((removals store plan).take 1).foldlM (removeEntry sampleCodec) store = .ok objects ∧
      ((removals store plan).take 3).foldlM (removeEntry sampleCodec) store = .ok last := by
  have hcheck : okAnd (publishPack countingPackCodec .empty smallDigest smallPack)
      (fun first => first.1 = .published && storedMembers first.2 smallDigest = smallMembers &&
        okAnd (planPrune sampleCodec sampleMachine ⟨first.2, .empty⟩ .sweep) fun plan =>
          removals first.2 plan = [.blob ⟨5⟩, .blob ⟨6⟩, .packManifest smallDigest] &&
            [1, 3].all fun count => okAnd
              (((removals first.2 plan).take count).foldlM (removeEntry sampleCodec) first.2)
                fun _ => true) = true := by
    decide +kernel
  obtain ⟨⟨outcome, store⟩, hpublish, hrest⟩ := okAnd_iff.1 hcheck
  simp only [Bool.and_eq_true, decide_eq_true_eq] at hrest
  obtain ⟨⟨rfl, hmembers⟩, hprune⟩ := hrest
  obtain ⟨plan, hplan, hrest⟩ := okAnd_iff.1 hprune
  simp only [Bool.and_eq_true, decide_eq_true_eq, List.all_cons] at hrest
  obtain ⟨hremovals, hfirst, hall, -⟩ := hrest
  obtain ⟨objects, hobjects, -⟩ := okAnd_iff.1 hfirst
  obtain ⟨last, hlast, -⟩ := okAnd_iff.1 hall
  exact ⟨store, plan, objects, last, hpublish, hmembers, hplan, hremovals, hobjects, hlast⟩

theorem smallPack_published {allowed : ObjectStore → PrunePlan → Nat → Prop}
    (h : publishPack countingPackCodec .empty smallDigest smallPack = .ok (.published, store)) :
    PackRun sampleCodec countingPackCodec allowed ⟨store, .empty⟩ := by
  have hinit : PackRun sampleCodec countingPackCodec allowed ⟨.empty, .empty⟩ :=
    .initial rfl rfl rfl
  exact .publish hinit _ _ smallPack_paths _ _ h

/-- The small pack loads after its publication, and again after a whole prune. -/
theorem published_pack_loads_iff_sample : ∃ (state : StoreState) (last : ObjectStore),
    CleanRun sampleCodec countingPackCodec state ∧
      storedMembers state.objects smallDigest = smallMembers ∧
      PublishedLoads countingPackCodec state.objects ∧
      CleanRun sampleCodec countingPackCodec ⟨last, state.catalog⟩ ∧
      PublishedLoads countingPackCodec last := by
  obtain ⟨store, plan, -, last, hpublish, hmembers, hplan, hremovals, -, hlast⟩ := smallPack_run
  have hrun : CleanRun sampleCodec countingPackCodec ⟨store, .empty⟩ :=
    smallPack_published hpublish
  have hwhole : ¬ StopsInsidePack store plan 3 := by
    rintro ⟨digest, member, -, hplanned, hleft, -⟩
    rw [take_of_length_le (by rw [hremovals]; rfl)] at hleft
    exact hleft hplanned
  have hiff := @published_pack_loads_iff sampleCodec countingPackCodec countingPackCodec_injective
  exact ⟨_, last, hrun, hmembers, hiff.1 _ hrun, .prune hrun _ _ plan hplan 3 last hlast hwhole,
    (hiff.2 _ _ _ _ _ _ hrun hplan hlast).2 hwhole⟩

/-- After one removal of a crashed prune, the pack counts as published and cannot be loaded. -/
theorem crashed_prune_breaks_pack :
    ¬ ∀ (codec : ObjectCodec) (packCodec : PackObjectCodec) (state : StoreState),
      Function.Injective packCodec.contentDigest →
      PackRun codec packCodec (fun _ _ _ => True) state →
        PublishedLoads packCodec state.objects := by
  intro h
  obtain ⟨store, plan, objects, -, hpublish, hmembers, hplan, hremovals, hobjects, -⟩ :=
    smallPack_run
  have hclean : CleanRun sampleCodec countingPackCodec ⟨store, .empty⟩ :=
    smallPack_published hpublish
  have hrun : PackRun sampleCodec countingPackCodec (fun _ _ _ => True) ⟨objects, .empty⟩ :=
    .prune (smallPack_published hpublish) sampleMachine .sweep plan hplan 1 objects hobjects trivial
  have hloads := h sampleCodec countingPackCodec _ countingPackCodec_injective hrun
  rw [removeEntries_ok hobjects] at hloads
  refine hclean.sound.stop_breaks ?_ hloads
  refine ⟨smallDigest, ⟨packManifestFile, ⟨5⟩, 3⟩, ?_, ?_, ?_, ?_⟩
  · rw [hmembers]
    exact mem_cons_self
  · rw [hremovals]
    simp
  · rw [hremovals]
    simp
  · rw [hremovals]
    exact mem_cons_self

end Malm.Pack
