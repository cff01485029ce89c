/-
Malm.Commit.RetentionTheorems — what a prune retains.

`Retains` is the closure of a set of roots under the references of stored records. The plan
of a prune keeps the closure of the roots it collects (`planPrune_keeps`), so the closure of
any smaller set of roots is safe as well.
-/
import Malm.Commit.Retention
import Malm.Commit.CanonicalTheorems
import Malm.Commit.LineageTheorems

namespace Malm.Commit

open Store Checks List SortedMap

variable {record : PreparedRecord}

variable {codec : ObjectCodec} {machine : Machine}

variable {records : List PreparedRecord}

variable {bytes total : Nat} {plan : PrunePlan}

/-! ## 1. Loaded areas -/

theorem chargeRetentionBytes_ok {r : Nat} :
    chargeRetentionBytes total bytes = .ok r ↔
      total + bytes ≤ maxRetentionDecodedBytes ∧ r = total + bytes := by
  unfold chargeRetentionBytes
  split
  · rename_i h
    simp only [reduceCtorEq, false_iff, not_and]
    omega
  · rename_i h
    rw [Except.ok.injEq]
    omega

/-- A file of an area that reads and decodes. -/
def DecodesTo {κ α β : Type} (sizeOf : α → Nat) (limit : Nat)
    (decode : κ → α → Except CommitError β) (key : κ) (file : StoreFile α) (value : β) : Prop :=
  ∃ bytes, file = ⟨true, true, true, bytes⟩ ∧ sizeOf bytes ≤ limit ∧ decode key bytes = .ok value

variable {κ α β : Type} {sizeOf : α → Nat} {limit : Nat} {decode : κ → α → Except CommitError β}

section Area

variable [LinearOrder κ]

theorem loadAreaEntry_ok {state after : SortedMap κ β × Nat} {entry : κ × StoreFile α}
    (h : loadAreaEntry sizeOf limit decode state entry = .ok after) :
    ∃ v, DecodesTo sizeOf limit decode entry.1 entry.2 v ∧
      state.2 + sizeOf entry.2.bytes ≤ maxRetentionDecodedBytes ∧
      after = (state.1.insert entry.1 v, state.2 + sizeOf entry.2.bytes) := by
  unfold loadAreaEntry at h
  simp only [bind_ok, require_ok, pure_ok, chargeRetentionBytes_ok] at h
  obtain ⟨found, hread, bytes, rfl, total, ⟨hbound, rfl⟩, v, hdecode, rfl⟩ := h
  obtain ⟨hfile, hsize⟩ := readImmutable_ok hread
  rw [Option.some.injEq] at hfile
  refine ⟨v, ⟨bytes, hfile, hsize, hdecode⟩, ?_, ?_⟩
  · rw [hfile]
    exact hbound
  · rw [hfile]

theorem loadAreaEntries_ok : ∀ {es : List (κ × StoreFile α)} {map r : SortedMap κ β}
    {total spent : Nat}, (es.map Prod.fst).Nodup →
      es.foldlM (loadAreaEntry sizeOf limit decode) (map, total) = .ok (r, spent) →
      (∀ entry ∈ es, ∃ v, DecodesTo sizeOf limit decode entry.1 entry.2 v ∧
        r.get? entry.1 = some v) ∧
      (∀ key, key ∉ es.map Prod.fst → r.get? key = map.get? key) ∧
      spent = total + (es.map fun entry => sizeOf entry.2.bytes).sum
  | [], map, r, total, spent, _, h => by
    rw [foldlM_nil, pure_ok] at h
    cases h
    exact ⟨by simp, fun _ _ => rfl, rfl⟩
  | entry :: es, map, r, total, spent, hnodup, h => by
    rw [foldlM_cons, bind_ok] at h
    obtain ⟨mid, hentry, hrest⟩ := h
    rw [map_cons, nodup_cons] at hnodup
    obtain ⟨v, hdecodes, -, rfl⟩ := loadAreaEntry_ok hentry
    obtain ⟨hall, hkeep, hspent⟩ := loadAreaEntries_ok hnodup.2 hrest
    refine ⟨?_, ?_, ?_⟩
    · intro other hother
      rcases mem_cons.1 hother with rfl | hother
      · exact ⟨v, hdecodes, by rw [hkeep _ hnodup.1]; simp⟩
      · exact hall other hother
    · intro key hkey
      rw [map_cons, mem_cons, not_or] at hkey
      rw [hkeep key hkey.2]
      simp [hkey.1]
    · rw [hspent, map_cons, sum_cons]
      omega

/-- **A loaded area** holds exactly the decoded values of its files. -/
theorem loadArea_ok {area : SortedMap κ (StoreFile α)} {r : SortedMap κ β} {spent : Nat}
    (h : loadArea sizeOf limit decode area total = .ok (r, spent)) :
    (∀ key file, area.get? key = some file →
      ∃ v, DecodesTo sizeOf limit decode key file v ∧ r.get? key = some v) ∧
    ∀ key, area.get? key = none → r.get? key = none := by
  unfold loadArea at h
  rw [bind_unit_ok] at h
  obtain ⟨-, h⟩ := h
  obtain ⟨hall, hkeep, -⟩ := loadAreaEntries_ok area.nodup_keys h
  refine ⟨?_, ?_⟩
  · intro key file hget
    exact hall (key, file) (get?_eq_some.1 hget)
  · intro key hnone
    rw [hkeep key (get?_eq_none.1 hnone)]
    rfl

end Area

/-! ## 2. Roots and references -/

/-- A generation with the records kept behind it, or one object. -/
inductive Root where
  | generation (digest : Digest) (limit : Nat)
  | plan (planId : PreparedId)
  | blob (digest : Digest)
  | pack (digest : Digest)
  | file (digest : Digest)
  | symlink (digest : Digest)
  | tree (digest : Digest)
deriving DecidableEq, Repr

def pinRoot : RetentionObject → Root
  | .preparedPlan planId => .plan planId
  | .stateGeneration digest => .generation digest 1
  | .artifactBlob digest => .blob digest
  | .packObject digest => .pack digest
  | .canonicalFile digest => .file digest
  | .canonicalSymlink digest => .symlink digest
  | .canonicalTree digest => .tree digest

/-- The selected restore point of a record, and the points and pins of its authority. -/
def recordRoots (restorePoint : Option RestorePoint) (authority : RetentionAuthority) : List Root :=
  (restorePoint.toList ++ authority.restorePoints).map
      (fun point => .generation point.generation 1) ++
    authority.explicitPins.map pinRoot

/-- Each selected generation through its history bound, and what its record names. -/
def HeadRoot (codec : ObjectCodec) (state : StoreState) (root : Root) : Prop :=
  ∃ head ∈ state.catalog.heads, ∃ gen,
    loadGeneration codec state.objects head.generation = .ok gen ∧
      (root = .generation head.generation gen.retention.history ∨
        root ∈ recordRoots gen.restorePoint gen.retention)

/-- The roots of the plans that a request does not name. -/
def PlanRoot (codec : ObjectCodec) (store : ObjectStore) (named : List PreparedId)
    (root : Root) : Prop :=
  ∃ planId record, loadPrepared codec store planId = .ok record ∧ planId ∉ named ∧
    root ∈ recordRoots record.restorePoint record.retention

def storedMembers (store : ObjectStore) (digest : Digest) : List PackMember :=
  match store.packManifests.get? digest with
  | some ⟨_, _, _, .canonical members⟩ => members
  | _ => []

/-- The tree objects that a snapshot and a tracked root name. -/
def snapshotTrees (snapshot : DesiredSnapshot) (trackedRoot : Option TrackedRoot) : List Digest :=
  stateTreeRoots (snapshotStates snapshot) ++
    (trackedRoot.map TrackedRoot.rootTreeDigest).toList

/-- **The closure of some roots.** `kept` are plans that stay although nothing
refers to them. -/
inductive Retains (codec : ObjectCodec) (store : ObjectStore) (roots : Root → Prop)
    (kept : PreparedId → Prop) : StoreEntry → Prop
  | lineage {digest found : Digest} {limit : Nat} (root : roots (.generation digest limit))
      (mem : found ∈ chain store limit digest) : Retains codec store roots kept (.generation found)
  | pinnedPlan {planId : PreparedId} (root : roots (.plan planId)) :
      Retains codec store roots kept (.plan planId)
  | keptPlan {planId : PreparedId} (keep : kept planId) :
      Retains codec store roots kept (.plan planId)
  | source {digest : Digest} {generation : StateGeneration}
      (above : Retains codec store roots kept (.generation digest))
      (loads : loadGeneration codec store digest = .ok generation) :
      Retains codec store roots kept (.plan generation.planId)
  | pinnedBlob {digest : Digest} (root : roots (.blob digest)) :
      Retains codec store roots kept (.blob digest)
  | generationArtifact {digest : Digest} {generation : StateGeneration} {artifact : StateArtifact}
      (above : Retains codec store roots kept (.generation digest))
      (loads : loadGeneration codec store digest = .ok generation)
      (mem : artifact ∈ generation.artifacts) : Retains codec store roots kept (.blob artifact.digest)
  | generationFile {digest : Digest} {generation : StateGeneration} {file : Digest × Nat}
      (above : Retains codec store roots kept (.generation digest))
      (loads : loadGeneration codec store digest = .ok generation)
      (mem : file ∈ snapshotFiles generation.desiredSnapshot) :
      Retains codec store roots kept (.blob file.1)
  | planArtifact {planId : PreparedId} {record : PreparedRecord} {artifact : PreparedArtifact}
      (above : Retains codec store roots kept (.plan planId))
      (loads : loadPrepared codec store planId = .ok record) (mem : artifact ∈ record.artifacts) :
      Retains codec store roots kept (.blob artifact.digest)
  | pinnedPack {digest : Digest} (root : roots (.pack digest)) :
      Retains codec store roots kept (.pack digest)
  | planPack {planId : PreparedId} {record : PreparedRecord} {digest : Digest}
      (above : Retains codec store roots kept (.plan planId))
      (loads : loadPrepared codec store planId = .ok record)
      (mem : digest ∈ recordPackRoots record) : Retains codec store roots kept (.pack digest)
  | manifest {digest : Digest} (above : Retains codec store roots kept (.pack digest)) :
      Retains codec store roots kept (.packManifest digest)
  | member {digest : Digest} {member : PackMember}
      (above : Retains codec store roots kept (.packManifest digest))
      (mem : member ∈ storedMembers store digest) :
      Retains codec store roots kept (.blob member.blob)
  | pinnedFile {digest : Digest} (root : roots (.file digest)) :
      Retains codec store roots kept (.file digest)
  | pinnedSymlink {digest : Digest} (root : roots (.symlink digest)) :
      Retains codec store roots kept (.symlink digest)
  | pinnedTree {digest : Digest} (root : roots (.tree digest)) :
      Retains codec store roots kept (.tree digest)
  | generationTree {digest tree : Digest} {generation : StateGeneration}
      (above : Retains codec store roots kept (.generation digest))
      (loads : loadGeneration codec store digest = .ok generation)
      (mem : tree ∈ snapshotTrees generation.desiredSnapshot generation.trackedRoot) :
      Retains codec store roots kept (.tree tree)
  | generationSymlink {digest link : Digest} {generation : StateGeneration}
      (above : Retains codec store roots kept (.generation digest))
      (loads : loadGeneration codec store digest = .ok generation)
      (mem : link ∈ stateSymlinks (snapshotStates generation.desiredSnapshot)) :
      Retains codec store roots kept (.symlink link)
  | planTree {planId : PreparedId} {record : PreparedRecord} {tree : Digest}
      (above : Retains codec store roots kept (.plan planId))
      (loads : loadPrepared codec store planId = .ok record)
      (mem : tree ∈ snapshotTrees record.desiredSnapshot record.trackedRoot) :
      Retains codec store roots kept (.tree tree)
  | planSymlink {planId : PreparedId} {record : PreparedRecord} {link : Digest}
      (above : Retains codec store roots kept (.plan planId))
      (loads : loadPrepared codec store planId = .ok record)
      (mem : link ∈ stateSymlinks (snapshotStates record.desiredSnapshot)) :
      Retains codec store roots kept (.symlink link)
  | treeFile {digest file : Digest} {tree : TreeObject} {entry : TreeEntry} {bytes byteLen : Nat}
      (above : Retains codec store roots kept (.tree digest))
      (stored : storedTree codec store digest = some (tree, bytes)) (mem : entry ∈ tree.entries)
      (kind : entry.kind = .file file byteLen) : Retains codec store roots kept (.file file)
  | treeDirectory {digest child : Digest} {tree : TreeObject} {entry : TreeEntry} {bytes : Nat}
      (above : Retains codec store roots kept (.tree digest))
      (stored : storedTree codec store digest = some (tree, bytes)) (mem : entry ∈ tree.entries)
      (kind : entry.kind = .directory child) : Retains codec store roots kept (.tree child)
  | treeSymlink {digest link : Digest} {tree : TreeObject} {entry : TreeEntry} {bytes : Nat}
      (above : Retains codec store roots kept (.tree digest))
      (stored : storedTree codec store digest = some (tree, bytes)) (mem : entry ∈ tree.entries)
      (kind : entry.kind = .symlink link) : Retains codec store roots kept (.symlink link)

variable {store : ObjectStore} {digest : Digest} {gen : StateGeneration} {spent : Nat}
  {generations : SortedMap Digest StateGeneration} {request : PruneRequest} {loaded : LoadedStore}
  {retained : RetainedClosure} {root : Root} {after : RetainedClosure} {state : StoreState}

theorem Retains.head {roots : Root → Prop} {kept : PreparedId → Prop}
    (hload : loadGeneration codec store digest = .ok gen)
    (hroot : roots (.generation digest gen.retention.history)) :
    Retains codec store roots kept (.generation digest) := by
  refine .lineage hroot ?_
  obtain ⟨left, hleft⟩ := Nat.exists_eq_add_of_le' (history_pos hload)
  rw [hleft]
  exact self_mem_chain store left digest

def PruneRoot (codec : ObjectCodec) (state : StoreState) (request : PruneRequest)
    (root : Root) : Prop :=
  HeadRoot codec state root ∨ PlanRoot codec state.objects request.planIds root

/-- The plans a request leaves alone. -/
def Unswept (codec : ObjectCodec) (store : ObjectStore) (request : PruneRequest)
    (planId : PreparedId) : Prop :=
  request.sweepUnreferenced = false ∧ planId ∉ request.planIds ∧
    ∃ record, loadPrepared codec store planId = .ok record

/-! ## 3. The loaded store -/

theorem readImmutable_iff {file : Option (StoreFile α)} {bytes : α} :
    readImmutable sizeOf limit file = .ok (some bytes) ↔
      file = some ⟨true, true, true, bytes⟩ ∧ sizeOf bytes ≤ limit := by
  constructor
  · exact readImmutable_ok
  · rintro ⟨rfl, hsize⟩
    simp [readImmutable, not_lt.2 hsize]

theorem storedObject_iff {decode : α → Except CanonicalObjectIssue β}
    {file : Option (StoreFile α)} {value : β} {size : Nat} :
    storedObject sizeOf limit decode file = some (value, size) ↔
      ∃ bytes, file = some ⟨true, true, true, bytes⟩ ∧ sizeOf bytes ≤ limit ∧
        decode bytes = .ok value ∧ sizeOf bytes = size := by
  have hread : ∀ bytes, readCanonicalObject sizeOf limit file = .ok bytes ↔
      file = some ⟨true, true, true, bytes⟩ ∧ sizeOf bytes ≤ limit := by
    intro bytes
    rw [← readImmutable_iff, readCanonicalObject, bind_ok]
    simp only [require_ok, exists_eq_right]
  constructor
  · intro h
    unfold storedObject at h
    split at h
    · cases h
    · rename_i bytes hbytes
      obtain ⟨hfile, hsize⟩ := (hread bytes).1 hbytes
      split at h
      · cases h
      · rename_i found hdecode
        cases h
        exact ⟨bytes, hfile, hsize, hdecode, rfl⟩
  · rintro ⟨bytes, hfile, hsize, hdecode, rfl⟩
    unfold storedObject
    rw [(hread bytes).2 ⟨hfile, hsize⟩]
    dsimp only
    rw [hdecode]

theorem loads_iff_decodesTo (decode : κ → α → Except CommitError β) {key : κ}
    {stored : Option (StoreFile α)} {value : β} :
    (∃ loaded : β × Nat, (∃ found, readImmutable sizeOf limit stored = .ok found ∧
        ∃ bytes, found = some bytes ∧ ∃ decoded, decode key bytes = .ok decoded ∧
          (decoded, sizeOf bytes) = loaded) ∧ loaded.1 = value) ↔
      ∃ file, stored = some file ∧ DecodesTo sizeOf limit decode key file value := by
  unfold DecodesTo
  constructor
  · rintro ⟨loaded, ⟨found, hread, bytes, rfl, decoded, hdecode, rfl⟩, rfl⟩
    obtain ⟨hfile, hsize⟩ := readImmutable_ok hread
    exact ⟨_, hfile, bytes, rfl, hsize, hdecode⟩
  · rintro ⟨file, hfile, bytes, rfl, hsize, hdecode⟩
    exact ⟨(value, _), ⟨some bytes, readImmutable_iff.2 ⟨hfile, hsize⟩, bytes, rfl, value, hdecode,
      rfl⟩, rfl⟩

theorem loadPrepared_iff_decodes {planId : PreparedId} :
    loadPrepared codec store planId = .ok record ↔
      ∃ file, store.prepared.get? planId = some file ∧
        DecodesTo (Encoded.byteLen codec.preparedBytes) maxPreparedRecordBytes
          (decodePreparedRecord codec) planId file record := by
  unfold loadPrepared loadPreparedWithEncodedLen
  simp only [bind_ok, require_ok, pure_ok]
  exact loads_iff_decodesTo (decodePreparedRecord codec)

theorem loadGeneration_iff_decodes :
    loadGeneration codec store digest = .ok gen ↔
      ∃ file, store.generations.get? digest = some file ∧
        DecodesTo (Encoded.byteLen codec.generationBytes) maxStateRecordBytes
          (fun digest bytes => asInvalidStore (decodeStateGeneration codec digest bytes))
          digest file gen := by
  unfold loadGeneration loadGenerationWithEncodedLen
  simp only [bind_ok, require_ok, pure_ok]
  exact loads_iff_decodesTo fun digest bytes =>
    asInvalidStore (decodeStateGeneration codec digest bytes)

structure LoadedFrom (codec : ObjectCodec) (store : ObjectStore) (loaded : LoadedStore) :
    Prop where
  plans : ∀ planId record, loaded.prepared.get? planId = some record ↔
    loadPrepared codec store planId = .ok record
  generations : ∀ digest gen, loaded.generations.get? digest = some gen ↔
    loadGeneration codec store digest = .ok gen
  planKeys : ∀ planId, planId ∈ loaded.prepared.keys ↔ planId ∈ store.prepared.keys
  generationKeys : ∀ digest, digest ∈ loaded.generations.keys ↔ digest ∈ store.generations.keys
  artifacts : ∀ planId record, loadPrepared codec store planId = .ok record →
    ∀ artifact ∈ record.artifacts, verifyBlob store artifact.digest = .ok artifact.byteLen
  sources : ∀ digest gen, loadGeneration codec store digest = .ok gen →
    ∃ record, loadPrepared codec store gen.planId = .ok record ∧
      gen = generationOf gen.planId gen.previousGeneration record

section

variable [LinearOrder κ] {area : SortedMap κ (StoreFile α)} {r : SortedMap κ β}
  (h : loadArea sizeOf limit decode area total = .ok (r, spent)) (key : κ)

include h key

theorem loadArea_get? (value : β) :
    r.get? key = some value ↔
      ∃ file, area.get? key = some file ∧ DecodesTo sizeOf limit decode key file value := by
  obtain ⟨hall, hnone⟩ := loadArea_ok h
  cases hfile : area.get? key with
  | none => simp [hnone key hfile]
  | some file =>
    obtain ⟨known, hdecodes, hknown⟩ := hall key file hfile
    simp only [hknown, Option.some.injEq, exists_eq_left']
    constructor
    · rintro rfl
      exact hdecodes
    · intro hother
      obtain ⟨bytes, rfl, -, hvalue⟩ := hdecodes
      obtain ⟨other, hsame, -, hother⟩ := hother
      cases hsame
      rw [hvalue] at hother
      exact Except.ok.inj hother

theorem loadArea_keys : key ∈ r.keys ↔ key ∈ area.keys := by
  obtain ⟨hall, hnone⟩ := loadArea_ok h
  rw [SortedMap.mem_keys, SortedMap.mem_keys]
  constructor
  · rintro ⟨v, hvalue⟩
    obtain ⟨file, hfile, -⟩ := (loadArea_get? h key v).1 hvalue
    exact ⟨file, hfile⟩
  · rintro ⟨file, hfile⟩
    obtain ⟨v, -, hvalue⟩ := hall key file hfile
    exact ⟨v, hvalue⟩

end

theorem verifyGenerationTransition_ok {prep : SortedMap PreparedId PreparedRecord}
    (h : verifyGenerationTransition codec prep generations gen = .ok ()) :
    ∃ record, prep.get? gen.planId = some record ∧
      gen = generationOf gen.planId gen.previousGeneration record := by
  unfold verifyGenerationTransition at h
  simp only [bind_ok, require_ok, reject_ok, asInvalidStore, mapError_ok, not_not] at h
  obtain ⟨record, hrec, rebuilt, hrebuilt, rfl⟩ := h
  refine ⟨record, hrec, ?_⟩
  split at hrebuilt
  · simp only [fromRetainedPrepared, bind_ok, exists_unit, pure_ok] at hrebuilt
    obtain ⟨-, -, -, -, -, -, hrebuilt⟩ := hrebuilt
    exact hrebuilt.symm
  · exact (fromPrepared_ok hrebuilt).1

theorem loadWholeStore_ok (h : loadWholeStore codec store request = .ok loaded) :
    LoadedFrom codec store loaded ∧ ∀ planId ∈ request.planIds, planId ∈ store.prepared.keys := by
  unfold loadWholeStore at h
  simp only [bind_ok, exists_unit, pure_ok, forM_ok, reject_ok,
    Bool.not_eq_false, Prod.exists, verifyPreparedArtifacts, not_not] at h
  obtain ⟨prep, bytes, hprep, hnamed, hartifacts, generations, decoded, hgens,
    hsources, objects, budget, -, rfl⟩ := h
  have hplans : ∀ planId record, prep.get? planId = some record ↔
      loadPrepared codec store planId = .ok record := by
    intro planId record
    rw [loadPrepared_iff_decodes]
    exact loadArea_get? hprep planId record
  have hall : ∀ digest gen, generations.get? digest = some gen ↔
      loadGeneration codec store digest = .ok gen := by
    intro digest gen
    rw [loadGeneration_iff_decodes]
    exact loadArea_get? hgens digest gen
  refine ⟨⟨hplans, hall, loadArea_keys hprep, loadArea_keys hgens, ?_, ?_⟩, ?_⟩
  · intro planId record hload art hartifact
    obtain ⟨length, hlen, rfl⟩ := hartifacts (planId, record)
      (get?_eq_some.1 ((hplans planId record).2 hload)) art hartifact
    exact hlen
  · intro digest gen hload
    obtain ⟨record, hrec, hsame⟩ := verifyGenerationTransition_ok (hsources (digest, gen)
      (get?_eq_some.1 ((hall digest gen).2 hload)))
    exact ⟨record, (hplans _ _).1 hrec, hsame⟩
  · intro planId hplanId
    exact (loadArea_keys hprep planId).1 (contains_iff.1 (hnamed planId hplanId))

/-! ## 4. The collected roots -/

def RetainedClosure.Holds (retained : RetainedClosure) : Root → Prop
  | .generation digest limit => (digest, limit) ∈ retained.generationRoots
  | .plan planId => planId ∈ retained.planIds
  | .blob digest => digest ∈ retained.blobs
  | .pack digest => digest ∈ retained.packs
  | .file digest => digest ∈ retained.pinnedFiles
  | .symlink digest => digest ∈ retained.pinnedSymlinks
  | .tree digest => digest ∈ retained.pinnedTrees

theorem RetainedClosure.empty_holds (root : Root) : ¬ RetainedClosure.empty.Holds root := by
  cases root <;> simp [RetainedClosure.empty, RetainedClosure.Holds]

theorem collectPin_holds {pin : RetentionObject} :
    (collectPin retained pin).Holds root ↔ retained.Holds root ∨ root = pinRoot pin := by
  cases pin <;> cases root <;>
    simp [collectPin, pinRoot, RetainedClosure.Holds, or_comm]

theorem collectPins_holds : ∀ {pins : List RetentionObject}
    {retained : RetainedClosure}, (pins.foldl collectPin retained).Holds root ↔
      retained.Holds root ∨ root ∈ pins.map pinRoot
  | [], retained => by simp
  | pin :: pins, retained => by
    rw [foldl_cons, collectPins_holds, collectPin_holds, map_cons, mem_cons, or_assoc]

theorem collectRestorePointRoot_ok {point : RestorePoint}
    (h : collectRestorePointRoot generations retained point = .ok after) (root : Root) :
    after.Holds root ↔ retained.Holds root ∨ root = .generation point.generation 1 := by
  unfold collectRestorePointRoot at h
  simp only [bind_ok, exists_unit, pure_ok] at h
  obtain ⟨gen, -, -, rfl⟩ := h
  cases root <;> simp [RetainedClosure.Holds]

theorem collectRestorePointRoots_ok :
    ∀ {points : List RestorePoint} {retained after : RetainedClosure},
      points.foldlM (collectRestorePointRoot generations) retained = .ok after →
        (after.Holds root ↔ retained.Holds root ∨
          root ∈ points.map fun point => .generation point.generation 1)
  | [], retained, after, h => by
    rw [foldlM_nil, pure_ok] at h
    simp [h]
  | point :: points, retained, after, h => by
    rw [foldlM_cons, bind_ok] at h
    obtain ⟨mid, hpoint, hrest⟩ := h
    rw [collectRestorePointRoots_ok hrest, collectRestorePointRoot_ok hpoint, map_cons,
      mem_cons, or_assoc]

theorem collectRecordRoots_ok {restorePoint : Option RestorePoint}
    {auth : RetentionAuthority}
    (h : collectRecordRoots generations restorePoint auth retained = .ok after)
    (root : Root) :
    after.Holds root ↔ retained.Holds root ∨ root ∈ recordRoots restorePoint auth := by
  unfold collectRecordRoots at h
  rw [bind_ok] at h
  obtain ⟨mid, hpoints, hpins⟩ := h
  rw [pure_ok] at hpins
  subst hpins
  rw [collectPins_holds, collectRestorePointRoots_ok hpoints, recordRoots, mem_append, or_assoc]

theorem collectAll_ok {collect : RetainedClosure → α → Except CommitError RetainedClosure}
    (adds : α → Prop) :
    ∀ {es : List α} {retained after : RetainedClosure},
      es.foldlM collect retained = .ok after →
      (∀ retained e after, collect retained e = .ok after →
        (after.Holds root ↔ retained.Holds root ∨ adds e)) →
      (after.Holds root ↔ retained.Holds root ∨ ∃ e ∈ es, adds e)
  | [], retained, after, h, _ => by
    rw [foldlM_nil, pure_ok] at h
    simp [h]
  | e :: es, retained, after, h, hstep => by
    rw [foldlM_cons, bind_ok] at h
    obtain ⟨mid, hfirst, hrest⟩ := h
    rw [collectAll_ok adds hrest hstep, hstep _ _ _ hfirst, or_assoc]
    simp

theorem collectHeadRoots_ok {head : NamespaceHead}
    (h : collectHeadRoots generations retained head = .ok after) (root : Root) :
    after.Holds root ↔ retained.Holds root ∨
      ∃ gen, generations.get? head.generation = some gen ∧
        (root = .generation head.generation gen.retention.history ∨
          root ∈ recordRoots gen.restorePoint gen.retention) := by
  unfold collectHeadRoots at h
  simp only [bind_ok, require_ok] at h
  obtain ⟨gen, hgen, hrec⟩ := h
  rw [collectRecordRoots_ok hrec, hgen]
  simp only [Option.some.injEq, exists_eq_left', ← or_assoc]
  refine or_congr_left ?_
  cases root <;> simp [RetainedClosure.Holds]

theorem collectPlanRoots_ok {named : List PreparedId} {plan : PreparedId × PreparedRecord}
    (h : collectPlanRoots generations named retained plan = .ok after) (root : Root) :
    after.Holds root ↔ retained.Holds root ∨
      plan.1 ∉ named ∧ root ∈ recordRoots plan.2.restorePoint plan.2.retention := by
  unfold collectPlanRoots at h
  split at h
  · rename_i hnamed
    cases h
    simp [hnamed]
  · rename_i hnamed
    rw [collectRecordRoots_ok h]
    simp [hnamed]

/-- **The collected roots** are those of the heads and of the unnamed plans. -/
theorem collectRoots_ok (hloaded : LoadedFrom codec state.objects loaded)
    (h : collectRoots loaded state.catalog request = .ok retained) (root : Root) :
    retained.Holds root ↔ PruneRoot codec state request root := by
  unfold collectRoots at h
  rw [bind_ok] at h
  obtain ⟨heads, hheads, hplans⟩ := h
  rw [collectAll_ok _ hplans fun _ _ _ hstep => collectPlanRoots_ok hstep root,
    collectAll_ok _ hheads fun _ _ _ hstep => collectHeadRoots_ok hstep root]
  simp only [RetainedClosure.empty_holds, false_or, hloaded.generations, PruneRoot, HeadRoot,
    PlanRoot, Prod.exists, ← get?_eq_some, hloaded.plans]

/-! ## 5. Reachability -/

theorem retainedLineage_ok (hloaded : LoadedFrom codec store loaded) :
    ∀ {left : Nat} {start : Option Digest} {lineage r : List Digest},
      retainedLineage loaded.generations left start lineage = .ok r →
      (∀ digest, digest ∈ r ↔ digest ∈ lineage ∨
        ∃ first, start = some first ∧ digest ∈ chain store left first) ∧
      ∀ first, start = some first → ∀ digest ∈ chain store left first,
        ∃ gen, loadGeneration codec store digest = .ok gen
  | 0, start, lineage, r, h => by
    rw [retainedLineage, Except.ok.injEq] at h
    simp [h, chain]
  | left + 1, none, lineage, r, h => by
    rw [retainedLineage, Except.ok.injEq] at h
    simp [h]
  | left + 1, some first, lineage, r, h => by
    rw [retainedLineage] at h
    split at h
    · cases h
    · rw [bind_ok] at h
      obtain ⟨gen, hgen, hrest⟩ := h
      rw [require_ok, hloaded.generations] at hgen
      obtain ⟨hmem, hloads⟩ := retainedLineage_ok hloaded hrest
      have hchain : ∀ digest, digest ∈ chain store (left + 1) first ↔ digest = first ∨
          ∃ prev, gen.previousGeneration = some prev ∧
            digest ∈ chain store left prev := by
        intro digest
        rw [chain, mem_cons, predecessor_of_load hgen]
        cases gen.previousGeneration <;> simp
      refine ⟨?_, ?_⟩
      · intro digest
        simp only [hmem, mem_cons, Option.some.injEq, exists_eq_left', hchain]
        tauto
      · intro other hother digest hdigest
        cases hother
        rcases (hchain digest).1 hdigest with rfl | ⟨prev, hprev, hdigest⟩
        · exact ⟨gen, hgen⟩
        · exact hloads prev hprev digest hdigest

theorem reachRoots_ok (hloaded : LoadedFrom codec store loaded) :
    ∀ {roots : List (Digest × Nat)} {reached r : List Digest},
      roots.foldlM (reachRoot loaded.generations) reached = .ok r →
      (∀ digest, digest ∈ r ↔ digest ∈ reached ∨
        ∃ root ∈ roots, digest ∈ chain store root.2 root.1) ∧
      ∀ root ∈ roots, ∀ digest ∈ chain store root.2 root.1,
        ∃ gen, loadGeneration codec store digest = .ok gen
  | [], reached, r, h => by
    rw [foldlM_nil, pure_ok] at h
    simp [h]
  | root :: roots, reached, r, h => by
    rw [foldlM_cons, bind_ok] at h
    obtain ⟨mid, hfirst, hrest⟩ := h
    unfold reachRoot at hfirst
    simp only [bind_ok, pure_ok] at hfirst
    obtain ⟨lineage, hlineage, rfl⟩ := hfirst
    obtain ⟨hmem, hloads⟩ := retainedLineage_ok hloaded hlineage
    obtain ⟨hall, hrestLoads⟩ := reachRoots_ok hloaded hrest
    refine ⟨?_, ?_⟩
    · intro digest
      simp only [hall, mem_append, hmem, not_mem_nil, false_or, Option.some.injEq,
        exists_eq_left', mem_cons, exists_eq_or_imp]
      tauto
    · intro other hother
      rcases mem_cons.1 hother with rfl | hother
      · exact hloads _ rfl
      · exact hrestLoads other hother

theorem mem_addSnapshotFile {files : List (Digest × Nat)} {t : StateTarget} :
    (∃ file ∈ addSnapshotFile files t, file.1 = digest) ↔
      (∃ file ∈ files, file.1 = digest) ∨
        ∃ file, t.state = .file (some file) ∧ file.digest = digest := by
  unfold addSnapshotFile
  split
  · rename_i file hstate
    simp only [hstate, StateTargetState.file.injEq, Option.some.injEq, exists_eq_left']
    split
    · rename_i hknown
      constructor
      · exact .inl
      · rintro (hfound | rfl)
        · exact hfound
        · simpa using mem_map.1 hknown
    · simp [or_and_right, exists_or]
  · rename_i hother
    constructor
    · exact .inl
    · rintro (hfound | ⟨file, hstate, -⟩)
      · exact hfound
      · exact absurd hstate (hother file)

theorem mem_snapshotFiles {snap : DesiredSnapshot} :
    (∃ file ∈ snapshotFiles snap, file.1 = digest) ↔
      ∃ t ∈ snap.targets, ∃ file, t.state = .file (some file) ∧
        file.digest = digest := by
  have hfold : ∀ (ts : List StateTarget) (files : List (Digest × Nat)),
      (∃ file ∈ ts.foldl addSnapshotFile files, file.1 = digest) ↔
        (∃ file ∈ files, file.1 = digest) ∨
          ∃ t ∈ ts, ∃ file, t.state = .file (some file) ∧
            file.digest = digest := by
    intro ts
    induction ts with
    | nil => simp
    | cons t ts ih =>
      intro files
      rw [foldl_cons, ih, mem_addSnapshotFile, or_assoc]
      simp
  rw [snapshotFiles, hfold]
  simp

def Reaches (codec : ObjectCodec) (state : StoreState) (request : PruneRequest)
    (found : Digest) : Prop :=
  ∃ digest limit, PruneRoot codec state request (.generation digest limit) ∧
    found ∈ chain state.objects limit digest

/-- What the reachability pass leaves. -/
structure ReachedFrom (codec : ObjectCodec) (state : StoreState) (request : PruneRequest)
    (retained : RetainedClosure) (reached : List Digest) : Prop where
  reachable : ∀ digest, digest ∈ reached ↔ Reaches codec state request digest
  loads : ∀ digest ∈ reached, ∃ gen,
    loadGeneration codec state.objects digest = .ok gen
  plans : ∀ planId, planId ∈ retained.planIds ↔
    (∃ digest ∈ reached, ∃ gen,
      loadGeneration codec state.objects digest = .ok gen ∧ gen.planId = planId) ∨
    PruneRoot codec state request (.plan planId)
  blobs : ∀ blob, blob ∈ retained.blobs ↔
    (∃ digest ∈ reached, ∃ gen,
      loadGeneration codec state.objects digest = .ok gen ∧
        ((∃ artifact ∈ gen.artifacts, artifact.digest = blob) ∨
          ∃ file ∈ snapshotFiles gen.desiredSnapshot, file.1 = blob)) ∨
    PruneRoot codec state request (.blob blob)
  packs : ∀ digest, digest ∈ retained.packs ↔ PruneRoot codec state request (.pack digest)
  files : ∀ digest, digest ∈ retained.pinnedFiles ↔ PruneRoot codec state request (.file digest)
  symlinks : ∀ digest, digest ∈ retained.pinnedSymlinks ↔
    PruneRoot codec state request (.symlink digest)
  trees : ∀ digest, digest ∈ retained.pinnedTrees ↔ PruneRoot codec state request (.tree digest)
  stored : ∀ planId ∈ retained.planIds, planId ∈ state.objects.prepared.keys
  unnamed : ∀ planId ∈ request.planIds, planId ∉ retained.planIds

theorem mem_generationsOf (hloaded : LoadedFrom codec store loaded) {ds : List Digest} :
    gen ∈ generationsOf loaded.generations ds ↔
      ∃ digest ∈ ds, loadGeneration codec store digest = .ok gen := by
  simp only [generationsOf, mem_filterMap, mem_sortedSet, hloaded.generations]

/-- What a prune finds reachable is what the roots reach. -/
theorem reachRetained_ok {reachable : List Digest}
    (hloaded : LoadedFrom codec state.objects loaded)
    (h : reachRetained state.objects loaded state.catalog request = .ok (retained, reachable)) :
    ReachedFrom codec state request retained reachable := by
  unfold reachRetained at h
  simp only [bind_ok, exists_unit, pure_ok, forM_ok, reject_ok, Bool.not_eq_false] at h
  obtain ⟨roots, hroots, reached, hreached, -, hstored, hunnamed, hpair⟩ := h
  obtain ⟨rfl, rfl⟩ := Prod.mk.injEq .. ▸ hpair
  have hholds := collectRoots_ok hloaded hroots
  obtain ⟨hmem, hloads⟩ := reachRoots_ok hloaded hreached
  have hreaches : ∀ digest, digest ∈ reached ↔ Reaches codec state request digest := by
    intro digest
    simp only [hmem, not_mem_nil, false_or, Reaches, Prod.exists]
    exact exists_congr fun first => exists_congr fun limit =>
      and_congr_left fun _ => hholds (.generation first limit)
  refine ⟨hreaches, ?_, ?_, ?_, fun digest => hholds (.pack digest),
    fun digest => hholds (.file digest), fun digest => hholds (.symlink digest),
    fun digest => hholds (.tree digest), ?_, hunnamed⟩
  · intro digest hdigest
    rcases (hmem digest).1 hdigest with hdigest | ⟨root, hroot, hdigest⟩
    · cases hdigest
    · exact hloads root hroot digest hdigest
  · intro planId
    rw [← hholds (.plan planId)]
    simp only [mem_append, mem_map, mem_generationsOf hloaded, RetainedClosure.Holds]
    refine or_congr_left ?_
    constructor
    · rintro ⟨gen, ⟨digest, hdigest, hload⟩, hplan⟩
      exact ⟨digest, hdigest, gen, hload, hplan⟩
    · rintro ⟨digest, hdigest, gen, hload, hplan⟩
      exact ⟨gen, ⟨digest, hdigest, hload⟩, hplan⟩
  · intro blob
    rw [← hholds (.blob blob)]
    simp only [mem_append, mem_map, mem_flatMap, mem_filterMap,
      mem_generationsOf hloaded, RetainedClosure.Holds, mem_snapshotFiles]
    refine or_congr_left ?_
    constructor
    · rintro (⟨gen, ⟨digest, hdigest, hload⟩, art, hartifact, rfl⟩ |
        ⟨file, ⟨gen, ⟨digest, hdigest, hload⟩, t, htarget, hfile⟩, rfl⟩)
      · exact ⟨digest, hdigest, gen, hload, .inl ⟨art, hartifact, rfl⟩⟩
      · split at hfile
        · rename_i slot hstate
          cases hfile
          exact ⟨digest, hdigest, gen, hload, .inr ⟨t, htarget, slot, hstate, rfl⟩⟩
        · cases hfile
    · rintro ⟨digest, hdigest, gen, hload, ⟨art, hartifact, rfl⟩ |
        ⟨t, htarget, slot, hstate, rfl⟩⟩
      · exact .inl ⟨gen, ⟨digest, hdigest, hload⟩, art, hartifact, rfl⟩
      · refine .inr ⟨(slot.digest, slot.byteLen), ⟨gen, ⟨digest, hdigest, hload⟩, t,
          htarget, ?_⟩, rfl⟩
        rw [hstate]
  · intro planId hplanId
    exact (hloaded.planKeys planId).1 (contains_iff.1 (hstored planId hplanId))

/-! ## 6. The plan of a prune -/

theorem retainedPackMemberBlobs_ok {members : List PackMember}
    (h : retainedPackMemberBlobs store digest total = .ok (members, spent)) :
    members = storedMembers store digest := by
  unfold retainedPackMemberBlobs at h
  rw [bind_ok] at h
  obtain ⟨found, hread, h⟩ := h
  unfold storedMembers
  cases found with
  | none =>
    simp only [pure_ok] at h
    cases h
    cases hfile : store.packManifests.get? digest with
    | none => rfl
    | some file =>
      rw [hfile] at hread
      unfold readImmutable at hread
      split at hread
      · rename_i hnone
        cases hnone
      · split at hread <;> cases hread
  | some bytes =>
    simp only [bind_ok, pure_ok, decodePackManifestMembers] at h
    obtain ⟨charged, -, decoded, hdecode, hpair⟩ := h
    cases hpair
    obtain ⟨hfile, -⟩ := readImmutable_ok hread
    rw [hfile]
    split at hdecode
    · cases hdecode
    · split at hdecode
      · cases hdecode
      · cases hdecode
        rfl

theorem retainPackMembers_ok :
    ∀ {packs : List Digest} {blobs r : List Digest} {total spent : Nat},
      packs.foldlM (retainPackMembers store) (blobs, total) = .ok (r, spent) →
      (∀ blob, blob ∈ r ↔ blob ∈ blobs ∨
        ∃ digest ∈ packs, ∃ member ∈ storedMembers store digest, member.blob = blob) ∧
      ∀ digest ∈ packs, ∀ member ∈ storedMembers store digest,
        verifyBlob store member.blob = .ok member.byteLen
  | [], blobs, r, total, spent, h => by
    rw [foldlM_nil, pure_ok] at h
    cases h
    simp
  | digest :: packs, blobs, r, total, spent, h => by
    rw [foldlM_cons, bind_ok] at h
    obtain ⟨⟨mid, between⟩, hfirst, hrest⟩ := h
    unfold retainPackMembers at hfirst
    simp only [bind_ok, exists_unit, pure_ok, forM_ok, reject_ok, not_not, Prod.exists] at hfirst
    obtain ⟨members, charged, hmembers, hverified, hpair⟩ := hfirst
    cases hpair
    have hstored := retainedPackMemberBlobs_ok hmembers
    subst hstored
    obtain ⟨hall, hlater⟩ := retainPackMembers_ok hrest
    refine ⟨?_, ?_⟩
    · intro blob
      simp only [hall, mem_append, mem_map, mem_cons, exists_eq_or_imp]
      rw [or_assoc, or_left_comm]
    · intro other hother member hmember
      rcases mem_cons.1 hother with rfl | hother
      · obtain ⟨length, hlen, rfl⟩ := hverified member hmember
        exact hlen
      · exact hlater other hother member hmember

theorem orderRemovals_subperm :
    ∀ (fuel : Nat) (left : List Digest), (orderRemovals generations fuel left).Subperm left
  | 0, left => nil_subperm
  | fuel + 1, left => by
    rw [orderRemovals]
    split
    · exact nil_subperm
    · rename_i digest hfind
      have hmem := mem_of_find?_eq_some hfind
      exact ((subperm_cons digest).2 (orderRemovals_subperm fuel (left.erase digest))).trans
        (perm_cons_erase hmem).symm.subperm

theorem orderGenerationRemovals_ok {reachable ordered : List Digest}
    (h : orderGenerationRemovals generations reachable = .ok ordered) (digest : Digest) :
    digest ∈ ordered ↔ digest ∈ generations.keys ∧ digest ∉ reachable := by
  unfold orderGenerationRemovals at h
  simp only [bind_ok, exists_unit, reject_ok, pure_ok, not_not] at h
  obtain ⟨hlen, rfl⟩ := h
  rw [((orderRemovals_subperm _ _).perm_of_length_le hlen.ge).mem_iff]
  simp

/-- A stored plan that the removals leave. -/
def KeepsPlan (codec : ObjectCodec) (store : ObjectStore) (plan : PrunePlan)
    (planId : PreparedId) (record : PreparedRecord) : Prop :=
  loadPrepared codec store planId = .ok record ∧ planId ∉ plan.plans

/-- The plan of a prune: what its kept records and pins need, and in every area the stored names
that are not among it. -/
structure PlannedFrom (codec : ObjectCodec) (state : StoreState) (request : PruneRequest)
    (plan : PrunePlan) (retained : RetainedClosure) (reached : List Digest)
    (kept pinned : CanonicalObjects) (blobs packs : List Digest) : Prop where
  reach : ReachedFrom codec state request retained reached
  prunedPlans : ∀ planId, planId ∈ plan.plans ↔ planId ∈ request.planIds ∨
    request.sweepUnreferenced = true ∧ planId ∈ state.objects.prepared.keys ∧
      planId ∉ retained.planIds
  keptClosed : Closed codec state.objects kept
  keptPlanTrees : ∀ planId record, KeepsPlan codec state.objects plan planId record →
    ∀ tree ∈ snapshotTrees record.desiredSnapshot record.trackedRoot,
      kept.trees.contains tree = true
  keptPlanLinks : ∀ planId record, KeepsPlan codec state.objects plan planId record →
    ∀ link ∈ stateSymlinks (snapshotStates record.desiredSnapshot),
      kept.symlinks.contains link = true
  keptTrees : ∀ digest ∈ reached, ∀ gen,
    loadGeneration codec state.objects digest = .ok gen →
      ∀ tree ∈ snapshotTrees gen.desiredSnapshot gen.trackedRoot,
        kept.trees.contains tree = true
  keptLinks : ∀ digest ∈ reached, ∀ gen,
    loadGeneration codec state.objects digest = .ok gen →
      ∀ link ∈ stateSymlinks (snapshotStates gen.desiredSnapshot),
        kept.symlinks.contains link = true
  pinnedClosed : Closed codec state.objects pinned
  pinnedTrees : ∀ tree ∈ retained.pinnedTrees, pinned.trees.contains tree = true
  pinnedLinks : ∀ link ∈ retained.pinnedSymlinks, pinned.symlinks.contains link = true
  neededBlobs : ∀ blob, blob ∈ blobs ↔
    (∃ planId record, KeepsPlan codec state.objects plan planId record ∧
      ∃ artifact ∈ record.artifacts, artifact.digest = blob) ∨ blob ∈ retained.blobs ∨
    ∃ digest ∈ packs, ∃ member ∈ storedMembers state.objects digest, member.blob = blob
  neededPacks : ∀ digest, digest ∈ packs ↔
    (∃ planId record, KeepsPlan codec state.objects plan planId record ∧
      digest ∈ recordPackRoots record) ∨ digest ∈ retained.packs
  generations : ∀ digest, digest ∈ plan.generations ↔
    digest ∈ state.objects.generations.keys ∧ digest ∉ reached
  removedBlobs : ∀ blob, blob ∈ plan.blobs ↔ blob ∈ state.objects.blobs.keys ∧ blob ∉ blobs
  removedPacks : ∀ digest, digest ∈ plan.packs ↔
    (digest ∈ state.objects.packs.keys ∨ digest ∈ state.objects.packManifests.keys) ∧
      digest ∉ packs
  removedTrees : ∀ digest, digest ∈ plan.trees ↔ digest ∈ state.objects.trees.keys ∧
    digest ∉ kept.trees.keys ∧ digest ∉ pinned.trees.keys
  removedLinks : ∀ digest, digest ∈ plan.symlinks ↔ digest ∈ state.objects.symlinks.keys ∧
    digest ∉ kept.symlinks.keys ∧ digest ∉ pinned.symlinks.keys
  removedFiles : ∀ digest, digest ∈ plan.files ↔ digest ∈ state.objects.files.keys ∧
    digest ∉ kept.files.keys ∧ digest ∉ pinned.files.keys ∧ digest ∉ retained.pinnedFiles

theorem exists_key_comm {keeps : κ → α → Prop} {passes : α → Prop} :
    (∃ value, (∃ key, keeps key value) ∧ passes value) ↔
      ∃ key value, keeps key value ∧ passes value := by
  rw [exists_comm]
  simp only [exists_and_right]

theorem mem_keptRecords (hloaded : LoadedFrom codec store loaded) {pruned : List PreparedId} :
    record ∈ (loaded.prepared.entries.filter fun plan => plan.1 ∉ pruned).map Prod.snd ↔
      ∃ planId, loadPrepared codec store planId = .ok record ∧ planId ∉ pruned := by
  simp only [mem_map, mem_filter, decide_eq_true_eq, Prod.exists,
    ← get?_eq_some, hloaded.plans, exists_eq_right]

theorem mem_prunedPlanIds (hloaded : LoadedFrom codec store loaded) (planId : PreparedId) :
    planId ∈ prunedPlanIds loaded request retained ↔ planId ∈ request.planIds ∨
      request.sweepUnreferenced = true ∧ planId ∈ store.prepared.keys ∧
        planId ∉ retained.planIds := by
  rw [prunedPlanIds, mem_sortedSet, mem_append]
  refine or_congr_right ?_
  cases request.sweepUnreferenced with
  | false => simp
  | true => simp [hloaded.planKeys]

theorem mem_recordTreeRoots {generations : List StateGeneration} {tree : Digest} :
    tree ∈ recordTreeRoots records generations ↔
      (∃ record ∈ records, tree ∈ snapshotTrees record.desiredSnapshot record.trackedRoot) ∨
        ∃ gen ∈ generations,
          tree ∈ snapshotTrees gen.desiredSnapshot gen.trackedRoot := by
  simp only [recordTreeRoots, snapshotTrees, stateTreeRoots, recordStates,
    filterMap_append, filterMap_flatMap, mem_append, mem_flatMap,
    mem_map, mem_filterMap, Option.mem_toList, Option.map_eq_some_iff]
  simp only [or_and_right, and_or_left, exists_or, exists_key_comm, and_assoc, exists_and_left]
  exact or_or_or_comm

theorem mem_recordSymlinks {generations : List StateGeneration} {link : Digest} :
    link ∈ stateSymlinks (recordStates records generations) ↔
      (∃ record ∈ records, link ∈ stateSymlinks (snapshotStates record.desiredSnapshot)) ∨
        ∃ gen ∈ generations,
          link ∈ stateSymlinks (snapshotStates gen.desiredSnapshot) := by
  simp only [stateSymlinks, recordStates, filterMap_append, filterMap_flatMap,
    mem_append, mem_flatMap]

theorem loadPackNames_ok {names : List Digest} (h : loadPackNames store = .ok names) :
    names = store.packs.keys ++ store.packManifests.keys := by
  unfold loadPackNames at h
  simp only [bind_ok, exists_unit, pure_ok] at h
  exact h.2.2.2.symm

/-- **The plan of a prune**, read off its computation. -/
theorem planPrune_ok (h : planPrune codec machine state request = .ok plan) :
    (∃ loaded, LoadedFrom codec state.objects loaded ∧
      ∀ planId ∈ request.planIds, planId ∈ state.objects.prepared.keys) ∧
      ∃ retained reached kept pinned blobs packs,
        PlannedFrom codec state request plan retained reached kept pinned blobs packs := by
  unfold planPrune at h
  simp only [bind_ok, exists_unit, Prod.exists] at h
  obtain ⟨loaded, hload, -, retained, reached, hreach, hplan⟩ := h
  obtain ⟨hloaded, hnamed⟩ := loadWholeStore_ok hload
  refine ⟨⟨loaded, hloaded, hnamed⟩, ?_⟩
  unfold planRemovals retainCanonical at hplan
  simp only [bind_ok, exists_unit, Prod.exists, pure_ok] at hplan
  obtain ⟨canonical, ⟨kept, spent, hkept, pinned, left, hpinned, rfl⟩, -, -, blobs, bytes,
    hblobs, names, hnames, -, -, -, trees, charged, -, -, -, -, -, generations, hgens,
    rfl⟩ := hplan
  obtain ⟨hkeptClosed, hkeptTrees, hkeptLinks⟩ := loadCanonicalRoots_closed hkept
  obtain ⟨hpinnedClosed, hpinnedTrees, hpinnedLinks⟩ := loadCanonicalRoots_closed hpinned
  obtain ⟨hall, -⟩ := retainPackMembers_ok hblobs
  have hnames := loadPackNames_ok hnames
  subst hnames
  refine ⟨retained, reached, kept, pinned, blobs,
    ((loaded.prepared.entries.filter fun entry =>
      entry.1 ∉ prunedPlanIds loaded request retained).map Prod.snd).flatMap recordPackRoots ++
        retained.packs, reachRetained_ok hloaded hreach,
    mem_prunedPlanIds hloaded, hkeptClosed, ?_, ?_, ?_, ?_, hpinnedClosed, hpinnedTrees,
    hpinnedLinks, ?_, ?_, ?_, ?_, ?_, ?_, ?_, ?_⟩
  · intro planId record hkeeps tree htree
    exact hkeptTrees tree (mem_recordTreeRoots.2
      (.inl ⟨record, (mem_keptRecords hloaded).2 ⟨planId, hkeeps⟩, htree⟩))
  · intro planId record hkeeps link hlink
    exact hkeptLinks link (mem_recordSymlinks.2
      (.inl ⟨record, (mem_keptRecords hloaded).2 ⟨planId, hkeeps⟩, hlink⟩))
  · intro digest hdigest gen hgen tree htree
    exact hkeptTrees tree (mem_recordTreeRoots.2
      (.inr ⟨gen, (mem_generationsOf hloaded).2 ⟨digest, hdigest, hgen⟩, htree⟩))
  · intro digest hdigest gen hgen link hlink
    exact hkeptLinks link (mem_recordSymlinks.2
      (.inr ⟨gen, (mem_generationsOf hloaded).2 ⟨digest, hdigest, hgen⟩, hlink⟩))
  · intro blob
    simp only [hall, mem_append, mem_sortedSet, or_assoc]
    refine or_congr_left ?_
    simp only [mem_flatMap, mem_map, mem_keptRecords hloaded, KeepsPlan]
    exact exists_key_comm
  · intro digest
    simp only [mem_append]
    refine or_congr_left ?_
    simp only [mem_flatMap, mem_keptRecords hloaded, KeepsPlan]
    exact exists_key_comm
  · intro digest
    rw [orderGenerationRemovals_ok hgens, hloaded.generationKeys]
  · intro blob
    simp
  · intro digest
    simp
  · intro digest
    have hpin : digest ∈ retained.pinnedTrees → digest ∈ pinned.trees.keys :=
      fun hmem => contains_iff.1 (hpinnedTrees digest hmem)
    simp only [mem_filter, decide_eq_true_eq, mem_append, not_or]
    tauto
  · intro digest
    have hpin : digest ∈ retained.pinnedSymlinks → digest ∈ pinned.symlinks.keys :=
      fun hmem => contains_iff.1 (hpinnedLinks digest hmem)
    simp only [mem_filter, decide_eq_true_eq, mem_append, not_or]
    tauto
  · intro digest
    simp only [mem_filter, decide_eq_true_eq, mem_append, not_or, and_assoc]

/-! ## 7. The plan keeps the closure -/

def PrunePlan.Removes (plan : PrunePlan) (store : ObjectStore) : StoreEntry → Prop
  | .generation digest => digest ∈ plan.generations
  | .plan planId => planId ∈ plan.plans
  | .blob digest => digest ∈ plan.blobs
  | .pack digest => digest ∈ plan.packs ∧ digest ∈ store.packs.keys
  | .packManifest digest => digest ∈ plan.packs ∧ digest ∈ store.packManifests.keys
  | .tree digest => digest ∈ plan.trees
  | .symlink digest => digest ∈ plan.symlinks
  | .file digest => digest ∈ plan.files

theorem mem_removals {entry : StoreEntry} :
    entry ∈ removals store plan ↔ plan.Removes store entry := by
  cases entry <;> simp [removals, PrunePlan.Removes, SortedMap.contains_iff]

def Needed (plan : PrunePlan) (retained : RetainedClosure) (reached : List Digest)
    (kept pinned : CanonicalObjects) (blobs packs : List Digest) : StoreEntry → Prop
  | .generation digest => digest ∈ reached
  | .plan planId => planId ∉ plan.plans
  | .blob digest => digest ∈ blobs
  | .pack digest => digest ∈ packs
  | .packManifest digest => digest ∈ packs
  | .tree digest => digest ∈ kept.trees.keys ∨ digest ∈ pinned.trees.keys
  | .symlink digest => digest ∈ kept.symlinks.keys ∨ digest ∈ pinned.symlinks.keys
  | .file digest => digest ∈ kept.files.keys ∨ digest ∈ pinned.files.keys ∨
      digest ∈ retained.pinnedFiles

theorem Closed.entry {objects : CanonicalObjects} (h : Closed codec store objects)
    {tree : TreeObject} {entry : TreeEntry} (hmem : digest ∈ objects.trees.keys)
    (hstored : storedTree codec store digest = some (tree, bytes)) (hentry : entry ∈ tree.entries) :
    EntryIn objects entry := by
  obtain ⟨known, hknown⟩ := mem_keys.1 hmem
  obtain ⟨length, hsame⟩ := h.stored.trees digest known hknown
  rw [hstored] at hsame
  cases hsame
  exact h.entries digest tree hknown entry hentry

section Planned

variable {reached : List Digest} {kept pinned : CanonicalObjects} {blobs packs : List Digest}

variable {planId : PreparedId}

section

variable (h : PlannedFrom codec state request plan retained reached kept pinned blobs packs)
include h

theorem PlannedFrom.entryIn {tree : TreeObject} {entry : TreeEntry}
    (hmem : digest ∈ kept.trees.keys ∨ digest ∈ pinned.trees.keys)
    (hstored : storedTree codec state.objects digest = some (tree, bytes))
    (hentry : entry ∈ tree.entries) : EntryIn kept entry ∨ EntryIn pinned entry := by
  rcases hmem with hmem | hmem
  · exact .inl (h.keptClosed.entry hmem hstored hentry)
  · exact .inr (h.pinnedClosed.entry hmem hstored hentry)

theorem PlannedFrom.retainedPlan (hmem : planId ∈ retained.planIds) : planId ∉ plan.plans := by
  rw [h.prunedPlans]
  rintro (hnamed | ⟨-, -, hnot⟩)
  · exact h.reach.unnamed planId hnamed hmem
  · exact hnot hmem

end

/-- **Whatever the roots reach is needed.** -/
theorem PlannedFrom.needed
    (h : PlannedFrom codec state request plan retained reached kept pinned blobs packs)
    {entry : StoreEntry} (hretains : Retains codec state.objects (PruneRoot codec state request)
      (Unswept codec state.objects request) entry) :
    Needed plan retained reached kept pinned blobs packs entry := by
  induction hretains with
  | lineage root mem => exact (h.reach.reachable _).2 ⟨_, _, root, mem⟩
  | pinnedPlan root => exact h.retainedPlan ((h.reach.plans _).2 (.inr root))
  | keptPlan keep =>
    obtain ⟨hsweep, hnamed, -⟩ := keep
    show _ ∉ plan.plans
    rw [h.prunedPlans]
    rintro (hmem | ⟨hmem, -⟩)
    · exact hnamed hmem
    · rw [hsweep] at hmem
      cases hmem
  | source above loads ih =>
    exact h.retainedPlan ((h.reach.plans _).2 (.inl ⟨_, ih, _, loads, rfl⟩))
  | pinnedBlob root =>
    exact (h.neededBlobs _).2 (.inr (.inl ((h.reach.blobs _).2 (.inr root))))
  | generationArtifact above loads mem ih =>
    exact (h.neededBlobs _).2 (.inr (.inl ((h.reach.blobs _).2
      (.inl ⟨_, ih, _, loads, .inl ⟨_, mem, rfl⟩⟩))))
  | generationFile above loads mem ih =>
    exact (h.neededBlobs _).2 (.inr (.inl ((h.reach.blobs _).2
      (.inl ⟨_, ih, _, loads, .inr ⟨_, mem, rfl⟩⟩))))
  | planArtifact above loads mem ih =>
    exact (h.neededBlobs _).2 (.inl ⟨_, _, ⟨loads, ih⟩, _, mem, rfl⟩)
  | pinnedPack root => exact (h.neededPacks _).2 (.inr ((h.reach.packs _).2 root))
  | planPack above loads mem ih =>
    exact (h.neededPacks _).2 (.inl ⟨_, _, ⟨loads, ih⟩, mem⟩)
  | manifest above ih => exact ih
  | member above mem ih =>
    exact (h.neededBlobs _).2 (.inr (.inr ⟨_, ih, _, mem, rfl⟩))
  | pinnedFile root => exact .inr (.inr ((h.reach.files _).2 root))
  | pinnedSymlink root =>
    exact .inr (contains_iff.1 (h.pinnedLinks _ ((h.reach.symlinks _).2 root)))
  | pinnedTree root =>
    exact .inr (contains_iff.1 (h.pinnedTrees _ ((h.reach.trees _).2 root)))
  | generationTree above loads mem ih =>
    exact .inl (contains_iff.1 (h.keptTrees _ ih _ loads _ mem))
  | generationSymlink above loads mem ih =>
    exact .inl (contains_iff.1 (h.keptLinks _ ih _ loads _ mem))
  | planTree above loads mem ih =>
    exact .inl (contains_iff.1 (h.keptPlanTrees _ _ ⟨loads, ih⟩ _ mem))
  | planSymlink above loads mem ih =>
    exact .inl (contains_iff.1 (h.keptPlanLinks _ _ ⟨loads, ih⟩ _ mem))
  | treeFile above stored mem kind ih =>
    have hin := h.entryIn ih stored mem
    simp only [EntryIn, kind, SortedMap.contains_iff] at hin
    exact or_assoc.1 (.inl hin)
  | treeDirectory above stored mem kind ih =>
    have hin := h.entryIn ih stored mem
    simp only [EntryIn, kind, SortedMap.contains_iff] at hin
    exact hin
  | treeSymlink above stored mem kind ih =>
    have hin := h.entryIn ih stored mem
    simp only [EntryIn, kind, SortedMap.contains_iff] at hin
    exact hin

theorem PlannedFrom.not_removed
    (h : PlannedFrom codec state request plan retained reached kept pinned blobs packs)
    {entry : StoreEntry} (hneeded : Needed plan retained reached kept pinned blobs packs entry) :
    ¬ plan.Removes state.objects entry := by
  cases entry with
  | generation digest => exact fun hmem => ((h.generations digest).1 hmem).2 hneeded
  | plan planId => exact hneeded
  | blob digest => exact fun hmem => ((h.removedBlobs digest).1 hmem).2 hneeded
  | pack digest => exact fun hmem => ((h.removedPacks digest).1 hmem.1).2 hneeded
  | packManifest digest => exact fun hmem => ((h.removedPacks digest).1 hmem.1).2 hneeded
  | tree digest =>
    intro hmem
    obtain ⟨-, hkept, hpinned⟩ := (h.removedTrees digest).1 hmem
    exact hneeded.elim hkept hpinned
  | symlink digest =>
    intro hmem
    obtain ⟨-, hkept, hpinned⟩ := (h.removedLinks digest).1 hmem
    exact hneeded.elim hkept hpinned
  | file digest =>
    intro hmem
    obtain ⟨-, hkept, hpinned, hfiles⟩ := (h.removedFiles digest).1 hmem
    exact hneeded.elim hkept fun hrest => hrest.elim hpinned hfiles

/-! ## 8. The needed blobs are those of the closure -/

section

variable (h : PlannedFrom codec state request plan retained reached kept pinned blobs packs)
include h

theorem PlannedFrom.reached_retained (hmem : digest ∈ reached) :
    Retains codec state.objects (PruneRoot codec state request)
      (Unswept codec state.objects request) (.generation digest) := by
  obtain ⟨first, limit, hroot, hchain⟩ := (h.reach.reachable digest).1 hmem
  exact .lineage hroot hchain

theorem PlannedFrom.plan_retained (hmem : planId ∈ retained.planIds) :
    Retains codec state.objects (PruneRoot codec state request)
      (Unswept codec state.objects request) (.plan planId) := by
  rcases (h.reach.plans planId).1 hmem with ⟨digest, hdigest, gen, hload, rfl⟩ | hroot
  · exact .source (h.reached_retained hdigest) hload
  · exact .pinnedPlan hroot

theorem PlannedFrom.kept_retained (hkeeps : KeepsPlan codec state.objects plan planId record) :
    Retains codec state.objects (PruneRoot codec state request)
      (Unswept codec state.objects request) (.plan planId) := by
  obtain ⟨hload, hnot⟩ := hkeeps
  rw [h.prunedPlans, not_or] at hnot
  obtain ⟨hnamed, hswept⟩ := hnot
  have hstored : planId ∈ state.objects.prepared.keys :=
    mem_keys.2 ⟨_, (loadPrepared_ok hload).1⟩
  by_cases hmem : planId ∈ retained.planIds
  · exact h.plan_retained hmem
  · have hsweep : request.sweepUnreferenced = false := by
      rw [← Bool.not_eq_true]
      exact fun hsweep => hswept ⟨hsweep, hstored, hmem⟩
    exact .keptPlan ⟨hsweep, hnamed, record, hload⟩

theorem PlannedFrom.pack_retained (hmem : digest ∈ packs) :
    Retains codec state.objects (PruneRoot codec state request)
      (Unswept codec state.objects request) (.pack digest) := by
  rcases (h.neededPacks digest).1 hmem with ⟨planId, record, hkeeps, hpack⟩ | hpinned
  · exact .planPack (h.kept_retained hkeeps) hkeeps.1 hpack
  · exact .pinnedPack ((h.reach.packs digest).1 hpinned)

theorem PlannedFrom.blob_retained {blob : Digest} (hmem : blob ∈ blobs) :
    Retains codec state.objects (PruneRoot codec state request)
      (Unswept codec state.objects request) (.blob blob) := by
  rcases (h.neededBlobs blob).1 hmem with ⟨planId, record, hkeeps, art, hartifact, rfl⟩ |
    hretained | ⟨digest, hpack, member, hmember, rfl⟩
  · exact .planArtifact (h.kept_retained hkeeps) hkeeps.1 hartifact
  · rcases (h.reach.blobs blob).1 hretained with ⟨digest, hdigest, gen, hload, hused⟩ | hroot
    · rcases hused with ⟨art, hartifact, rfl⟩ | ⟨file, hfile, rfl⟩
      · exact .generationArtifact (h.reached_retained hdigest) hload hartifact
      · exact .generationFile (h.reached_retained hdigest) hload hfile
    · exact .pinnedBlob hroot
  · exact .member (.manifest (h.pack_retained hpack)) hmember

end

end Planned

variable {entry : StoreEntry}

/-- **A prune removes nothing of the closure** of its roots. -/
theorem planPrune_keeps (h : planPrune codec machine state request = .ok plan)
    (hretains : Retains codec state.objects (PruneRoot codec state request)
      (Unswept codec state.objects request) entry) : entry ∉ removals state.objects plan := by
  obtain ⟨-, retained, reached, kept, pinned, blobs, packs, hplanned⟩ := planPrune_ok h
  rw [mem_removals]
  exact hplanned.not_removed (hplanned.needed hretains)

theorem planPrune_removes_blob (h : planPrune codec machine state request = .ok plan)
    {blob : Digest} (hstored : blob ∈ state.objects.blobs.keys)
    (hunretained : ¬ Retains codec state.objects (PruneRoot codec state request)
      (Unswept codec state.objects request) (.blob blob)) :
    .blob blob ∈ removals state.objects plan := by
  obtain ⟨-, retained, reached, kept, pinned, blobs, packs, hplanned⟩ := planPrune_ok h
  rw [mem_removals]
  exact (hplanned.removedBlobs blob).2
    ⟨hstored, fun hneeded => hunretained (hplanned.blob_retained hneeded)⟩

/-! ## 9. Removal -/

/-- Two stores hold the same under the name of an entry. -/
def SameEntry (store next : ObjectStore) : StoreEntry → Prop
  | .generation digest => next.generations.get? digest = store.generations.get? digest
  | .plan planId => next.prepared.get? planId = store.prepared.get? planId
  | .blob digest => next.blobs.get? digest = store.blobs.get? digest
  | .pack digest => next.packs.get? digest = store.packs.get? digest
  | .packManifest digest => next.packManifests.get? digest = store.packManifests.get? digest
  | .tree digest => next.trees.get? digest = store.trees.get? digest
  | .symlink digest => next.symlinks.get? digest = store.symlinks.get? digest
  | .file digest => next.files.get? digest = store.files.get? digest

theorem SameEntry.refl (store : ObjectStore) (entry : StoreEntry) :
    SameEntry store store entry := by
  cases entry <;> rfl

theorem SameEntry.trans {first snd third : ObjectStore} (h : SameEntry first snd entry)
    (h' : SameEntry snd third entry) : SameEntry first third entry := by
  cases entry <;> exact Eq.trans h' h

theorem SameEntry.symm {next : ObjectStore} (h : SameEntry store next entry) :
    SameEntry next store entry := by
  cases entry <;> exact Eq.symm h

theorem unlink_same {other : StoreEntry} (h : other ≠ entry) :
    SameEntry store (store.unlink entry) other := by
  cases entry <;> cases other <;> simp_all [SameEntry, ObjectStore.unlink]

def ObjectStore.unlinkAll (store : ObjectStore) (entries : List StoreEntry) : ObjectStore :=
  entries.foldl ObjectStore.unlink store

theorem unlinkAll_same {other : StoreEntry} : ∀ {es : List StoreEntry} {store : ObjectStore},
    other ∉ es → SameEntry store (store.unlinkAll es) other
  | [], store, _ => .refl store other
  | entry :: es, store, h => by
    rw [mem_cons, not_or] at h
    exact (unlink_same h.1).trans (unlinkAll_same h.2)

def ObjectStore.Lacks (store : ObjectStore) : StoreEntry → Prop
  | .generation digest => store.generations.get? digest = none
  | .plan planId => store.prepared.get? planId = none
  | .blob digest => store.blobs.get? digest = none
  | .pack digest => store.packs.get? digest = none
  | .packManifest digest => store.packManifests.get? digest = none
  | .tree digest => store.trees.get? digest = none
  | .symlink digest => store.symlinks.get? digest = none
  | .file digest => store.files.get? digest = none

theorem unlink_lacks (store : ObjectStore) (entry : StoreEntry) :
    (store.unlink entry).Lacks entry := by
  cases entry <;> simp [ObjectStore.Lacks, ObjectStore.unlink]

theorem SameEntry.lacks {next : ObjectStore} (h : SameEntry store next entry)
    (hlacks : store.Lacks entry) : next.Lacks entry := by
  cases entry <;> exact Eq.trans h hlacks

theorem unlinkAll_lacks {other : StoreEntry} :
    ∀ {es : List StoreEntry} {store : ObjectStore},
      (store.Lacks other ∨ other ∈ es) → (store.unlinkAll es).Lacks other
  | [], store, h => h.elim id fun hmem => by cases hmem
  | entry :: es, store, h => by
    refine @unlinkAll_lacks other es (store.unlink entry) ?_
    by_cases hsame : other = entry
    · exact .inl (hsame ▸ unlink_lacks store other)
    · rcases h with hlacks | hmem
      · exact .inl ((unlink_same hsame).lacks hlacks)
      · exact .inr ((mem_cons.1 hmem).resolve_left hsame)

theorem removeEntries_ok : ∀ {es : List StoreEntry} {store r : ObjectStore},
    es.foldlM (removeEntry codec) store = .ok r → r = store.unlinkAll es
  | [], store, r, h => by
    rw [foldlM_nil, pure_ok] at h
    exact h.symm
  | entry :: es, store, r, h => by
    rw [foldlM_cons, bind_ok] at h
    obtain ⟨mid, hfirst, hrest⟩ := h
    unfold removeEntry at hfirst
    simp only [bind_ok, exists_unit, pure_ok] at hfirst
    obtain ⟨-, rfl⟩ := hfirst
    rw [removeEntries_ok hrest]
    rfl

theorem pruneStore_ok {next : StoreState} (h : pruneStore codec machine state request = .ok next) :
    ∃ plan, planPrune codec machine state request = .ok plan ∧
      next = ⟨state.objects.unlinkAll (removals state.objects plan), state.catalog⟩ := by
  unfold pruneStore at h
  simp only [bind_ok, pure_ok] at h
  obtain ⟨plan, hplan, objects, hremove, rfl⟩ := h
  exact ⟨plan, hplan, by rw [removeEntries_ok hremove]⟩

theorem removeUntilFailure_take : ∀ (es : List StoreEntry) (store : ObjectStore),
    ∃ count, removeUntilFailure codec store es = store.unlinkAll (es.take count)
  | [], store => ⟨0, rfl⟩
  | entry :: es, store => by
    rw [removeUntilFailure]
    split
    · rename_i next hstep
      unfold removeEntry at hstep
      simp only [bind_ok, exists_unit, pure_ok] at hstep
      obtain ⟨-, rfl⟩ := hstep
      obtain ⟨count, hcount⟩ := removeUntilFailure_take es (store.unlink entry)
      exact ⟨count + 1, hcount⟩
    · exact ⟨0, rfl⟩

end Malm.Commit
