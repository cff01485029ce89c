/-
Malm.Commit.CanonicalTheorems — what `load_canonical_roots_with_budget`
loads.

Every entry of a loaded tree is loaded, or waits (`Complete`). So at the end the
loaded objects are closed under references, and they are contained in every closed
set that holds the roots: they are exactly the objects the roots reach.
-/
import Malm.Commit.AdmissionTheorems

namespace Malm.Commit

open Store Checks List CanonicalObjects

variable {top : PendingTree}

variable {codec : ObjectCodec} {store : ObjectStore}

variable {directSymlinks treeRoots : List Digest} {left : CanonicalLoadBudget}
  {objects : CanonicalObjects} {rest : List PendingTree}

/-! ## 1. Stored objects -/

def storedObject {α β : Type} (sizeOf : α → Nat) (limit : Nat)
    (decode : α → Except CanonicalObjectIssue β) (file : Option (StoreFile α)) :
    Option (β × Nat) :=
  match readCanonicalObject sizeOf limit file with
  | .error _ => none
  | .ok bytes =>
    match decode bytes with
    | .error _ => none
    | .ok value => some (value, sizeOf bytes)

def storedTree (codec : ObjectCodec) (store : ObjectStore) (digest : Digest) :
    Option (TreeObject × Nat) :=
  storedObject (Encoded.byteLen TreeObject.encodedLen) maxTreeObjectBytes
    (decodeTree codec digest) (store.trees.get? digest)

def storedFile (codec : ObjectCodec) (store : ObjectStore) (digest : Digest) :
    Option (Contents × Nat) :=
  storedObject (Encoded.byteLen fileObjectLen) maxFileObjectBytes
    (decodeFile codec digest) (store.files.get? digest)

def storedSymlink (codec : ObjectCodec) (store : ObjectStore) (digest : Digest) :
    Option (Text × Nat) :=
  storedObject (Encoded.byteLen symlinkObjectLen) maxSymlinkObjectBytes
    (decodeSymlink codec digest) (store.symlinks.get? digest)

variable {α : Type} {budget : CanonicalLoadBudget} {digest : Digest} {before : CanonicalObjects}
  {after state : LoadState}

theorem loadCanonicalObject_ok {β : Type} {sizeOf : α → Nat} {limit : Nat}
    {decode : α → Except CanonicalObjectIssue β} {file : Option (StoreFile α)}
    {after : CanonicalLoadBudget} {v : β} :
    loadCanonicalObject sizeOf limit decode file budget = .ok (v, after) ↔
      ∃ bytes, storedObject sizeOf limit decode file = some (v, bytes) ∧
        budget.decodedBytes + bytes ≤ maxRetentionDecodedBytes ∧
        after = { budget with decodedBytes := budget.decodedBytes + bytes } := by
  unfold loadCanonicalObject storedObject
  cases readCanonicalObject sizeOf limit file with
  | error reason => simp [error_bind]
  | ok bytes =>
    rw [ok_bind]
    simp only [bind_ok, pure_ok, chargeCanonicalLoadBytes, asInvalidObject, mapError_ok]
    cases hdecode : decode bytes with
    | error issue => simp
    | ok found =>
      constructor
      · rintro ⟨charged, hcharge, loaded, hloaded, hpair⟩
        cases hloaded
        obtain ⟨rfl, rfl⟩ := Prod.mk.injEq .. ▸ hpair
        split at hcharge
        · cases hcharge
        · cases hcharge
          exact ⟨_, rfl, by omega, rfl⟩
      · rintro ⟨length, hstored, hbound, rfl⟩
        cases hstored
        exact ⟨_, if_neg (by omega), _, rfl, rfl⟩

/-- Decoded objects that the store holds. -/
structure StoredIn (codec : ObjectCodec) (store : ObjectStore) (objects : CanonicalObjects) :
    Prop where
  trees : ∀ digest tree, objects.trees.get? digest = some tree →
    ∃ bytes, storedTree codec store digest = some (tree, bytes)
  files : ∀ digest contents, objects.files.get? digest = some contents →
    ∃ bytes, storedFile codec store digest = some (contents, bytes)
  symlinks : ∀ digest target, objects.symlinks.get? digest = some target →
    ∃ bytes, storedSymlink codec store digest = some (target, bytes)

/-- One set of decoded objects extends another. -/
structure Extends (smaller larger : CanonicalObjects) : Prop where
  trees : ∀ digest tree, smaller.trees.get? digest = some tree →
    larger.trees.get? digest = some tree
  files : ∀ digest contents, smaller.files.get? digest = some contents →
    larger.files.get? digest = some contents
  symlinks : ∀ digest target, smaller.symlinks.get? digest = some target →
    larger.symlinks.get? digest = some target

theorem Extends.refl (objects : CanonicalObjects) : Extends objects objects :=
  ⟨fun _ _ h => h, fun _ _ h => h, fun _ _ h => h⟩

theorem Extends.trans {first snd third : CanonicalObjects} (h : Extends first snd)
    (h' : Extends snd third) : Extends first third :=
  ⟨fun digest tree hget => h'.trees digest tree (h.trees digest tree hget),
    fun digest data hget => h'.files digest data (h.files digest data hget),
    fun digest t hget => h'.symlinks digest t (h.symlinks digest t hget)⟩

/-! ## 2. One step -/

/-- An entry is dealt with: loaded, on the work list, or noted. -/
def Reached (state : LoadState) (entry : TreeEntry) : Prop :=
  match entry.kind with
  | .file digest _ => state.objects.files.contains digest = true
  | .directory digest => state.objects.trees.contains digest = true ∨
      ∃ pending ∈ state.pending, pending.digest = digest
  | .symlink digest => digest ∈ state.directSymlinks

/-- What the entry loop keeps: objects, work list and symlinks only grow. -/
structure Grows (before after : LoadState) : Prop where
  objects : Extends before.objects after.objects
  pending : ∀ item ∈ before.pending, item ∈ after.pending
  symlinks : ∀ digest ∈ before.directSymlinks, digest ∈ after.directSymlinks

theorem Grows.refl (state : LoadState) : Grows state state :=
  ⟨.refl _, fun _ h => h, fun _ h => h⟩

theorem Grows.trans {first snd third : LoadState} (h : Grows first snd)
    (h' : Grows snd third) : Grows first third :=
  ⟨h.objects.trans h'.objects, fun item hitem => h'.pending item (h.pending item hitem),
    fun digest hdigest => h'.symlinks digest (h.symlinks digest hdigest)⟩

theorem contains_of_get? {map : SortedMap Digest α} {v : α}
    (h : map.get? digest = some v) : map.contains digest = true := by
  simp [SortedMap.contains, h]

theorem get?_of_contains {map : SortedMap Digest α} (h : map.contains digest = true) :
    ∃ value, map.get? digest = some value :=
  Option.isSome_iff_exists.1 h

theorem Extends.reached_file {after : CanonicalObjects} (h : Extends before after)
    (hfile : before.files.contains digest = true) : after.files.contains digest = true := by
  obtain ⟨data, hget⟩ := get?_of_contains hfile
  exact contains_of_get? (h.files digest data hget)

theorem Extends.reached_tree {after : CanonicalObjects} (h : Extends before after)
    (htree : before.trees.contains digest = true) : after.trees.contains digest = true := by
  obtain ⟨tree, hget⟩ := get?_of_contains htree
  exact contains_of_get? (h.trees digest tree hget)

theorem Reached.grows {before : LoadState} {entry : TreeEntry} (h : Reached before entry)
    (hgrows : Grows before after) : Reached after entry := by
  unfold Reached at h ⊢
  split
  · rename_i digest byteLen hkind
    rw [hkind] at h
    exact hgrows.objects.reached_file h
  · rename_i digest hkind
    rw [hkind] at h
    rcases h with h | ⟨pending, hpend, hdigest⟩
    · exact .inl (hgrows.objects.reached_tree h)
    · exact .inr ⟨pending, hgrows.pending pending hpend, hdigest⟩
  · rename_i digest hkind
    rw [hkind] at h
    exact hgrows.symlinks digest h

theorem loadEntry_ok {tree : PendingTree} {e : TreeEntry}
    (h : loadEntry codec store tree state e = .ok after) :
    Reached after e ∧ Grows state after ∧
      after.objects.trees = state.objects.trees ∧
      after.objects.symlinks = state.objects.symlinks ∧
      (∀ digest data, after.objects.files.get? digest = some data →
        state.objects.files.get? digest = some data ∨
          (∃ byteLen, e.kind = .file digest byteLen) ∧
            ∃ bytes, storedFile codec store digest = some (data, bytes)) ∧
      (∀ item ∈ after.pending, item ∈ state.pending ∨ e.kind = .directory item.digest) ∧
      ∀ digest ∈ after.directSymlinks,
        digest ∈ state.directSymlinks ∨ e.kind = .symlink digest := by
  unfold loadEntry at h
  simp only [bind_ok, exists_unit] at h
  obtain ⟨budget, -, -, -, -, h⟩ := h
  cases hkind : e.kind with
  | file digest byteLen =>
    simp only [hkind, loadFileEntry, bind_ok, exists_unit] at h
    obtain ⟨-, h⟩ := h
    split at h
    · rename_i hcached
      rw [pure_ok] at h
      subst h
      refine ⟨by simpa [Reached, hkind] using hcached, ⟨.refl _, fun _ h => h, fun _ h => h⟩, rfl,
        rfl, fun _ _ h => .inl h, fun _ h => .inl h, fun _ h => .inl h⟩
    · rename_i hnew
      simp only [bind_ok, exists_unit, pure_ok] at h
      obtain ⟨⟨data, charged⟩, hload, -, rfl⟩ := h
      obtain ⟨bytes, hstored, -, rfl⟩ := loadCanonicalObject_ok.1 hload
      refine ⟨by simp [Reached, hkind, SortedMap.contains], ⟨⟨fun _ _ h => h, ?_, fun _ _ h => h⟩,
        fun _ h => h, fun _ h => h⟩, rfl, rfl, ?_, fun _ h => .inl h, fun _ h => .inl h⟩
      · intro other found hget
        have hne : other ≠ digest := by
          rintro rfl
          exact hnew (contains_of_get? hget)
        simp [hne, hget]
      · intro other found hget
        rcases SortedMap.of_get?_insert hget with ⟨rfl, rfl⟩ | hget
        · exact .inr ⟨⟨byteLen, rfl⟩, bytes, hstored⟩
        · exact .inl hget
  | directory digest =>
    simp only [hkind, pure_ok] at h
    subst h
    refine ⟨?_, ⟨.refl _, fun _ h => mem_cons_of_mem _ h, fun _ h => h⟩, rfl, rfl,
      fun _ _ h => .inl h, ?_, fun _ h => .inl h⟩
    · simp only [Reached, hkind]
      exact .inr ⟨_, mem_cons_self, rfl⟩
    · intro item hitem
      rcases mem_cons.1 hitem with rfl | hitem
      · exact .inr rfl
      · exact .inl hitem
  | symlink digest =>
    simp only [hkind, pure_ok] at h
    subst h
    refine ⟨by simp [Reached, hkind], ⟨.refl _, fun _ h => h, fun _ h => mem_cons_of_mem _ h⟩,
      rfl, rfl, fun _ _ h => .inl h, fun _ h => .inl h, ?_⟩
    intro other hother
    rcases mem_cons.1 hother with rfl | hother
    · exact .inr rfl
    · exact .inl hother

theorem fetchTree_ok {tree : TreeObject}
    (h : fetchTree codec store state digest = .ok (tree, after)) :
    after.objects.trees.get? digest = some tree ∧ Grows state after ∧
      after.pending = state.pending ∧ after.directSymlinks = state.directSymlinks ∧
      after.objects.files = state.objects.files ∧
      after.objects.symlinks = state.objects.symlinks ∧
      ∀ other found, after.objects.trees.get? other = some found →
        state.objects.trees.get? other = some found ∨
          other = digest ∧ ∃ bytes, storedTree codec store other = some (found, bytes) := by
  unfold fetchTree at h
  split at h
  · rename_i cached hget
    cases h
    exact ⟨hget, .refl _, rfl, rfl, rfl, rfl, fun _ _ h => .inl h⟩
  · rename_i hnone
    simp only [bind_ok, pure_ok] at h
    obtain ⟨⟨loaded, budget⟩, hload, hpair⟩ := h
    obtain ⟨rfl, rfl⟩ := Prod.mk.injEq .. ▸ hpair
    obtain ⟨bytes, hstored, -, rfl⟩ := loadCanonicalObject_ok.1 hload
    refine ⟨by simp, ⟨⟨?_, fun _ _ h => h, fun _ _ h => h⟩, fun _ h => h, fun _ h => h⟩, rfl, rfl,
      rfl, rfl, ?_⟩
    · intro other found hget
      exact SortedMap.get?_insert_of_none hnone hget
    · intro other found hget
      rcases SortedMap.of_get?_insert hget with ⟨rfl, rfl⟩ | hget
      · exact .inr ⟨rfl, bytes, hstored⟩
      · exact .inl hget

theorem loadEntries_grows {tree : PendingTree} :
    ∀ {es : List TreeEntry} {state after : LoadState},
      es.foldlM (loadEntry codec store tree) state = .ok after →
        Grows state after ∧ after.objects.trees = state.objects.trees ∧
          ∀ e ∈ es, Reached after e
  | [], state, after, h => by
    rw [foldlM_nil, pure_ok] at h
    subst h
    exact ⟨.refl _, rfl, by simp⟩
  | e :: es, state, after, h => by
    rw [foldlM_cons, bind_ok] at h
    obtain ⟨mid, hentry, hrest⟩ := h
    obtain ⟨hreached, hgrows, htrees, -⟩ := loadEntry_ok hentry
    obtain ⟨hgrows', htrees', hall⟩ := loadEntries_grows hrest
    refine ⟨hgrows.trans hgrows', htrees'.trans htrees, ?_⟩
    intro other hother
    rcases mem_cons.1 hother with rfl | hother
    · exact hreached.grows hgrows'
    · exact hall other hother

theorem loadPending_cons_ok {items : Nat} (hpend : state.pending = top :: rest)
    (h : loadPending codec store items state = .ok after) :
    ∃ left budget tree fetched mid, items = left + 1 ∧
      chargeCanonicalLoadItem state.budget = .ok budget ∧
      fetchTree codec store { state with pending := rest, budget := budget } top.digest =
        .ok (tree, fetched) ∧
      tree.entries.foldlM (loadEntry codec store top) fetched = .ok mid ∧
      loadPending codec store left mid = .ok after := by
  cases items with
  | zero =>
    rw [loadPending, hpend] at h
    cases h
  | succ left =>
    rw [loadPending, hpend] at h
    simp only [bind_ok] at h
    obtain ⟨budget, hcharge, ⟨tree, fetched⟩, hfetch, mid, hentries, hrest⟩ := h
    exact ⟨left, budget, tree, fetched, mid, rfl, hcharge, hfetch, hentries, hrest⟩

theorem loadPending_nil {items : Nat} (hpend : state.pending = []) :
    loadPending codec store items state = .ok state := by
  cases items <;> rw [loadPending, hpend]

/-! ## 3. The loaded objects are closed -/

/-- Every entry of a loaded tree is dealt with. -/
def Complete (state : LoadState) : Prop :=
  ∀ digest tree, state.objects.trees.get? digest = some tree →
    ∀ entry ∈ tree.entries, Reached state entry

theorem complete_turn {fetched mid : LoadState} {tree : TreeObject}
    (hpend : state.pending = top :: rest) (h : Complete state)
    (hfetch : fetchTree codec store { state with pending := rest, budget := budget } top.digest =
      .ok (tree, fetched))
    (hentries : tree.entries.foldlM (loadEntry codec store top) fetched = .ok mid) :
    Complete mid ∧ Extends state.objects mid.objects ∧
      (∀ digest ∈ state.directSymlinks, digest ∈ mid.directSymlinks) ∧
      (∀ item ∈ rest, item ∈ mid.pending) ∧
      mid.objects.trees.contains top.digest = true := by
  obtain ⟨hget, hgrows, hsame, -, -, -, horigin⟩ := fetchTree_ok hfetch
  obtain ⟨hgrows', htrees, hall⟩ := loadEntries_grows hentries
  have hboth := hgrows.trans hgrows'
  have htop : mid.objects.trees.contains top.digest = true := by
    rw [htrees]
    exact contains_of_get? hget
  refine ⟨?_, hboth.objects, hboth.symlinks, hboth.pending, htop⟩
  intro digest found hfound e hentry
  rw [htrees] at hfound
  rcases horigin digest found hfound with hold | ⟨rfl, -⟩
  · have hreached := h digest found hold e hentry
    -- only the popped item left the work list, and its tree is loaded now
    unfold Reached at hreached ⊢
    split
    · rename_i file byteLen hkind
      rw [hkind] at hreached
      exact hboth.objects.reached_file hreached
    · rename_i child hkind
      rw [hkind, hpend] at hreached
      rcases hreached with hloaded | ⟨item, hitem, hdigest⟩
      · exact .inl (hboth.objects.reached_tree hloaded)
      · rcases mem_cons.1 hitem with rfl | hitem
        · exact .inl (hdigest ▸ htop)
        · exact .inr ⟨item, hboth.pending item hitem, hdigest⟩
    · rename_i link hkind
      rw [hkind] at hreached
      exact hboth.symlinks link hreached
  · rw [hget] at hfound
    cases hfound
    exact hall e hentry

theorem loadPending_complete {items : Nat} {state after : LoadState} (hcomplete : Complete state)
    (h : loadPending codec store items state = .ok after) :
    Complete after ∧ after.pending = [] ∧ Extends state.objects after.objects ∧
      (∀ digest ∈ state.directSymlinks, digest ∈ after.directSymlinks) ∧
      ∀ item ∈ state.pending, after.objects.trees.contains item.digest = true := by
  cases hpend : state.pending with
  | nil =>
    rw [loadPending_nil hpend] at h
    cases h
    exact ⟨hcomplete, hpend, .refl _, fun _ h => h, by simp⟩
  | cons top rest =>
    obtain ⟨left, budget, tree, fetched, mid, rfl, -, hfetch, hentries, hrest⟩ :=
      loadPending_cons_ok hpend h
    obtain ⟨hmiddle, hext, hlinks, hkept, htop⟩ :=
      complete_turn hpend hcomplete hfetch hentries
    obtain ⟨hafter, hnil, hext', hlinks', hloaded⟩ := loadPending_complete hmiddle hrest
    refine ⟨hafter, hnil, hext.trans hext',
      fun digest hdigest => hlinks' digest (hlinks digest hdigest), ?_⟩
    intro item hitem
    rcases mem_cons.1 hitem with rfl | hitem
    · exact hext'.reached_tree htop
    · exact hloaded item (hkept item hitem)

theorem Complete.start (hcomplete : Complete state) (hpend : state.pending = [])
    (root : Digest) :
    Complete
      { state with pending := [⟨root, 0, 0⟩], logicalEntries := 0, logicalFileBytes := 0 } := by
  intro digest tree htree e hentry
  refine (hcomplete digest tree htree e hentry).grows ⟨.refl _, ?_, fun _ h => h⟩
  simp [hpend]

theorem loadTreeRoot_complete {root : Digest} (hpend : state.pending = [])
    (hcomplete : Complete state) (h : loadTreeRoot codec store state root = .ok after) :
    Complete after ∧ after.pending = [] ∧ Extends state.objects after.objects ∧
      (∀ digest ∈ state.directSymlinks, digest ∈ after.directSymlinks) ∧
      after.objects.trees.contains root = true := by
  unfold loadTreeRoot at h
  obtain ⟨hafter, hnil, hext, hlinks, hloaded⟩ :=
    loadPending_complete (hcomplete.start hpend root) h
  exact ⟨hafter, hnil, hext, hlinks, hloaded ⟨root, 0, 0⟩ mem_cons_self⟩

theorem loadTreeRoots_complete : ∀ {roots : List Digest} {state after : LoadState},
    state.pending = [] → Complete state →
      roots.foldlM (loadTreeRoot codec store) state = .ok after →
      Complete after ∧ after.pending = [] ∧ Extends state.objects after.objects ∧
        (∀ digest ∈ state.directSymlinks, digest ∈ after.directSymlinks) ∧
        ∀ root ∈ roots, after.objects.trees.contains root = true
  | [], state, after, hpend, hcomplete, h => by
    rw [foldlM_nil, pure_ok] at h
    subst h
    exact ⟨hcomplete, hpend, .refl _, fun _ h => h, by simp⟩
  | root :: roots, state, after, hpend, hcomplete, h => by
    rw [foldlM_cons, bind_ok] at h
    obtain ⟨mid, hroot, hrest⟩ := h
    obtain ⟨hmiddle, hnil, hext, hlinks, hloaded⟩ :=
      loadTreeRoot_complete hpend hcomplete hroot
    obtain ⟨hafter, hnil', hext', hlinks', hall⟩ := loadTreeRoots_complete hnil hmiddle hrest
    refine ⟨hafter, hnil', hext.trans hext',
      fun digest hdigest => hlinks' digest (hlinks digest hdigest), ?_⟩
    intro other hother
    rcases mem_cons.1 hother with rfl | hother
    · exact hext'.reached_tree hloaded
    · exact hall other hother

theorem loadSymlink_ok {after : CanonicalObjects}
    (h : loadSymlink codec store (objects, budget) digest = .ok (after, left)) :
    after.symlinks.contains digest = true ∧ Extends objects after ∧
      after.trees = objects.trees ∧ after.files = objects.files ∧
      ∀ other t, after.symlinks.get? other = some t →
        objects.symlinks.get? other = some t ∨
          other = digest ∧ ∃ bytes, storedSymlink codec store other = some (t, bytes) := by
  unfold loadSymlink at h
  split at h
  · rename_i hcached
    cases h
    exact ⟨hcached, .refl _, rfl, rfl, fun _ _ h => .inl h⟩
  · rename_i hnew
    simp only [bind_ok, pure_ok] at h
    obtain ⟨charged, -, ⟨t, spent⟩, hload, hpair⟩ := h
    obtain ⟨rfl, rfl⟩ := Prod.mk.injEq .. ▸ hpair
    obtain ⟨bytes, hstored, -, rfl⟩ := loadCanonicalObject_ok.1 hload
    refine ⟨by simp [SortedMap.contains], ⟨fun _ _ h => h, fun _ _ h => h, ?_⟩, rfl, rfl, ?_⟩
    · intro other found hget
      have hne : other ≠ digest := by
        rintro rfl
        exact hnew (contains_of_get? hget)
      simp [hne, hget]
    · intro other found hget
      rcases SortedMap.of_get?_insert hget with ⟨rfl, rfl⟩ | hget
      · exact .inr ⟨rfl, bytes, hstored⟩
      · exact .inl hget

theorem Extends.reached_symlink {after : CanonicalObjects} (h : Extends before after)
    (hlink : before.symlinks.contains digest = true) : after.symlinks.contains digest = true := by
  obtain ⟨t, hget⟩ := get?_of_contains hlink
  exact contains_of_get? (h.symlinks digest t hget)

theorem loadSymlinks_ok : ∀ {ds : List Digest} {objects after : CanonicalObjects}
    {budget left : CanonicalLoadBudget},
    ds.foldlM (loadSymlink codec store) (objects, budget) = .ok (after, left) →
      (∀ digest ∈ ds, after.symlinks.contains digest = true) ∧ Extends objects after ∧
        after.trees = objects.trees ∧ after.files = objects.files ∧
        ∀ other t, after.symlinks.get? other = some t →
          objects.symlinks.get? other = some t ∨
            other ∈ ds ∧ ∃ bytes, storedSymlink codec store other = some (t, bytes)
  | [], objects, after, budget, left, h => by
    rw [foldlM_nil, pure_ok] at h
    cases h
    exact ⟨by simp, .refl _, rfl, rfl, fun _ _ h => .inl h⟩
  | digest :: ds, objects, after, budget, left, h => by
    rw [foldlM_cons, bind_ok] at h
    obtain ⟨⟨mid, between⟩, hfirst, hrest⟩ := h
    obtain ⟨hloaded, hext, htrees, hfiles, horigin⟩ := loadSymlink_ok hfirst
    obtain ⟨hall, hext', htrees', hfiles', horigin'⟩ := loadSymlinks_ok hrest
    refine ⟨?_, hext.trans hext', htrees'.trans htrees, hfiles'.trans hfiles, ?_⟩
    · intro other hother
      rcases mem_cons.1 hother with rfl | hother
      · exact hext'.reached_symlink hloaded
      · exact hall other hother
    · intro other t hget
      rcases horigin' other t hget with hget | ⟨hmem, hstored⟩
      · rcases horigin other t hget with hget | ⟨rfl, hstored⟩
        · exact .inl hget
        · exact .inr ⟨mem_cons_self, hstored⟩
      · exact .inr ⟨mem_cons_of_mem _ hmem, hstored⟩

def EntryIn (objects : CanonicalObjects) (entry : TreeEntry) : Prop :=
  match entry.kind with
  | .file digest _ => objects.files.contains digest = true
  | .directory digest => objects.trees.contains digest = true
  | .symlink digest => objects.symlinks.contains digest = true

/-- A set of stored objects that is closed under references. -/
structure Closed (codec : ObjectCodec) (store : ObjectStore) (objects : CanonicalObjects) :
    Prop where
  stored : StoredIn codec store objects
  entries : ∀ digest tree, objects.trees.get? digest = some tree →
    ∀ entry ∈ tree.entries, EntryIn objects entry

theorem loadCanonicalRoots_ok
    (h : loadCanonicalRootsWithBudget codec store treeRoots directSymlinks budget =
      .ok (objects, left)) :
    ∃ state, (sortedSet treeRoots).foldlM (loadTreeRoot codec store)
        ⟨.empty, directSymlinks, budget, [], 0, 0⟩ = .ok state ∧
      (sortedSet state.directSymlinks).foldlM (loadSymlink codec store)
        (state.objects, state.budget) = .ok (objects, left) ∧
      ∀ root ∈ treeRoots, objects.validateTree root = .ok () := by
  unfold loadCanonicalRootsWithBudget at h
  simp only [bind_ok, exists_unit, pure_ok, forM_ok, mem_sortedSet,
    asInvalidObject, mapError_ok] at h
  obtain ⟨state, hroots, ⟨loaded, spent⟩, hlinks, hvalid, hpair⟩ := h
  obtain ⟨rfl, rfl⟩ := Prod.mk.injEq .. ▸ hpair
  exact ⟨state, hroots, hlinks, hvalid⟩

/-! ## 4. What the roots reach -/

/-- Conditions on objects that following references keeps. -/
structure Allows (codec : ObjectCodec) (store : ObjectStore) (tree : Digest → TreeObject → Prop)
    (file : Digest → Contents → Prop) (waits link : Digest → Prop) : Prop where
  fetched : ∀ digest found bytes, waits digest →
    storedTree codec store digest = some (found, bytes) → tree digest found
  files : ∀ digest found, tree digest found → ∀ entry ∈ found.entries, ∀ target byteLen,
    entry.kind = .file target byteLen → ∀ contents bytes,
      storedFile codec store target = some (contents, bytes) → file target contents
  directories : ∀ digest found, tree digest found → ∀ entry ∈ found.entries, ∀ target,
    entry.kind = .directory target → waits target
  symlinks : ∀ digest found, tree digest found → ∀ entry ∈ found.entries, ∀ target,
    entry.kind = .symlink target → link target

/-- The state of the loader meets the conditions. -/
structure Inside (tree : Digest → TreeObject → Prop) (file : Digest → Contents → Prop)
    (waits link : Digest → Prop) (state : LoadState) : Prop where
  trees : ∀ digest found, state.objects.trees.get? digest = some found → tree digest found
  files : ∀ digest found, state.objects.files.get? digest = some found → file digest found
  pending : ∀ item ∈ state.pending, waits item.digest
  symlinks : ∀ digest ∈ state.directSymlinks, link digest
  noLinks : state.objects.symlinks = .empty

section Inside

variable {tree : Digest → TreeObject → Prop} {file : Digest → Contents → Prop}
  {waits link : Digest → Prop} (hallows : Allows codec store tree file waits link)

include hallows

theorem Inside.entries {found : TreeObject} (hfound : tree digest found) :
    ∀ {es : List TreeEntry} {state after : LoadState},
      (∀ e ∈ es, e ∈ found.entries) → Inside tree file waits link state →
      es.foldlM (loadEntry codec store top) state = .ok after →
      Inside tree file waits link after
  | [], state, after, _, hinside, h => by
    rw [foldlM_nil, pure_ok] at h
    exact h ▸ hinside
  | e :: es, state, after, hsubset, hinside, h => by
    rw [foldlM_cons, bind_ok] at h
    obtain ⟨mid, hentry, hrest⟩ := h
    have hmem := hsubset e mem_cons_self
    obtain ⟨-, -, htrees, hlinks, hfiles, hpend, hsymlinks⟩ := loadEntry_ok hentry
    refine Inside.entries hfound (fun other hother => hsubset other (mem_cons_of_mem _ hother))
      ⟨?_, ?_, ?_, ?_, hlinks.trans hinside.noLinks⟩ hrest
    · intro other otherTree hget
      exact hinside.trees other otherTree (htrees ▸ hget)
    · intro other data hget
      rcases hfiles other data hget with hget | ⟨⟨byteLen, hkind⟩, bytes, hstored⟩
      · exact hinside.files other data hget
      · exact hallows.files digest found hfound e hmem other byteLen hkind data bytes
          hstored
    · intro item hitem
      rcases hpend item hitem with hitem | hkind
      · exact hinside.pending item hitem
      · exact hallows.directories digest found hfound e hmem _ hkind
    · intro other hother
      rcases hsymlinks other hother with hother | hkind
      · exact hinside.symlinks other hother
      · exact hallows.symlinks digest found hfound e hmem other hkind

theorem Inside.loadPending {items : Nat} {state after : LoadState}
    (hinside : Inside tree file waits link state)
    (h : Commit.loadPending codec store items state = .ok after) :
    Inside tree file waits link after := by
  cases hpend : state.pending with
  | nil =>
    rw [loadPending_nil hpend] at h
    cases h
    exact hinside
  | cons top rest =>
    obtain ⟨left, budget, found, fetched, mid, rfl, -, hfetch, hentries, hrest⟩ :=
      loadPending_cons_ok hpend h
    obtain ⟨hget, -, hsame, hlinks, hfiles, hsymlinks, horigin⟩ := fetchTree_ok hfetch
    have hwaits : waits top.digest := hinside.pending top (hpend ▸ mem_cons_self)
    have htrees : ∀ other otherTree, fetched.objects.trees.get? other = some otherTree →
        tree other otherTree := by
      intro other otherTree hother
      rcases horigin other otherTree hother with hother | ⟨rfl, bytes, hstored⟩
      · exact hinside.trees other otherTree hother
      · exact hallows.fetched _ _ bytes hwaits hstored
    have hfetched : Inside tree file waits link fetched := by
      refine ⟨htrees, ?_, ?_, ?_, hsymlinks.trans hinside.noLinks⟩
      · intro other data hother
        exact hinside.files other data (hfiles ▸ hother)
      · intro item hitem
        rw [hsame] at hitem
        exact hinside.pending item (hpend ▸ mem_cons_of_mem _ hitem)
      · intro other hother
        exact hinside.symlinks other (hlinks ▸ hother)
    exact Inside.loadPending (Inside.entries hallows (htrees _ _ hget) (fun _ h => h) hfetched hentries) hrest

theorem Inside.loadTreeRoots : ∀ {roots : List Digest} {state after : LoadState},
    (∀ root ∈ roots, waits root) → Inside tree file waits link state →
      roots.foldlM (loadTreeRoot codec store) state = .ok after →
      Inside tree file waits link after
  | [], state, after, _, hinside, h => by
    rw [foldlM_nil, pure_ok] at h
    exact h ▸ hinside
  | root :: roots, state, after, hroots, hinside, h => by
    rw [foldlM_cons, bind_ok] at h
    obtain ⟨mid, hroot, hrest⟩ := h
    have hstart : Inside tree file waits link
        { state with pending := [⟨root, 0, 0⟩], logicalEntries := 0, logicalFileBytes := 0 } := by
      refine ⟨hinside.trees, hinside.files, ?_, hinside.symlinks, hinside.noLinks⟩
      intro item hitem
      rw [mem_singleton.1 hitem]
      exact hroots root mem_cons_self
    exact Inside.loadTreeRoots (fun other hother => hroots other (mem_cons_of_mem _ hother))
      (Inside.loadPending hallows hstart hroot) hrest

end Inside

/-- **A successful load** is a closed set of stored objects that holds the roots. -/
theorem loadCanonicalRoots_closed
    (h : loadCanonicalRootsWithBudget codec store treeRoots directSymlinks budget =
      .ok (objects, left)) :
    Closed codec store objects ∧
      (∀ root ∈ treeRoots, objects.trees.contains root = true) ∧
      ∀ digest ∈ directSymlinks, objects.symlinks.contains digest = true := by
  obtain ⟨state, hroots, hlinks, -⟩ := loadCanonicalRoots_ok h
  have hallows : Allows codec store
      (fun digest found => ∃ bytes, storedTree codec store digest = some (found, bytes))
      (fun digest found => ∃ bytes, storedFile codec store digest = some (found, bytes))
      (fun _ => True) (fun _ => True) :=
    ⟨fun _ _ bytes _ hstored => ⟨bytes, hstored⟩,
      fun _ _ _ _ _ _ _ _ _ bytes hstored => ⟨bytes, hstored⟩, fun _ _ _ _ _ _ _ => trivial,
      fun _ _ _ _ _ _ _ => trivial⟩
  have hinside := Inside.loadTreeRoots hallows (fun _ _ => trivial)
    ⟨fun _ _ h => by simp [empty] at h,
      fun _ _ h => by simp [empty] at h, fun _ _ => trivial, fun _ _ => trivial,
      rfl⟩ hroots
  obtain ⟨hcomplete, hpend, -, hdirect, hloaded⟩ := loadTreeRoots_complete rfl
    (fun _ _ h => by simp [empty] at h) hroots
  obtain ⟨hall, hext, htrees, hfiles, horigin⟩ := loadSymlinks_ok hlinks
  refine ⟨⟨⟨?_, ?_, ?_⟩, ?_⟩, ?_, ?_⟩
  · intro digest found hget
    exact hinside.trees digest found (htrees ▸ hget)
  · intro digest found hget
    exact hinside.files digest found (hfiles ▸ hget)
  · intro digest t hget
    rcases horigin digest t hget with hget | ⟨-, hstored⟩
    · rw [hinside.noLinks] at hget
      cases hget
    · exact hstored
  · intro digest found hget e hentry
    have hreached := hcomplete digest found (htrees ▸ hget) e hentry
    unfold Reached at hreached
    unfold EntryIn
    split
    · rename_i t byteLen hkind
      rw [hkind] at hreached
      exact hext.reached_file hreached
    · rename_i t hkind
      rw [hkind, hpend] at hreached
      rcases hreached with hreached | ⟨item, hitem, -⟩
      · exact hext.reached_tree hreached
      · cases hitem
    · rename_i t hkind
      rw [hkind] at hreached
      exact hall t (mem_sortedSet.2 hreached)
  · intro root hroot
    exact hext.reached_tree (hloaded root (mem_sortedSet.2 hroot))
  · intro digest hdigest
    exact hall digest (mem_sortedSet.2 (hdirect digest hdigest))

/-- **Nothing else is loaded**: what holds of the roots and is kept by references holds of all. -/
theorem loadCanonicalRoots_inside {tree : Digest → TreeObject → Prop}
    {file : Digest → Contents → Prop} {waits link : Digest → Prop}
    (hallows : Allows codec store tree file waits link)
    (h : loadCanonicalRootsWithBudget codec store treeRoots directSymlinks budget =
      .ok (objects, left)) (hroots : ∀ root ∈ treeRoots, waits root)
    (hlinks : ∀ digest ∈ directSymlinks, link digest) :
    (∀ digest found, objects.trees.get? digest = some found → tree digest found) ∧
      (∀ digest found, objects.files.get? digest = some found → file digest found) ∧
      ∀ digest t, objects.symlinks.get? digest = some t → link digest := by
  obtain ⟨state, hloaded, hsymlinks, -⟩ := loadCanonicalRoots_ok h
  have hinside := Inside.loadTreeRoots hallows
    (fun root hroot => hroots root (mem_sortedSet.1 hroot))
    ⟨fun _ _ h => by simp [empty] at h,
      fun _ _ h => by simp [empty] at h, (fun _ h => by cases h), hlinks, rfl⟩
    hloaded
  obtain ⟨-, -, htrees, hfiles, horigin⟩ := loadSymlinks_ok hsymlinks
  refine ⟨?_, ?_, ?_⟩
  · intro digest found hget
    exact hinside.trees digest found (htrees ▸ hget)
  · intro digest found hget
    exact hinside.files digest found (hfiles ▸ hget)
  · intro digest t hget
    rcases horigin digest t hget with hget | ⟨hmem, -⟩
    · rw [hinside.noLinks] at hget
      cases hget
    · exact hinside.symlinks digest (mem_sortedSet.1 hmem)

/-! ## 5. Two stores with the same objects -/

/-- Another store holds the same files under the names of some objects. -/
structure SameObjects (store next : ObjectStore) (objects : CanonicalObjects) : Prop where
  trees : ∀ digest, objects.trees.contains digest = true →
    next.trees.get? digest = store.trees.get? digest
  files : ∀ digest, objects.files.contains digest = true →
    next.files.get? digest = store.files.get? digest
  symlinks : ∀ digest, objects.symlinks.contains digest = true →
    next.symlinks.get? digest = store.symlinks.get? digest

theorem SameObjects.mono {next : ObjectStore} {smaller larger : CanonicalObjects}
    (h : SameObjects store next larger) (hext : Extends smaller larger) :
    SameObjects store next smaller :=
  ⟨fun digest hmem => h.trees digest (hext.reached_tree hmem),
    fun digest hmem => h.files digest (hext.reached_file hmem),
    fun digest hmem => h.symlinks digest (hext.reached_symlink hmem)⟩

section Same

variable {next : ObjectStore}

theorem loadEntry_same {e : TreeEntry} (h : loadEntry codec store top state e = .ok after)
    (hsame : SameObjects store next after.objects) :
    loadEntry codec next top state e = .ok after := by
  obtain ⟨hreached, -⟩ := loadEntry_ok h
  rw [← h]
  unfold loadEntry
  cases hkind : e.kind with
  | file digest byteLen =>
    rw [Reached, hkind] at hreached
    simp only [loadFileEntry, loadFileObject, hsame.files digest hreached]
  | directory digest => rfl
  | symlink digest => rfl

theorem loadEntries_same :
    ∀ {es : List TreeEntry} {state after : LoadState},
      es.foldlM (loadEntry codec store top) state = .ok after →
      SameObjects store next after.objects →
      es.foldlM (loadEntry codec next top) state = .ok after
  | [], state, after, h, _ => h
  | entry :: es, state, after, h, hsame => by
    rw [foldlM_cons, bind_ok] at h ⊢
    obtain ⟨mid, hentry, hrest⟩ := h
    obtain ⟨hgrows, -⟩ := loadEntries_grows hrest
    exact ⟨mid, loadEntry_same hentry (hsame.mono hgrows.objects),
      loadEntries_same hrest hsame⟩

theorem fetchTree_same {tree : TreeObject}
    (h : fetchTree codec store state digest = .ok (tree, after))
    (hsame : SameObjects store next after.objects) :
    fetchTree codec next state digest = .ok (tree, after) := by
  obtain ⟨hget, -⟩ := fetchTree_ok h
  rw [← h]
  unfold fetchTree loadTreeObject
  rw [hsame.trees digest (contains_of_get? hget)]

theorem loadPending_same {items : Nat} {state after : LoadState} (hcomplete : Complete state)
    (h : loadPending codec store items state = .ok after)
    (hsame : SameObjects store next after.objects) :
    loadPending codec next items state = .ok after := by
  cases hpend : state.pending with
  | nil => rwa [loadPending_nil hpend] at h ⊢
  | cons top rest =>
    obtain ⟨left, budget, tree, fetched, mid, rfl, hcharge, hfetch, hentries, hrest⟩ :=
      loadPending_cons_ok hpend h
    obtain ⟨hmiddle, -⟩ := complete_turn hpend hcomplete hfetch hentries
    obtain ⟨-, -, hext, -, -⟩ := loadPending_complete hmiddle hrest
    obtain ⟨hgrows, -⟩ := loadEntries_grows hentries
    have hsame' := hsame.mono hext
    rw [loadPending, hpend]
    simp only [bind_ok]
    exact ⟨budget, hcharge, (tree, fetched), fetchTree_same hfetch (hsame'.mono hgrows.objects), mid,
      loadEntries_same hentries hsame', loadPending_same hmiddle hrest hsame⟩

theorem loadTreeRoots_same : ∀ {roots : List Digest} {state after : LoadState},
    state.pending = [] → Complete state →
      roots.foldlM (loadTreeRoot codec store) state = .ok after →
      SameObjects store next after.objects →
      roots.foldlM (loadTreeRoot codec next) state = .ok after
  | [], _, _, _, _, h, _ => h
  | root :: roots, state, after, hpend, hcomplete, h, hsame => by
    rw [foldlM_cons, bind_ok] at h ⊢
    obtain ⟨mid, hroot, hrest⟩ := h
    obtain ⟨hmiddle, hnil, -⟩ := loadTreeRoot_complete hpend hcomplete hroot
    obtain ⟨-, -, hext, -⟩ := loadTreeRoots_complete hnil hmiddle hrest
    exact ⟨mid, loadPending_same (hcomplete.start hpend root) hroot (hsame.mono hext),
      loadTreeRoots_same hnil hmiddle hrest hsame⟩

theorem loadSymlinks_same : ∀ {ds : List Digest} {objects after : CanonicalObjects}
    {budget left : CanonicalLoadBudget},
    ds.foldlM (loadSymlink codec store) (objects, budget) = .ok (after, left) →
      SameObjects store next after →
      ds.foldlM (loadSymlink codec next) (objects, budget) = .ok (after, left)
  | [], _, _, _, _, h, _ => h
  | digest :: ds, objects, after, budget, left, h, hsame => by
    rw [foldlM_cons, bind_ok] at h ⊢
    obtain ⟨⟨mid, between⟩, hfirst, hrest⟩ := h
    obtain ⟨hloaded, -⟩ := loadSymlink_ok hfirst
    obtain ⟨-, hext, -⟩ := loadSymlinks_ok hrest
    refine ⟨(mid, between), ?_, loadSymlinks_same hrest hsame⟩
    rw [← hfirst]
    unfold loadSymlink loadSymlinkObject
    rw [hsame.symlinks digest (hext.reached_symlink hloaded)]

/-- **The loader on another store** that holds the loaded objects. -/
theorem loadCanonicalRoots_same
    (h : loadCanonicalRootsWithBudget codec store treeRoots directSymlinks budget =
      .ok (objects, left)) (hsame : SameObjects store next objects) :
    loadCanonicalRootsWithBudget codec next treeRoots directSymlinks budget =
      .ok (objects, left) := by
  obtain ⟨state, hroots, hlinks, hvalid⟩ := loadCanonicalRoots_ok h
  obtain ⟨-, hext, -⟩ := loadSymlinks_ok hlinks
  have hroots' : (sortedSet treeRoots).foldlM (loadTreeRoot codec next)
      ⟨.empty, directSymlinks, budget, [], 0, 0⟩ = .ok state :=
    loadTreeRoots_same rfl (fun _ _ h => by simp [empty] at h) hroots
      (hsame.mono hext)
  unfold loadCanonicalRootsWithBudget
  simp only [hroots', ok_bind, loadSymlinks_same hlinks hsame, bind_ok,
    exists_unit, forM_ok, mem_sortedSet, asInvalidObject, mapError_ok]
  exact ⟨hvalid, rfl⟩

end Same

end Malm.Commit
