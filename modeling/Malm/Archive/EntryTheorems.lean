/-
Malm.Archive.EntryTheorems — an entry of an archive is a list of effects.

The work that a header is charged for depends on the header alone, and a path is placed
by one touch for each parent and one for the entry itself. Decoding an entry is the run of
its `entryEffects` (`parseEntry_iff`).
-/
import Malm.Archive.Effects

namespace Malm.Archive

open Malm.Tree Updates Checks List Option Except Effect SortedMap Focus

variable {blockIndex count readsAfter : Nat}

/-! ## 1. Headers without a state -/

def readHeader (limits : ArchiveLimits) (block : List UInt8) (blockIndex : Nat) :
    Except ArchiveDecodeError Header := do
  let (mode, size) ← parseMetadata block blockIndex
  let typeflag := block[156]?.getD 0
  checkTypeflag blockIndex typeflag
  let path ← parseHeaderPath block blockIndex
  let components ← validatePath limits path blockIndex
  let link ← fieldBytes (field block 157 257) blockIndex
    "link name has bytes after its NUL terminator"
  let kind ← parseKind limits blockIndex typeflag path components mode size link
  return ⟨path, components, mode, size, kind⟩

theorem parseHeader_ok {sha256 : List UInt8 → Digest} {limits : ArchiveLimits}
    {block : List UInt8} {state after : ParseState sha256} {header : Header} :
    parseHeader limits block blockIndex state = .ok (header, after) ↔
      readHeader limits block blockIndex = .ok header ∧
        ∃ charged, state.chargeWork limits header.components.length = .ok charged ∧
          charged.chargeTarget limits header.kind = .ok after := by
  simp only [parseHeader, readHeader, bind_ok, exists_unit, pure_ok, Prod.exists, Prod.mk.injEq]
  constructor
  · rintro ⟨mode, size, hmetadata, htype, path, hpath, components, hcomps, charged, hcharged,
      link, hlink, kind, hkind, final, hfinal, rfl, rfl⟩
    exact ⟨⟨mode, size, hmetadata, htype, path, hpath, components, hcomps, link, hlink, kind,
      hkind, rfl⟩, charged, hcharged, hfinal⟩
  · rintro ⟨⟨mode, size, hmetadata, htype, path, hpath, components, hcomps, link, hlink, kind,
      hkind, rfl⟩, charged, hcharged, hfinal⟩
    exact ⟨mode, size, hmetadata, htype, path, hpath, components, hcomps, charged, hcharged,
      link, hlink, kind, hkind, after, hfinal, rfl, rfl⟩

theorem parseOctalDigits_index (digits : List UInt8) (first second : Nat) (reason : String) :
    SameOk (parseOctalDigits digits first reason) (parseOctalDigits digits second reason) :=
  SameOk.foldlM fun _ _ _ => SameOk.bind SameOk.reject fun _ => SameOk.refl _

section

variable (bytes : List UInt8) (first second : Nat)
include bytes first second

theorem parseOctal_index (reason : String) :
    SameOk (parseOctal bytes first reason) (parseOctal bytes second reason) :=
  SameOk.bind SameOk.require fun _ => SameOk.bind SameOk.reject fun _ =>
    parseOctalDigits_index _ _ _ _

theorem parseOptionalOctal_index (reason : String) :
    SameOk (parseOptionalOctal bytes first reason) (parseOptionalOctal bytes second reason) :=
  SameOk.ite (SameOk.refl _) (parseOctal_index _ _ _ _)

theorem fieldBytes_index (reason : String) :
    SameOk (fieldBytes bytes first reason) (fieldBytes bytes second reason) :=
  SameOk.bind SameOk.reject fun _ => SameOk.refl _

theorem validateIgnoredText_index (reason ignored : String) :
    SameOk (validateIgnoredText bytes first reason ignored)
      (validateIgnoredText bytes second reason ignored) :=
  SameOk.bind (fieldBytes_index _ _ _ _) fun _ => SameOk.bind SameOk.require fun _ =>
    SameOk.reject

end

theorem verifyChecksum_index (block : List UInt8) (first second : Nat) :
    SameOk (verifyChecksum block first) (verifyChecksum block second) :=
  SameOk.bind SameOk.reject fun _ => SameOk.bind (parseOctalDigits_index _ _ _ _) fun _ =>
    SameOk.reject

theorem parseMetadata_index (block : List UInt8) (first second : Nat) :
    SameOk (parseMetadata block first) (parseMetadata block second) := by
  refine SameOk.bind (verifyChecksum_index _ _ _) fun _ => ?_
  refine SameOk.bind SameOk.reject fun _ => SameOk.bind SameOk.reject fun _ =>
    SameOk.bind SameOk.reject fun _ => ?_
  refine SameOk.bind (parseOctal_index _ _ _ _) fun mode => SameOk.bind SameOk.reject fun _ => ?_
  refine SameOk.bind (parseOctal_index _ _ _ _) fun _ => ?_
  refine SameOk.bind (parseOctal_index _ _ _ _) fun _ => ?_
  refine SameOk.bind (parseOctal_index _ _ _ _) fun size => ?_
  refine SameOk.bind (parseOctal_index _ _ _ _) fun _ => ?_
  refine SameOk.bind (validateIgnoredText_index _ _ _ _ _) fun _ => ?_
  refine SameOk.bind (validateIgnoredText_index _ _ _ _ _) fun _ => ?_
  refine SameOk.bind (parseOptionalOctal_index _ _ _ _) fun _ =>
    SameOk.bind SameOk.reject fun _ => ?_
  refine SameOk.bind (parseOptionalOctal_index _ _ _ _) fun _ =>
    SameOk.bind SameOk.reject fun _ => ?_
  exact SameOk.refl _

theorem checkTypeflag_index (first second : Nat) (typeflag : UInt8) :
    SameOk (checkTypeflag first typeflag) (checkTypeflag second typeflag) :=
  SameOk.ite SameOk.error (SameOk.ite SameOk.error (SameOk.ite SameOk.error
    (SameOk.ite SameOk.error (SameOk.ite (SameOk.refl _) SameOk.error))))

theorem parseHeaderPath_index (block : List UInt8) (first second : Nat) :
    SameOk (parseHeaderPath block first) (parseHeaderPath block second) :=
  SameOk.bind (fieldBytes_index _ _ _ _) fun _ => SameOk.bind SameOk.reject fun _ =>
    SameOk.bind (fieldBytes_index _ _ _ _) fun _ => SameOk.bind SameOk.require fun _ =>
      SameOk.bind SameOk.require fun _ => SameOk.refl _

theorem validatePath_index (limits : ArchiveLimits) (path : Text) (first second : Nat) :
    SameOk (validatePath limits path first) (validatePath limits path second) := by
  refine SameOk.bind SameOk.reject fun _ => SameOk.bind SameOk.reject fun _ =>
    SameOk.bind SameOk.reject fun _ => SameOk.bind (SameOk.refl _) fun _ => ?_
  refine SameOk.bind (SameOk.forM fun comp => ?_) fun _ => SameOk.refl _
  exact SameOk.bind SameOk.reject fun _ => SameOk.bind SameOk.reject fun _ => SameOk.refl _

theorem parseKind_index (limits : ArchiveLimits) (first second : Nat) (typeflag : UInt8)
    (path : Text) (components : List Text) (mode : BitVec 32) (size : Nat) (link : List UInt8) :
    SameOk (parseKind limits first typeflag path components mode size link)
      (parseKind limits second typeflag path components mode size link) := by
  refine SameOk.ite ?_ (SameOk.ite ?_ ?_)
  · exact SameOk.bind SameOk.reject fun _ => SameOk.refl _
  · exact SameOk.bind SameOk.reject fun _ => SameOk.bind SameOk.reject fun _ => SameOk.refl _
  · exact SameOk.bind SameOk.reject fun _ => SameOk.refl _

theorem readHeader_index (limits : ArchiveLimits) (block : List UInt8) (first second : Nat) :
    SameOk (readHeader limits block first) (readHeader limits block second) := by
  refine SameOk.bind (parseMetadata_index _ _ _) fun metadata => ?_
  refine SameOk.bind (checkTypeflag_index _ _ _) fun _ => ?_
  refine SameOk.bind (parseHeaderPath_index _ _ _) fun _ => ?_
  refine SameOk.bind (validatePath_index _ _ _ _) fun _ => ?_
  refine SameOk.bind (fieldBytes_index _ _ _ _) fun _ => ?_
  exact SameOk.bind (parseKind_index _ _ _ _ _ _ _ _ _) fun _ => SameOk.refl _

/-! ## 2. Steps that perform effects -/

variable {sha256 : List UInt8 → ObjectDigest} {limits : ArchiveLimits}
  {state after : ParseState (hash sha256)}

section Performs

/-- The effects succeed on the states of the step, and it charges no reads. -/
def Performs (sha256 : List UInt8 → ObjectDigest) (limits : ArchiveLimits) (effects : List Effect)
    (step : ParseState (hash sha256) → Except ArchiveDecodeError (ParseState (hash sha256))) :
    Prop :=
  ∀ state reads next, run (Effect.apply sha256 limits) effects ⟨state, reads⟩ = some next ↔
    ∃ after, step state = .ok after ∧ next = ⟨after, reads⟩

theorem performs_nil : Performs sha256 limits [] .ok := by
  intro state reads next
  simp [eq_comm]

theorem Performs.append {front behind : List Effect} {first second : ParseState (hash sha256) →
      Except ArchiveDecodeError (ParseState (hash sha256))}
    (hfirst : Performs sha256 limits front first)
    (hsecond : Performs sha256 limits behind second) :
    Performs sha256 limits (front ++ behind) fun state => first state >>= second := by
  intro state reads next
  rw [run_append, bind_eq_some_iff]
  simp only [hfirst state reads, bind_ok]
  constructor
  · rintro ⟨mid, ⟨after, hafter, rfl⟩, hnext⟩
    obtain ⟨final, hfinal, rfl⟩ := (hsecond after reads next).1 hnext
    exact ⟨final, ⟨after, hafter, hfinal⟩, rfl⟩
  · rintro ⟨final, ⟨after, hafter, hfinal⟩, rfl⟩
    exact ⟨_, ⟨after, hafter, rfl⟩, (hsecond after reads _).2 ⟨final, hfinal, rfl⟩⟩

theorem run_singleton (effect : Effect) (progress : Progress (hash sha256)) :
    run (apply sha256 limits) [effect] progress = effect.apply sha256 limits progress := by
  rw [run_cons]
  cases h : effect.apply sha256 limits progress <;> rfl

theorem performs_charge {counter : Counter} (resource : ArchiveResource)
    (get : ParseState (hash sha256) → Nat)
    (set : Nat → ParseState (hash sha256) → ParseState (hash sha256))
    (hget : ∀ state reads, (counter.focus sha256).get ⟨state, reads⟩ = get state)
    (hset : ∀ count state reads,
      (counter.focus sha256).set count ⟨state, reads⟩ = ⟨set count state, reads⟩) (amount : Nat) :
    Performs sha256 limits [.charge counter amount] fun state => do
      let count ← charge (get state) amount resource (counter.limit limits)
      return set count state := by
  intro state reads next
  rw [run_singleton]
  simp only [apply, lift, map_eq_some_iff, bind_ok, pure_ok, hget, hset, ← chargeCount_eq_some _]
  constructor
  · rintro ⟨count, hcount, rfl⟩
    exact ⟨_, ⟨count, hcount, rfl⟩, rfl⟩
  · rintro ⟨_, ⟨count, hcount, rfl⟩, rfl⟩
    exact ⟨count, hcount, rfl⟩

theorem performs_work (amount : Nat) :
    Performs sha256 limits [.charge .work amount] fun state => state.chargeWork limits amount :=
  performs_charge .workUnits (fun state => state.workUnits)
    (fun count state => { state with workUnits := count }) (fun _ _ => rfl) (fun _ _ _ => rfl)
    amount

theorem performs_metadata :
    Performs sha256 limits [.charge .metadata ustarBlockBytes, .charge .work 1]
      fun state => state.chargeMetadataBlock limits := by
  have hcharge : Performs sha256 limits [.charge .metadata ustarBlockBytes] fun state => do
      let count ← charge state.metadataBytes ustarBlockBytes .metadataBytes
        limits.maxMetadataBytes
      return { state with metadataBytes := count } :=
    performs_charge .metadataBytes (fun state => state.metadataBytes)
      (fun count state => { state with metadataBytes := count }) (fun _ _ => rfl)
      (fun _ _ _ => rfl) ustarBlockBytes
  intro state reads next
  refine (hcharge.append (performs_work 1) state reads next).trans ?_
  simp [ParseState.chargeMetadataBlock]

def targetEffects : HeaderKind → List Effect
  | .symlink target => [.charge .work (Text.segments target).length]
  | _ => []

theorem performs_target (kind : HeaderKind) :
    Performs sha256 limits (targetEffects kind) fun state => state.chargeTarget limits kind := by
  cases kind with
  | file => exact performs_nil
  | directory => exact performs_nil
  | symlink t => exact performs_work _

theorem performs_ensureDirectory (path : Text) (parent : List Text) :
    Performs sha256 limits [.touch parent .parent]
      fun state => ensureDirectory limits path state parent := by
  intro state reads next
  rw [run_singleton, Effect.apply, lift]
  simp only [treeFocus, touchNode, ensureDirectory]
  cases hnode : state.nodes.get? parent with
  | none =>
    simp only [Touch.apply, SortedMap.contains, hnode, chargeUnless, bind_some, bind_ok,
      pure_ok, map_eq_some_iff, ← chargeCount_eq_some _]
    constructor
    · rintro ⟨_, ⟨count, hcount, rfl⟩, rfl⟩
      exact ⟨_, ⟨count, by simpa using hcount, rfl⟩, rfl⟩
    · rintro ⟨_, ⟨count, hcount, rfl⟩, rfl⟩
      exact ⟨_, ⟨count, by simpa using hcount, rfl⟩, rfl⟩
  | some node =>
    cases node with
    | file mode d byteLen => simp [Touch.apply]
    | symlink d => simp [Touch.apply]
    | directory mode explicit =>
      simp [Touch.apply, SortedMap.contains, hnode, chargeUnless,
        SortedMap.insert_of_get?_eq_some hnode, eq_comm]

theorem performs_ensureParents (path : Text) (components : List Text) :
    Performs sha256 limits ((ancestorLists components).map (.touch · .parent))
      fun state => ensureParents limits path components state := by
  unfold ensureParents
  induction ancestorLists components with
  | nil => exact performs_nil
  | cons parent rest ih => exact (performs_ensureDirectory path parent).append ih

/-! ## 3. Leaves -/

def IsDirectory (nodes : SortedMap (List Text) Node) (place : List Text) : Prop :=
  ∃ mode explicit, nodes.get? place = some (.directory mode explicit)

variable {path : Text} {components : List Text} {leaf : Leaf}

theorem ensureDirectory_isDirectory {parent : List Text}
    (h : ensureDirectory limits path state parent = .ok after) :
    IsDirectory after.nodes parent ∧
      ∀ place, IsDirectory state.nodes place → IsDirectory after.nodes place := by
  unfold ensureDirectory at h
  cases hnode : state.nodes.get? parent with
  | none =>
    simp only [hnode, bind_ok, pure_ok] at h
    obtain ⟨count, -, rfl⟩ := h
    refine ⟨⟨_, _, by simp; exact ⟨rfl, rfl⟩⟩, ?_⟩
    rintro place ⟨mode, explicit, hplace⟩
    have hne : place ≠ parent := by
      rintro rfl
      rw [hnode] at hplace
      cases hplace
    exact ⟨mode, explicit, by simpa [hne] using hplace⟩
  | some node =>
    cases node with
    | file mode d byteLen => simp [hnode] at h
    | symlink d => simp [hnode] at h
    | directory mode explicit =>
      simp only [hnode, ok.injEq] at h
      subst h
      exact ⟨⟨mode, explicit, hnode⟩, fun _ hplace => hplace⟩

theorem foldlM_ensureDirectory_isDirectory :
    ∀ {parents : List (List Text)} {state after : ParseState (hash sha256)},
      parents.foldlM (ensureDirectory limits path) state = .ok after →
        (∀ place, IsDirectory state.nodes place → IsDirectory after.nodes place) ∧
          ∀ parent ∈ parents, IsDirectory after.nodes parent
  | [], state, after, h => by
    cases h
    exact ⟨fun _ hplace => hplace, by simp⟩
  | first :: rest, state, after, h => by
    rw [foldlM_cons, bind_ok] at h
    obtain ⟨mid, hmiddle, hafter⟩ := h
    obtain ⟨hfirst, hkept⟩ := ensureDirectory_isDirectory hmiddle
    obtain ⟨hrest, hparents⟩ := foldlM_ensureDirectory_isDirectory hafter
    refine ⟨fun place hplace => hrest place (hkept place hplace), fun parent hparent => ?_⟩
    rcases mem_cons.1 hparent with rfl | hparent
    · exact hrest _ hfirst
    · exact hparents parent hparent

theorem ensureParents_of_isDirectory
    (h : ∀ parent ∈ ancestorLists components, IsDirectory state.nodes parent) :
    ensureParents limits path components state = .ok state := by
  unfold ensureParents
  generalize ancestorLists components = parents at h ⊢
  induction parents with
  | nil => rfl
  | cons first rest ih =>
    obtain ⟨mode, explicit, hnode⟩ := h first mem_cons_self
    have hfirst : ensureDirectory limits path state first = .ok state := by
      simp [ensureDirectory, hnode]
    rw [foldlM_cons, hfirst, ok_bind]
    exact ih fun parent hparent => h parent (mem_cons_of_mem _ hparent)

theorem reserveLeafPath_ok :
    reserveLeafPath limits path components state = .ok after ↔
      ensureParents limits path components state = .ok after ∧
        after.nodes.get? components = none ∧
          saturatingAdd after.logicalEntries 1 ≤ limits.entries := by
  rw [reserveLeafPath, bind_ok]
  constructor
  · rintro ⟨mid, hparents, h⟩
    cases hnode : mid.nodes.get? components with
    | none =>
      simp only [hnode, checkArchiveLimit, bind_ok, exists_unit, reject_ok, pure_ok, not_lt] at h
      obtain ⟨hle, rfl⟩ := h
      exact ⟨hparents, hnode, hle⟩
    | some node =>
      -- whatever stands at the place, nothing can be inserted there
      cases node with
      | file mode d byteLen => simp [hnode] at h
      | symlink d => simp [hnode] at h
      | directory mode explicit =>
        by_cases hchildren : hasChildren mid.nodes components = true <;>
          simp [hnode, hchildren] at h
  · rintro ⟨hparents, hnone, hle⟩
    refine ⟨after, hparents, ?_⟩
    simp only [hnone, checkArchiveLimit, bind_ok, exists_unit, reject_ok, pure_ok, not_lt, and_true]
    exact hle

theorem insertLeaf_ok (reads : Nat)
    (h : ∀ parent ∈ ancestorLists components, IsDirectory state.nodes parent) :
    insertLeaf limits path components leaf.node state = .ok after ↔
      (touch components (.leaf leaf)).apply sha256 limits ⟨state, reads⟩ =
        some ⟨after, reads⟩ := by
  rw [insertLeaf, ensureParents_of_isDirectory h, ok_bind, apply, lift]
  simp only [treeFocus, touchNode]
  cases hnode : state.nodes.get? components with
  | none =>
    have hcontains : state.nodes.contains components = false := by
      simp [SortedMap.contains, hnode]
    simp only [Touch.apply, hcontains, chargeUnless, bind_some, bind_ok, exists_unit,
      reject_ok, pure_ok, map_eq_some_iff, ← chargeCount_eq_some _]
    constructor
    · rintro ⟨-, count, hcount, rfl⟩
      exact ⟨_, ⟨count, by simpa using hcount, rfl⟩, rfl⟩
    · rintro ⟨_, ⟨count, hcount, rfl⟩, heq⟩
      cases heq
      exact ⟨by simp, count, by simpa using hcount, rfl⟩
  | some node =>
    have hcontains : state.nodes.contains components = true := by
      simp [SortedMap.contains, hnode]
    simp [Touch.apply, hcontains, reject, error_bind]

theorem apply_leaf_free {progress next : Progress (hash sha256)}
    (h : (Effect.touch components (.leaf leaf)).apply sha256 limits progress = some next) :
    progress.reads = next.reads ∧ progress.state.nodes.get? components = none ∧
      saturatingAdd progress.state.logicalEntries 1 ≤ limits.entries := by
  simp only [Effect.apply, lift, treeFocus, touchNode, map_eq_some_iff, bind_eq_some_iff] at h
  obtain ⟨_, ⟨node, hnode, count, hcount, rfl⟩, rfl⟩ := h
  cases hplace : progress.state.nodes.get? components with
  | some found =>
    rw [hplace] at hnode
    cases hnode
  | none =>
    refine ⟨rfl, rfl, ?_⟩
    simp only [SortedMap.contains, hplace, chargeUnless, chargeCount] at hcount
    by_contra hlimit
    simp [hlimit] at hcount

/-- An effect that leaves the places alone. -/
def Effect.isPlain : Effect → Bool
  | .touch _ _ => false
  | _ => true

theorem Effect.apply_isPlain {effect : Effect} (h : effect.isPlain = true)
    {progress next : Progress (hash sha256)}
    (hnext : effect.apply sha256 limits progress = some next) :
    next.state.nodes = progress.state.nodes ∧
      next.state.logicalEntries = progress.state.logicalEntries := by
  cases effect with
  | charge counter amount =>
    simp only [apply, lift, map_eq_some_iff] at hnext
    obtain ⟨count, -, rfl⟩ := hnext
    cases counter <;> exact ⟨rfl, rfl⟩
  | touch place touched => cases h
  | store obj =>
    simp only [apply, lift, map_eq_some_iff] at hnext
    obtain ⟨store, -, rfl⟩ := hnext
    exact ⟨rfl, rfl⟩

theorem run_isPlain :
    ∀ {effects : List Effect} {progress next : Progress (hash sha256)},
      (∀ effect ∈ effects, effect.isPlain = true) →
        run (apply sha256 limits) effects progress = some next →
          next.state.nodes = progress.state.nodes ∧
            next.state.logicalEntries = progress.state.logicalEntries
  | [], progress, next, _, h => by
    cases h
    exact ⟨rfl, rfl⟩
  | first :: rest, progress, next, hplain, h => by
    rw [run_cons, bind_eq_some_iff] at h
    obtain ⟨mid, hmiddle, hnext⟩ := h
    obtain ⟨hnodes, hcount⟩ := apply_isPlain (hplain first mem_cons_self) hmiddle
    obtain ⟨hrest, hrestCount⟩ :=
      run_isPlain (fun effect heffect => hplain effect (mem_cons_of_mem _ heffect)) hnext
    exact ⟨hrest.trans hnodes, hrestCount.trans hcount⟩

def parentTouches (components : List Text) : List Effect :=
  (ancestorLists components).map (.touch · .parent)

theorem place_leaf (path : Text) {between : List Effect}
    (hplain : ∀ effect ∈ between, effect.isPlain = true) {reads : Nat} :
    run (apply sha256 limits)
        (parentTouches components ++ between ++ [.touch components (.leaf leaf)])
        ⟨state, reads⟩ = some ⟨after, readsAfter⟩ ↔
      ∃ reserved, reserveLeafPath limits path components state = .ok reserved ∧
        ∃ mid, run (apply sha256 limits) between ⟨reserved, reads⟩ =
            some ⟨mid, readsAfter⟩ ∧
          insertLeaf limits path components leaf.node mid = .ok after := by
  rw [run_append, run_append, bind_eq_some_iff]
  simp only [bind_eq_some_iff, parentTouches, run_singleton,
    performs_ensureParents path components state reads _]
  constructor
  · rintro ⟨⟨mid, readsMiddle⟩, ⟨_, ⟨reserved, hparents, rfl⟩, hbetween⟩, hleaf⟩
    obtain ⟨hnodes, hcount⟩ := run_isPlain hplain hbetween
    obtain ⟨rfl, hfree, hroom⟩ := apply_leaf_free hleaf
    refine ⟨reserved, reserveLeafPath_ok.2 ⟨hparents, ?_, ?_⟩, mid, hbetween, ?_⟩
    · rw [← hnodes]
      exact hfree
    · rw [← hcount]
      exact hroom
    · refine (insertLeaf_ok readsMiddle fun parent hparent => ?_).2 hleaf
      rw [hnodes]
      exact (foldlM_ensureDirectory_isDirectory hparents).2 parent hparent
  · rintro ⟨reserved, hreserved, mid, hmiddle, hleaf⟩
    obtain ⟨hparents, -, -⟩ := reserveLeafPath_ok.1 hreserved
    obtain ⟨hnodes, -⟩ := run_isPlain hplain hmiddle
    refine ⟨_, ⟨_, ⟨reserved, hparents, rfl⟩, hmiddle⟩, ?_⟩
    refine (insertLeaf_ok readsAfter fun parent hparent => ?_).1 hleaf
    rw [hnodes]
    exact (foldlM_ensureDirectory_isDirectory hparents).2 parent hparent

/-! ## 4. Objects and directories -/

theorem storeObject_eq_some {limit : Nat} {obj : StoredObject}
    {store next : ObjectAccumulator (hash sha256) × Nat} :
    storeObject sha256 limit obj store = some next ↔
      ∃ objectBytes, store.1.admitObject (sha256 obj.bytes) obj.bytes
          (obj.isStored (sha256 obj.bytes) store.1) store.2 limit = .ok objectBytes ∧
        (obj.put (sha256 obj.bytes) store.1, objectBytes) = next := by
  by_cases hrefused :
      (store.1.bytesForDigest (sha256 obj.bytes)).any (· ≠ obj.bytes) = true
  · rw [storeObject, if_pos hrefused]
    simp only [ObjectAccumulator.admitObject, reject, if_pos hrefused, error_bind]
    simp
  · have hadm : store.1.admitObject (sha256 obj.bytes) obj.bytes
        (obj.isStored (sha256 obj.bytes) store.1) store.2 limit =
        if obj.isStored (sha256 obj.bytes) store.1 then .ok store.2
        else charge store.2 obj.bytes.length .objectBytes limit := by
      simp only [ObjectAccumulator.admitObject, reject, if_neg hrefused, ok_bind]
      rfl
    rw [storeObject, if_neg hrefused, hadm, map_eq_some_iff]
    refine exists_congr fun objectBytes => and_congr ?_ Iff.rfl
    unfold chargeUnless
    split
    · simp
    · exact chargeCount_eq_some _

theorem performs_insertFile (bytes : List UInt8) :
    Performs sha256 limits [.store (.file bytes)] (insertFile limits (sha256 bytes) bytes) := by
  intro state reads next
  simp only [run_singleton, apply, lift, map_eq_some_iff, storeObject_eq_some,
    insertFile, bind_ok, pure_ok]
  constructor
  · rintro ⟨_, ⟨objectBytes, hadm, rfl⟩, rfl⟩
    exact ⟨_, ⟨objectBytes, hadm, rfl⟩, rfl⟩
  · rintro ⟨_, ⟨objectBytes, hadm, rfl⟩, rfl⟩
    exact ⟨_, ⟨objectBytes, hadm, rfl⟩, rfl⟩

theorem performs_insertSymlink (obj : SymlinkObject) :
    Performs sha256 limits [.store (.symlink obj)]
      (insertSymlink limits (sha256 (encodeSymlinkObject obj)) obj
        (encodeSymlinkObject obj)) := by
  intro state reads next
  simp only [run_singleton, apply, lift, map_eq_some_iff, storeObject_eq_some,
    insertSymlink, bind_ok, pure_ok]
  constructor
  · rintro ⟨_, ⟨objectBytes, hadm, rfl⟩, rfl⟩
    exact ⟨_, ⟨objectBytes, hadm, rfl⟩, rfl⟩
  · rintro ⟨_, ⟨objectBytes, hadm, rfl⟩, rfl⟩
    exact ⟨_, ⟨objectBytes, hadm, rfl⟩, rfl⟩

/-- What `insertDirectoryEntry` does below the parents. -/
def placeDirectory (limits : ArchiveLimits) (header : Header) (state : ParseState (hash sha256)) :
    Except ArchiveDecodeError (ParseState (hash sha256)) :=
  match state.nodes.get? header.components with
  | none => do
    let logicalEntries ← charge state.logicalEntries 1 .entries limits.entries
    return { state with
      nodes := state.nodes.insert header.components (.directory header.mode true)
      logicalEntries := logicalEntries }
  | some (.directory _ false) =>
    return { state with
      nodes := state.nodes.insert header.components (.directory header.mode true) }
  | some (.directory _ true) => .error (.duplicatePath header.path)
  | some _ => .error (.pathKindCollision header.path)

theorem performs_insertDirectoryEntry (header : Header) :
    Performs sha256 limits
      (parentTouches header.components ++ [.touch header.components (.directory header.mode)])
      (insertDirectoryEntry limits header) := by
  have htouch : Performs sha256 limits [.touch header.components (.directory header.mode)]
      (placeDirectory limits header) := by
    intro state reads next
    rw [run_singleton, Effect.apply, lift, placeDirectory]
    simp only [treeFocus, touchNode]
    cases hnode : state.nodes.get? header.components with
    | none =>
      simp only [Touch.apply, SortedMap.contains, hnode, chargeUnless, bind_some, bind_ok,
        pure_ok, map_eq_some_iff, ← chargeCount_eq_some _]
      constructor
      · rintro ⟨_, ⟨count, hcount, rfl⟩, rfl⟩
        exact ⟨_, ⟨count, by simpa using hcount, rfl⟩, rfl⟩
      · rintro ⟨_, ⟨count, hcount, rfl⟩, rfl⟩
        exact ⟨_, ⟨count, by simpa using hcount, rfl⟩, rfl⟩
    | some node =>
      cases node with
      | file mode d byteLen => simp [Touch.apply]
      | symlink d => simp [Touch.apply]
      | directory mode explicit =>
        cases explicit with
        | true => simp [Touch.apply]
        | false =>
          simp [Touch.apply, SortedMap.contains, hnode, chargeUnless, pure_eq, eq_comm]
  exact (performs_ensureParents header.path header.components).append htouch

theorem insertSymlinkEntry_iff {header : Header} {t : Text} {reads : Nat} :
    (insertSymlinkEntry sha256 limits header t state = .ok after ∧ readsAfter = reads) ↔
      ∃ obj, SymlinkObject.new t = .ok obj ∧
        run (apply sha256 limits)
          (parentTouches header.components ++ [.store (.symlink obj)] ++
            [.touch header.components (.leaf (.symlink (sha256 (encodeSymlinkObject obj))))])
          ⟨state, reads⟩ = some ⟨after, readsAfter⟩ := by
  simp only [insertSymlinkEntry, bind_ok, mapError_ok]
  constructor
  · rintro ⟨⟨reserved, hreserved, obj, hobj, stored, hstored, hleaf⟩, rfl⟩
    refine ⟨obj, hobj, (place_leaf header.path (by simp [isPlain])).2 ?_⟩
    exact ⟨reserved, hreserved, stored,
      (performs_insertSymlink obj reserved readsAfter _).2 ⟨stored, hstored, rfl⟩, hleaf⟩
  · rintro ⟨obj, hobj, hrun⟩
    obtain ⟨reserved, hreserved, stored, hstored, hleaf⟩ :=
      (place_leaf header.path (by simp [isPlain])).1 hrun
    obtain ⟨_, hinsert, heq⟩ := (performs_insertSymlink obj reserved reads _).1 hstored
    cases heq
    exact ⟨⟨reserved, hreserved, obj, hobj, stored, hinsert, hleaf⟩, rfl⟩

end Performs

/-! ## 5. Reads -/

section Decode

variable {α β : Type} {reader readerAfter : PayloadReader}

variable {f : α → Decode β} {a : α}

theorem decode_bind_ok {x : Decode α} {b : β} :
    (x >>= f) reader = (.ok b, readerAfter) ↔
      ∃ a mid, x reader = (.ok a, mid) ∧ f a mid = (.ok b, readerAfter) := by
  have hunfold : (x >>= f) reader = StateT.bind x (ExceptT.bindCont f) reader := rfl
  rw [hunfold, StateT.bind]
  rcases hx : x reader with ⟨error | a, mid⟩
  · constructor
    · intro h
      cases h
    · rintro ⟨a, middle', h, -⟩
      cases h
  · constructor
    · intro h
      exact ⟨a, mid, rfl, h⟩
    · rintro ⟨a', middle', h, hf⟩
      cases h
      exact hf

theorem decode_pure_ok {b : α} :
    (pure a : Decode α) reader = (.ok b, readerAfter) ↔ a = b ∧ reader = readerAfter := by
  show (ok a, reader) = (ok b, readerAfter) ↔ _
  simp

theorem ofExcept_ok {r : Except ArchiveDecodeError α} :
    ofExcept r reader = (.ok a, readerAfter) ↔ r = .ok a ∧ reader = readerAfter := by
  show (r, reader) = (ok a, readerAfter) ↔ _
  simp

theorem ask_ok {question : PayloadReader → α} :
    ask question reader = (.ok a, readerAfter) ↔ question reader = a ∧ reader = readerAfter := by
  show (ok (question reader), reader) = (ok a, readerAfter) ↔ _
  simp

theorem decode_pure_bind : (pure a >>= f) reader = f a reader := rfl

theorem ask_bind {question : PayloadReader → α} :
    (ask question >>= f) reader = f (question reader) reader := rfl

theorem consume_bind {bytes : List UInt8} {f : Unit → Decode β} :
    (consume bytes >>= f) reader = f () { reader with hashed := reader.hashed ++ bytes } := rfl

theorem ofExcept_bind_ok {r : Except ArchiveDecodeError α} {b : β} :
    (ofExcept r >>= f) reader = (.ok b, readerAfter) ↔
      ∃ a, r = .ok a ∧ f a reader = (.ok b, readerAfter) := by
  rw [decode_bind_ok]
  constructor
  · rintro ⟨a, mid, hstep, hf⟩
    obtain ⟨hres, rfl⟩ := ofExcept_ok.1 hstep
    exact ⟨a, hres, hf⟩
  · rintro ⟨a, hres, hf⟩
    exact ⟨a, reader, ofExcept_ok.2 ⟨hres, rfl⟩, hf⟩

theorem chargedRead_bind_ok {limits : ArchiveLimits} {f : List UInt8 → Decode β} {b : β} :
    (chargedRead limits count >>= f) reader = (.ok b, readerAfter) ↔
      ∃ ops, chargeCount limits.maxReadOperations 1 reader.readOperations =
          some ops ∧
        f (reader.rest.take count)
          { reader with rest := reader.rest.drop count, readOperations := ops } =
            (.ok b, readerAfter) := by
  simp only [decode_bind_ok, chargedRead, chargeCount_eq_some .readOperations]
  cases charge reader.readOperations 1 .readOperations limits.maxReadOperations with
  | error error =>
    constructor
    · rintro ⟨bytes, mid, h, -⟩
      cases h
    · rintro ⟨ops, h, -⟩
      cases h
  | ok ops =>
    constructor
    · rintro ⟨bytes, mid, h, hf⟩
      cases h
      exact ⟨ops, rfl, hf⟩
    · rintro ⟨operations', h, hf⟩
      cases h
      exact ⟨_, _, rfl, hf⟩

end Decode

section Reads

def readerAt (rest hashed : List UInt8) (reads : Nat) : PayloadReader :=
  ⟨rest, hashed.length + rest.length, hashed, reads⟩

theorem readerAt_remaining (rest hashed : List UInt8) (reads : Nat) :
    (readerAt rest hashed reads).remaining = rest.length := by
  simp [PayloadReader.remaining, PayloadReader.consumed, readerAt]

variable {rest hashed : List UInt8} {reads : Nat} {header : Header} {encoded : List UInt8}

theorem readBuffer_ok {front bytes : List UInt8} {after : PayloadReader} (hfront : front ≠ []) :
    readBuffer limits front.length (readerAt (front ++ rest) hashed reads) =
        (.ok bytes, after) ↔
      front = bytes ∧ ∃ readsAfter, chargeCount limits.maxReadOperations 1 reads =
        some readsAfter ∧ readerAt rest (hashed ++ front) readsAfter = after := by
  obtain ⟨first, behind, rfl⟩ := exists_cons_of_ne_nil hfront
  have hmin : min (behind.length + 1) (first :: behind ++ rest).length =
      (first :: behind).length := by
    simp
  have htake : (first :: behind ++ rest).take (first :: behind).length = first :: behind :=
    take_left
  have hdrop : (first :: behind ++ rest).drop (first :: behind).length = rest := drop_left
  have hzero : behind.length + 1 - (first :: behind).length = 0 := Nat.sub_self _
  have hexp : hashed.length + (first :: behind ++ rest).length =
      (hashed ++ first :: behind).length + rest.length := by
    simp only [length_append]
    omega
  have hpure : ∀ reader, ((pure [] : Decode (List UInt8)) >>= fun tail =>
      pure (first :: behind ++ tail)) reader = (.ok (first :: behind), reader) := by
    intro reader
    exact decode_bind_ok.2 ⟨[], reader, rfl, decode_pure_ok.2 ⟨append_nil _, rfl⟩⟩
  rw [readBuffer, length_cons, readExactPayload]
  simp only [ask_bind, ofExcept_bind_ok, chargedRead_bind_ok, consume_bind, exists_unit,
    reject_ok, readerAt_remaining, hmin]
  simp only [readerAt, htake, hdrop, hzero, readExactPayload, hpure, hexp]
  constructor
  · rintro ⟨-, ops, hops, -, heq⟩
    cases heq
    exact ⟨rfl, ops, hops, rfl⟩
  · rintro ⟨rfl, ops, hops, rfl⟩
    exact ⟨by simp, ops, hops, by simp, rfl⟩

/-- The number of buffers for `count` bytes, with the turns that are left. -/
def chunkCount : Nat → Nat → Nat
  | _, 0 => 0
  | 0, _ + 1 => 0
  | turns + 1, count + 1 => chunkCount turns (count + 1 - fileChunkBytes) + 1

def readCharges (count : Nat) : List Effect := List.replicate count (.charge .reads 1)

theorem run_readCharges_succ {next : Progress (hash sha256)} :
    run (apply sha256 limits) (readCharges (count + 1)) ⟨state, reads⟩ = some next ↔
      ∃ ops, chargeCount limits.maxReadOperations 1 reads = some ops ∧
        run (apply sha256 limits) (readCharges count) ⟨state, ops⟩ = some next := by
  rw [readCharges, replicate_succ, run_cons, bind_eq_some_iff]
  simp only [apply, lift, map_eq_some_iff]
  constructor
  · rintro ⟨_, ⟨ops, hops, rfl⟩, hrun⟩
    exact ⟨ops, hops, hrun⟩
  · rintro ⟨ops, hops, hrun⟩
    exact ⟨_, ⟨ops, hops, rfl⟩, hrun⟩

theorem readChunks_zero (turns : Nat) : readChunks limits turns 0 = pure [] := by
  cases turns <;> rfl

theorem chunkCount_zero (turns : Nat) : chunkCount turns 0 = 0 := by
  cases turns <;> rfl

theorem readChunks_ok (state : ParseState (hash sha256)) :
    ∀ {turns : Nat} {front rest hashed bytes : List UInt8} {reads : Nat} {after : PayloadReader},
      front.length ≤ turns →
        (readChunks limits turns front.length (readerAt (front ++ rest) hashed reads) =
            (.ok bytes, after) ↔
          front = bytes ∧ ∃ readsAfter,
            run (apply sha256 limits) (readCharges (chunkCount turns front.length))
              ⟨state, reads⟩ = some ⟨state, readsAfter⟩ ∧
              readerAt rest (hashed ++ front) readsAfter = after) := by
  intro turns
  induction turns with
  | zero =>
    intro front rest hashed bytes reads after hturns
    obtain rfl := length_eq_zero_iff.1 (Nat.le_zero.1 hturns)
    rw [length_nil, readChunks_zero, chunkCount_zero, decode_pure_ok]
    simp [readCharges]
  | succ turns ih =>
    intro front rest hashed bytes reads after hturns
    cases front with
    | nil =>
      rw [length_nil, readChunks_zero, chunkCount_zero, decode_pure_ok]
      simp [readCharges]
    | cons first behind =>
      -- The first buffer, and what the other turns read.
      obtain ⟨block, hblock⟩ : ∃ block, block = (first :: behind).take fileChunkBytes := ⟨_, rfl⟩
      obtain ⟨tail, htail⟩ : ∃ tail, tail = (first :: behind).drop fileChunkBytes := ⟨_, rfl⟩
      have hfront : first :: behind = block ++ tail := by
        rw [hblock, htail, take_append_drop]
      have hblockLength : min (behind.length + 1) fileChunkBytes = block.length := by
        rw [hblock, length_take, length_cons, Nat.min_comm]
      have htailLength : behind.length + 1 - fileChunkBytes = tail.length := by
        rw [htail, length_drop, length_cons]
      have hnonempty : block ≠ [] := by
        rw [← length_pos_iff, ← hblockLength]
        simp [fileChunkBytes]
      have hshorter : tail.length ≤ turns := by
        rw [length_cons] at hturns
        rw [← htailLength]
        simp only [fileChunkBytes]
        omega
      rw [length_cons, readChunks, chunkCount, hblockLength, htailLength, hfront,
        append_assoc, decode_bind_ok]
      constructor
      · rintro ⟨read, mid, hread, hbehind⟩
        obtain ⟨rfl, ops, hops, rfl⟩ := (readBuffer_ok hnonempty).1 hread
        obtain ⟨others, final, hothers, hpure⟩ := decode_bind_ok.1 hbehind
        obtain ⟨rfl, readsAfter, hrun, rfl⟩ := (ih hshorter).1 hothers
        obtain ⟨rfl, rfl⟩ := decode_pure_ok.1 hpure
        refine ⟨rfl, readsAfter, run_readCharges_succ.2 ⟨ops, hops, hrun⟩, ?_⟩
        rw [append_assoc]
      · rintro ⟨rfl, readsAfter, hrun, rfl⟩
        obtain ⟨ops, hops, hrest⟩ := run_readCharges_succ.1 hrun
        refine ⟨block, _, (readBuffer_ok hnonempty).2 ⟨rfl, ops, hops, rfl⟩, ?_⟩
        refine decode_bind_ok.2 ⟨tail, _, (ih hshorter).2 ⟨rfl, readsAfter, hrest, rfl⟩, ?_⟩
        refine decode_pure_ok.2 ⟨rfl, ?_⟩
        rw [append_assoc]

theorem run_readCharges_state :
    ∀ {state : ParseState (hash sha256)} {reads : Nat} {next : Progress (hash sha256)},
      run (apply sha256 limits) (readCharges count) ⟨state, reads⟩ = some next →
        next = ⟨state, next.reads⟩ := by
  induction count with
  | zero =>
    intro state reads next h
    cases h
    rfl
  | succ count ih =>
    intro state reads next h
    obtain ⟨ops, -, hrest⟩ := run_readCharges_succ.1 h
    exact ih hrest

/-! ## 6. File entries -/

theorem reserveFile_ok {rem : Nat} :
    reserveFile sha256 limits header rem blockIndex state = .ok after ↔
      header.size ≤ limits.fileBytes ∧
        ∃ expanded, charge state.expandedFileBytes header.size .expandedFileBytes
            limits.expandedFileBytes = .ok expanded ∧
          ∃ reserved, reserveLeafPath limits header.path header.components
              { state with expandedFileBytes := expanded } = .ok reserved ∧
            saturatingAdd header.size (paddingLen header.size) ≤ rem ∧
              reserved.chargeWork limits (divCeil512 header.size) = .ok after := by
  simp only [reserveFile, checkArchiveLimit, bind_ok, exists_unit, reject_ok, not_lt]

theorem insertFileEntry_ok {bytes : List UInt8} :
    insertFileEntry sha256 limits header bytes state = .ok after ↔
      ∃ encoded, encodeFileObject bytes = .ok encoded ∧
        ∃ stored, insertFile limits (sha256 encoded) encoded state = .ok stored ∧
          insertLeaf limits header.path header.components
            (.file header.mode (sha256 encoded) header.size) stored = .ok after := by
  simp only [insertFileEntry, bind_ok, mapError_ok]

def paddingReads (size : Nat) : Nat := if paddingLen size = 0 then 0 else 1

/-- What stands between the reservation of a file and its insertion. -/
def fileBetween (header : Header) (encoded : List UInt8) : List Effect :=
  [.charge .work (divCeil512 header.size)] ++
    (readCharges (chunkCount header.size header.size) ++
      (readCharges (paddingReads header.size) ++ [.store (.file encoded)]))

theorem fileBetween_isPlain {effect : Effect} (h : effect ∈ fileBetween header encoded) :
    effect.isPlain = true := by
  simp only [fileBetween, readCharges, mem_append, mem_replicate, mem_singleton] at h
  rcases h with rfl | ⟨-, rfl⟩ | ⟨-, rfl⟩ | rfl <;> rfl

def fileEffects (sha256 : List UInt8 → ObjectDigest) (header : Header) (encoded : List UInt8) :
    List Effect :=
  [.charge .expanded header.size] ++ (parentTouches header.components ++
    fileBetween header encoded ++
      [.touch header.components (.leaf (.file header.mode (sha256 encoded) header.size))])

theorem run_fileBetween :
    run (apply sha256 limits) (fileBetween header encoded) ⟨state, reads⟩ =
        some ⟨after, readsAfter⟩ ↔
      ∃ worked, state.chargeWork limits (divCeil512 header.size) = .ok worked ∧
        ∃ readsBody, run (apply sha256 limits)
            (readCharges (chunkCount header.size header.size)) ⟨worked, reads⟩ =
              some ⟨worked, readsBody⟩ ∧
          run (apply sha256 limits) (readCharges (paddingReads header.size))
              ⟨worked, readsBody⟩ = some ⟨worked, readsAfter⟩ ∧
            insertFile limits (sha256 encoded) encoded worked = .ok after := by
  simp only [fileBetween, run_append (apply sha256 limits), bind_eq_some_iff]
  constructor
  · rintro ⟨mid, hwork, body, hbody, padding, hpadding, hstore⟩
    obtain ⟨worked, hworked, rfl⟩ := (performs_work _ _ _ _).1 hwork
    have hbodyState := run_readCharges_state hbody
    rw [hbodyState] at hbody hpadding
    have hpaddingState := run_readCharges_state hpadding
    rw [hpaddingState] at hpadding hstore
    obtain ⟨stored, hstored, heq⟩ := (performs_insertFile _ _ _ _).1 hstore
    cases heq
    exact ⟨worked, hworked, body.reads, hbody, hpadding, hstored⟩
  · rintro ⟨worked, hworked, readsBody, hbody, hpadding, hstored⟩
    exact ⟨_, (performs_work _ _ _ _).2 ⟨worked, hworked, rfl⟩, _, hbody, _, hpadding,
      (performs_insertFile _ _ _ _).2 ⟨after, hstored, rfl⟩⟩

theorem performs_expanded (size : Nat) :
    Performs sha256 limits [.charge .expanded size] fun state => do
      let expanded ← charge state.expandedFileBytes size .expandedFileBytes
        limits.expandedFileBytes
      return { state with expandedFileBytes := expanded } :=
  performs_charge .expandedFileBytes (fun state => state.expandedFileBytes)
    (fun count state => { state with expandedFileBytes := count }) (fun _ _ => rfl)
    (fun _ _ _ => rfl) size

theorem run_fileEffects :
    run (apply sha256 limits) (fileEffects sha256 header encoded) ⟨state, reads⟩ =
        some ⟨after, readsAfter⟩ ↔
      ∃ expanded, charge state.expandedFileBytes header.size .expandedFileBytes
          limits.expandedFileBytes = .ok expanded ∧
        ∃ reserved, reserveLeafPath limits header.path header.components
            { state with expandedFileBytes := expanded } = .ok reserved ∧
          ∃ stored, run (apply sha256 limits) (fileBetween header encoded)
              ⟨reserved, reads⟩ = some ⟨stored, readsAfter⟩ ∧
            insertLeaf limits header.path header.components
              (.file header.mode (sha256 encoded) header.size) stored = .ok after := by
  rw [fileEffects, run_append, bind_eq_some_iff]
  constructor
  · rintro ⟨mid, hexpanded, hrun⟩
    obtain ⟨charged, hcharged, rfl⟩ := (performs_expanded _ _ _ _).1 hexpanded
    obtain ⟨expanded, hcharge, heq⟩ := bind_ok.1 hcharged
    cases heq
    exact ⟨expanded, hcharge, (place_leaf header.path fun _ => fileBetween_isPlain).1 hrun⟩
  · rintro ⟨expanded, hcharge, hplaced⟩
    exact ⟨_, (performs_expanded _ _ _ _).2 ⟨_, bind_ok.2 ⟨expanded, hcharge, rfl⟩, rfl⟩,
      (place_leaf header.path fun _ => fileBetween_isPlain).2 hplaced⟩

theorem readPadding_ok (state : ParseState (hash sha256)) {size : Nat} {padding : List UInt8}
    {β : Type} {next : Decode β} {b : β} {after : PayloadReader}
    (hpadding : padding.length = paddingLen size) :
    (if paddingLen size ≠ 0 then do
        let found ← readBuffer limits (paddingLen size)
        let consumed ← ask PayloadReader.consumed
        ofExcept (reject (found.any (· ≠ 0) = true)
          (.malformedEntry (consumed / ustarBlockBytes) "file padding is nonzero"))
        next
      else next) (readerAt (padding ++ rest) hashed reads) = (.ok b, after) ↔
      padding.all (· = 0) = true ∧ ∃ readsAfter,
        run (apply sha256 limits) (readCharges (paddingReads size)) ⟨state, reads⟩ =
            some ⟨state, readsAfter⟩ ∧
          next (readerAt rest (hashed ++ padding) readsAfter) = (.ok b, after) := by
  by_cases hzero : paddingLen size = 0
  · rw [hzero] at hpadding
    obtain rfl := length_eq_zero_iff.1 hpadding
    simp [hzero, paddingReads, readCharges]
  · have hnonempty : padding ≠ [] := by
      rintro rfl
      exact hzero hpadding.symm
    have hall : ¬ padding.any (· ≠ 0) = true ↔ padding.all (· = 0) = true := by
      simp
    have hreads : paddingReads size = 1 := if_neg hzero
    rw [if_pos hzero, decode_bind_ok, hreads, ← hpadding]
    constructor
    · rintro ⟨found, mid, hfound, hnext⟩
      obtain ⟨rfl, ops, hops, rfl⟩ := (readBuffer_ok hnonempty).1 hfound
      rw [ask_bind, ofExcept_bind_ok, exists_unit, reject_ok, hall] at hnext
      exact ⟨hnext.1, ops, run_readCharges_succ.2 ⟨ops, hops, rfl⟩, hnext.2⟩
    · rintro ⟨hzeros, readsAfter, hrun, hnext⟩
      obtain ⟨ops, hops, hrest⟩ := run_readCharges_succ.1 hrun
      cases hrest
      refine ⟨padding, _, (readBuffer_ok hnonempty).2 ⟨rfl, readsAfter, hops, rfl⟩, ?_⟩
      rw [ask_bind, ofExcept_bind_ok, exists_unit, reject_ok, hall]
      exact ⟨hzeros, hnext⟩

/-- **A file entry is the run of its effects.** -/
theorem decodeFileEntry_ok {content padding : List UInt8} {final : PayloadReader}
    (hcontent : content.length = header.size)
    (hpadding : padding.length = paddingLen header.size) :
    decodeFileEntry sha256 limits header state
        (readerAt (content ++ (padding ++ rest)) hashed reads) = (.ok after, final) ↔
      header.size ≤ limits.fileBytes ∧ padding.all (· = 0) = true ∧
        ∃ encoded, encodeFileObject content = .ok encoded ∧
          ∃ readsAfter, run (apply sha256 limits) (fileEffects sha256 header encoded)
              ⟨state, reads⟩ = some ⟨after, readsAfter⟩ ∧
            readerAt rest (hashed ++ content ++ padding) readsAfter = final := by
  have henough : saturatingAdd header.size (paddingLen header.size) ≤
      (content ++ (padding ++ rest)).length := by
    simp only [length_append, hcontent, hpadding, saturatingAdd]
    omega
  have hchunks : content.length ≤ header.size := le_of_eq hcontent
  rw [decodeFileEntry, ask_bind, ask_bind, ofExcept_bind_ok, readerAt_remaining]
  constructor
  · rintro ⟨worked, hreserve, hbody⟩
    obtain ⟨hsize, expanded, hexpanded, reserved, hreserved, -, hworked⟩ := reserveFile_ok.1 hreserve
    obtain ⟨bytes, mid, hbytes, hrest⟩ := decode_bind_ok.1 hbody
    rw [← hcontent, readChunks_ok worked (le_refl _), hcontent] at hbytes
    obtain ⟨rfl, readsBody, hreads, rfl⟩ := hbytes
    obtain ⟨hzeros, readsAfter, hpaddingReads, hinsert⟩ := (readPadding_ok worked hpadding).1 hrest
    obtain ⟨hentry, rfl⟩ := ofExcept_ok.1 hinsert
    obtain ⟨encoded, hencoded, stored, hstored, hleaf⟩ := insertFileEntry_ok.1 hentry
    refine ⟨hsize, hzeros, encoded, hencoded, readsAfter, run_fileEffects.2 ?_, rfl⟩
    exact ⟨expanded, hexpanded, reserved, hreserved, stored,
      run_fileBetween.2 ⟨worked, hworked, readsBody, hreads, hpaddingReads, hstored⟩, hleaf⟩
  · rintro ⟨hsize, hzeros, encoded, hencoded, readsAfter, hrun, rfl⟩
    obtain ⟨expanded, hexpanded, reserved, hreserved, stored, hbetween, hleaf⟩ :=
      run_fileEffects.1 hrun
    obtain ⟨worked, hworked, readsBody, hreads, hpaddingReads, hstored⟩ :=
      run_fileBetween.1 hbetween
    refine ⟨worked, reserveFile_ok.2 ⟨hsize, expanded, hexpanded, reserved, hreserved, henough,
      hworked⟩, decode_bind_ok.2 ⟨content, readerAt (padding ++ rest) (hashed ++ content) readsBody,
        ?_, ?_⟩⟩
    · rw [← hcontent, readChunks_ok worked (le_refl _), hcontent]
      exact ⟨rfl, readsBody, hreads, rfl⟩
    · refine (readPadding_ok worked hpadding).2 ⟨hzeros, readsAfter, hpaddingReads, ?_⟩
      exact ofExcept_ok.2 ⟨insertFileEntry_ok.2 ⟨encoded, hencoded, stored, hstored, hleaf⟩, rfl⟩

end Reads

end Malm.Archive
