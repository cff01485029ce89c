/-
Malm.Archive.Effects — what an entry of an archive does to a parse.

The decoder charges counters, claims the places of a path and stores an object: each is
an update of the state that fails or goes through. Any two commute: counters only grow, a
place decides by itself, and an object is stored under its digest.
-/
import Malm.Archive.Decoder
import Malm.Tree.CodecTheorems
import Malm.Lib.Updates

namespace Malm.Archive

open Malm.Tree Bytes Updates Option SortedMap ObjectAccumulator Focus

/-! ## 1. Effects -/

/-- A state of the parse, with the reads that were charged. -/
structure Progress (sha256 : List UInt8 → Digest) where
  state : ParseState sha256
  reads : Nat

/-- The counters that a parse charges, apart from those of the places and objects. -/
inductive Counter where
  | reads
  | metadata
  | work
  | expanded
deriving DecidableEq

/-- A node without children. -/
inductive Leaf where
  | file (mode : BitVec 32) (digest : ObjectDigest) (byteLen : Nat)
  | symlink (digest : ObjectDigest)
deriving DecidableEq

def Leaf.node : Leaf → Node
  | .file mode digest byteLen => .file mode digest byteLen
  | .symlink digest => .symlink digest

/-- What an entry does to one place of the tree. -/
inductive Touch where
  | parent
  | leaf (leaf : Leaf)
  | directory (mode : BitVec 32)
deriving DecidableEq

inductive StoredObject where
  | file (bytes : List UInt8)
  | symlink (object : SymlinkObject)

inductive Effect where
  | charge (counter : Counter) (amount : Nat)
  | touch (place : List Text) (touched : Touch)
  | store (object : StoredObject)

/-- What a place holds after a touch, if the touch is allowed. -/
def Touch.apply : Touch → Option Node → Option Node
  | .parent, none => some (.directory rootAndImplicitDirectoryMode false)
  | .parent, some (.directory mode explicit) => some (.directory mode explicit)
  | .parent, some _ => none
  | .leaf added, none => some added.node
  | .leaf _, some _ => none
  | .directory mode, none => some (.directory mode true)
  | .directory mode, some (.directory _ false) => some (.directory mode true)
  | .directory _, some _ => none

def chargeCount (limit amount count : Nat) : Option Nat :=
  if saturatingAdd count amount ≤ limit then some (saturatingAdd count amount) else none

theorem chargeCount_eq_some (resource : ArchiveResource) {limit amount count next : Nat} :
    chargeCount limit amount count = some next ↔
      charge count amount resource limit = .ok next := by
  simp only [charge, checkArchiveLimit, Checks.bind_ok, Checks.exists_unit, Checks.reject_ok,
    Checks.pure_ok, chargeCount]
  split <;> simp <;> omega

/-- A charge that something already there does not cause. -/
def chargeUnless (limit amount : Nat) (taken : Bool) (count : Nat) : Option Nat :=
  if taken then some count else chargeCount limit amount count

/-- The map of places and its count, after a touch. -/
def touchNode (limit : Nat) (place : List Text) (touched : Touch)
    (tree : SortedMap (List Text) Node × Nat) : Option (SortedMap (List Text) Node × Nat) :=
  (touched.apply (tree.1.get? place)).bind fun node =>
    (chargeUnless limit 1 (tree.1.contains place) tree.2).map fun count =>
      (tree.1.insert place node, count)

section Apply

variable (sha256 : List UInt8 → ObjectDigest) (limits : ArchiveLimits)

def StoredObject.bytes : StoredObject → List UInt8
  | .file bytes => bytes
  | .symlink object => encodeSymlinkObject object

variable {sha256} in
def StoredObject.isStored (object : StoredObject) (digest : ObjectDigest)
    (objects : ObjectAccumulator (hash sha256)) : Bool :=
  match object with
  | .file _ => objects.fileBlobs.contains digest
  | .symlink _ => objects.symlinks.contains digest

variable {sha256} in
/-- The object goes into the map of its kind, if it is not there. -/
def StoredObject.put (object : StoredObject) (digest : ObjectDigest)
    (objects : ObjectAccumulator (hash sha256)) : ObjectAccumulator (hash sha256) :=
  match object with
  | .file bytes =>
    { objects with
      fileBlobs := if objects.fileBlobs.contains digest then objects.fileBlobs
        else objects.fileBlobs.insert digest bytes }
  | .symlink link =>
    { objects with
      symlinks := if objects.symlinks.contains digest then objects.symlinks
        else objects.symlinks.insert digest (link, encodeSymlinkObject link) }

def storeObject (limit : Nat) (object : StoredObject)
    (store : ObjectAccumulator (hash sha256) × Nat) :
    Option (ObjectAccumulator (hash sha256) × Nat) :=
  if (store.1.bytesForDigest (sha256 object.bytes)).any (· ≠ object.bytes) then none
  else
    (chargeUnless limit object.bytes.length (object.isStored (sha256 object.bytes) store.1)
      store.2).map fun objectBytes => (object.put (sha256 object.bytes) store.1, objectBytes)

def Counter.limit : Counter → Nat
  | .reads => limits.maxReadOperations
  | .metadata => limits.maxMetadataBytes
  | .work => limits.maxWorkUnits
  | .expanded => limits.expandedFileBytes

def Counter.focus (counter : Counter) : Focus (Progress (hash sha256)) Nat where
  get progress :=
    match counter with
    | .reads => progress.reads
    | .metadata => progress.state.metadataBytes
    | .work => progress.state.workUnits
    | .expanded => progress.state.expandedFileBytes
  set count progress :=
    match counter with
    | .reads => { progress with reads := count }
    | .metadata => { progress with state := { progress.state with metadataBytes := count } }
    | .work => { progress with state := { progress.state with workUnits := count } }
    | .expanded => { progress with state := { progress.state with expandedFileBytes := count } }
  get_set := by cases counter <;> simp
  set_set := by cases counter <;> simp

def treeFocus : Focus (Progress (hash sha256)) (SortedMap (List Text) Node × Nat) where
  get progress := (progress.state.nodes, progress.state.logicalEntries)
  set tree progress :=
    { progress with state := { progress.state with nodes := tree.1, logicalEntries := tree.2 } }
  get_set := by simp
  set_set := by simp

def storeFocus : Focus (Progress (hash sha256)) (ObjectAccumulator (hash sha256) × Nat) where
  get progress := (progress.state.objects, progress.state.objectBytes)
  set store progress :=
    { progress with state := { progress.state with objects := store.1, objectBytes := store.2 } }
  get_set := by simp
  set_set := by simp

def Effect.apply : Effect → Progress (hash sha256) → Option (Progress (hash sha256))
  | .charge counter amount =>
    (counter.focus sha256).lift (chargeCount (counter.limit limits) amount)
  | Effect.touch place touched => (treeFocus sha256).lift (touchNode limits.entries place touched)
  | .store object => (storeFocus sha256).lift (storeObject sha256 limits.maxObjectBytes object)

end Apply

/-! ## 2. Effects commute -/

theorem chargeCount_bind (limit a b count : Nat) :
    (chargeCount limit a count).bind (chargeCount limit b) = chargeCount limit (a + b) count := by
  have hsum : saturatingAdd (saturatingAdd count a) b = saturatingAdd count (a + b) := by
    simp only [saturatingAdd]
    omega
  have hle : saturatingAdd count a ≤ saturatingAdd count (a + b) := by
    simp only [saturatingAdd]
    omega
  by_cases h : saturatingAdd count (a + b) ≤ limit
  · rw [chargeCount, if_pos (le_trans hle h), bind_some, chargeCount, hsum, chargeCount]
  · rw [show chargeCount limit (a + b) count = none from if_neg h]
    unfold chargeCount
    split
    · rw [bind_some, hsum, if_neg h]
    · rfl

theorem chargeCount_commute (limit a b : Nat) :
    Updates.Commute (chargeCount limit a) (chargeCount limit b) := by
  intro count
  rw [chargeCount_bind, chargeCount_bind, Nat.add_comm]

@[simp] theorem Touch.apply_leaf (touched : Touch) (leaf : Leaf) :
    touched.apply (some leaf.node) = none := by
  cases leaf <;> cases touched <;> rfl

theorem Touch.apply_commute (first second : Touch) (node : Option Node) :
    ((first.apply node).bind fun node => second.apply (some node)) =
      (second.apply node).bind fun node => first.apply (some node) := by
  cases node with
  | none =>
    have hleaf : ∀ (leaf : Leaf) (touched : Touch),
        (((Touch.leaf leaf).apply none).bind fun node => touched.apply (some node)) =
          (touched.apply none).bind fun node => (Touch.leaf leaf).apply (some node) := by
      intro leaf touched
      rw [show (Touch.leaf leaf).apply none = some leaf.node from rfl, bind_some, Touch.apply_leaf]
      cases touched <;> rfl
    cases first with
    | leaf leaf => exact hleaf leaf second
    | parent =>
      cases second with
      | leaf leaf => exact (hleaf leaf _).symm
      | parent => rfl
      | directory mode => rfl
    | directory mode =>
      cases second with
      | leaf leaf => exact (hleaf leaf _).symm
      | parent => rfl
      | directory mode => rfl
  | some node =>
    cases node with
    | file mode digest byteLen => cases first <;> cases second <;> rfl
    | symlink digest => cases first <;> cases second <;> rfl
    | directory mode explicit =>
      cases explicit <;> cases first <;> cases second <;> rfl

theorem touchNode_twice (limit : Nat) (place : List Text) (first second : Touch)
    (tree : SortedMap (List Text) Node × Nat) :
    (touchNode limit place first tree).bind (touchNode limit place second) =
      ((first.apply (tree.1.get? place)).bind fun node => second.apply (some node)).bind
        fun node => (chargeUnless limit 1 (tree.1.contains place) tree.2).map fun count =>
          (tree.1.insert place node, count) := by
  have hagain : ∀ node count, touchNode limit place second (tree.1.insert place node, count) =
      (second.apply (some node)).map fun after => (tree.1.insert place after, count) := by
    intro node count
    cases hsecond : second.apply (some node) <;> simp [touchNode, chargeUnless, hsecond]
  cases hfirst : first.apply (tree.1.get? place) with
  | none => simp [touchNode, hfirst]
  | some node =>
    cases hcount : chargeUnless limit 1 (tree.1.contains place) tree.2 with
    | none => cases hsecond : second.apply (some node) <;> simp [touchNode, hfirst, hcount]
    | some count =>
      have hone : touchNode limit place first tree = some (tree.1.insert place node, count) := by
        simp [touchNode, hfirst, hcount]
      rw [hone, bind_some, hagain]
      cases hsecond : second.apply (some node) <;> simp [hsecond]

theorem touchNode_other (limit : Nat) {place other : List Text} (h : place ≠ other)
    (first second : Touch) (tree : SortedMap (List Text) Node × Nat) :
    (touchNode limit place first tree).bind (touchNode limit other second) =
      (first.apply (tree.1.get? place)).bind fun node =>
        (second.apply (tree.1.get? other)).bind fun behind =>
          ((chargeUnless limit 1 (tree.1.contains place) tree.2).bind
            (chargeUnless limit 1 (tree.1.contains other))).map fun count =>
              ((tree.1.insert place node).insert other behind, count) := by
  cases hfirst : first.apply (tree.1.get? place) with
  | none => simp [touchNode, hfirst]
  | some node =>
    cases hcount : chargeUnless limit 1 (tree.1.contains place) tree.2 with
    | none =>
      cases hsecond : second.apply (tree.1.get? other) <;> simp [touchNode, hfirst, hcount]
    | some count =>
      cases hsecond : second.apply (tree.1.get? other) <;>
        simp [touchNode, hfirst, hcount, hsecond, h.symm]

theorem chargeUnless_commute (limit amount other : Nat) (taken behind : Bool) :
    Updates.Commute (chargeUnless limit amount taken) (chargeUnless limit other behind) := by
  have hcharge : ∀ amount, chargeUnless limit amount false = chargeCount limit amount :=
    fun _ => rfl
  have htaken : ∀ amount, chargeUnless limit amount true = some := fun _ => rfl
  intro count
  cases taken <;> cases behind <;>
    simp [hcharge, htaken, chargeCount_commute limit amount other count]

theorem touchNode_commute (limit : Nat) (place other : List Text) (first second : Touch) :
    Updates.Commute (touchNode limit place first) (touchNode limit other second) := by
  intro tree
  by_cases hplace : place = other
  · subst hplace
    rw [touchNode_twice, touchNode_twice, Touch.apply_commute]
  · rw [touchNode_other limit hplace, touchNode_other limit (Ne.symm hplace), bind_comm]
    congr 1
    funext behind
    congr 1
    funext node
    rw [chargeUnless_commute, insert_comm _ hplace]

/-! ## 3. Stored objects -/

section Store

variable {sha256 : List UInt8 → ObjectDigest} {objects : ObjectAccumulator (hash sha256)}

/-- The digest is free, or taken by the same bytes. -/
def Compatible (objects : ObjectAccumulator (hash sha256)) (digest : ObjectDigest)
    (bytes : List UInt8) : Prop :=
  objects.bytesForDigest digest = none ∨ objects.bytesForDigest digest = some bytes

variable {digest : ObjectDigest} {object first second : StoredObject} {other : ObjectDigest}
  {store : ObjectAccumulator (hash sha256) × Nat}

theorem compatible_iff {bytes : List UInt8} :
    (objects.bytesForDigest digest).any (· ≠ bytes) = false ↔ Compatible objects digest bytes := by
  unfold Compatible
  cases objects.bytesForDigest digest with
  | none => simp
  | some found => simp

theorem bytesForDigest_put (h : Compatible objects digest object.bytes) (other : ObjectDigest) :
    (object.put digest objects).bytesForDigest other =
      if other = digest then some object.bytes else objects.bytesForDigest other := by
  by_cases hother : other = digest
  · subst hother
    rw [if_pos rfl]
    cases object with
    | file bytes =>
      by_cases hstored : objects.fileBlobs.contains other = true
      · obtain ⟨found, hfound⟩ := isSome_iff_exists.1 hstored
        have hlookup : objects.bytesForDigest other = some found := by
          simp [bytesForDigest, hfound]
        rcases h with h | h
        · rw [hlookup] at h
          cases h
        · simpa [StoredObject.put, hstored] using h
      · simp [StoredObject.put, hstored, bytesForDigest, StoredObject.bytes]
    | symlink link =>
      have hput : ((StoredObject.symlink link).put other objects).bytesForDigest other =
          (objects.bytesForDigest other).or (some (encodeSymlinkObject link)) := by
        cases hfiles : objects.fileBlobs.get? other with
        | some found => simp [StoredObject.put, bytesForDigest, hfiles]
        | none =>
          cases htrees : objects.trees.get? other with
          | some found => simp [StoredObject.put, bytesForDigest, hfiles, htrees]
          | none =>
            cases hlinks : objects.symlinks.get? other with
            | some found =>
              simp [StoredObject.put, bytesForDigest, contains, hfiles, htrees, hlinks]
            | none =>
              simp [StoredObject.put, bytesForDigest, contains, hfiles, htrees, hlinks]
      rcases h with h | h
      · rw [hput, h]
        rfl
      · rw [hput, h]
        rfl
  · rw [if_neg hother]
    cases object with
    | file bytes =>
      by_cases hstored : objects.fileBlobs.contains digest = true
      · simp [StoredObject.put, hstored]
      · simp [StoredObject.put, hstored, bytesForDigest, hother]
    | symlink link =>
      by_cases hstored : objects.symlinks.contains digest = true
      · simp [StoredObject.put, hstored]
      · simp [StoredObject.put, hstored, bytesForDigest, hother]

def Apart (first second : StoredObject) (digest other : ObjectDigest) : Prop :=
  match first, second with
  | .file _, .file _ => digest ≠ other
  | .symlink _, .symlink _ => digest ≠ other
  | _, _ => True

section

variable (h : Apart first second digest other)
include h

theorem Apart.isStored :
    second.isStored other (first.put digest objects) = second.isStored other objects := by
  cases first <;> cases second <;> simp only [StoredObject.isStored, StoredObject.put]
  all_goals
    split
    · rfl
    · have hne : digest ≠ other := h
      simp [hne.symm]

theorem Apart.put_comm :
    second.put other (first.put digest objects) = first.put digest (second.put other objects) := by
  cases first with
  | file bytes =>
    cases second with
    | symlink link => rfl
    | file behind =>
      have hne : digest ≠ other := h
      by_cases hfirst : objects.fileBlobs.contains digest = true <;>
        by_cases hsecond : objects.fileBlobs.contains other = true <;>
        simp [StoredObject.put, hfirst, hsecond, hne, hne.symm, insert_comm objects.fileBlobs hne]
  | symlink link =>
    cases second with
    | file behind => rfl
    | symlink behind =>
      have hne : digest ≠ other := h
      by_cases hfirst : objects.symlinks.contains digest = true <;>
        by_cases hsecond : objects.symlinks.contains other = true <;>
        simp [StoredObject.put, hfirst, hsecond, hne, hne.symm, insert_comm objects.symlinks hne]

theorem Apart.symm : Apart second first other digest := by
  cases first <;> cases second <;> first | exact trivial | exact Ne.symm h

end

theorem storeObject_of_not_compatible {limit : Nat}
    (h : ¬ Compatible store.1 (sha256 object.bytes) object.bytes) :
    storeObject sha256 limit object store = none := by
  rw [← compatible_iff, Bool.not_eq_false] at h
  rw [storeObject, if_pos h]

theorem storeObject_of_compatible {limit : Nat}
    (h : Compatible store.1 (sha256 object.bytes) object.bytes) :
    storeObject sha256 limit object store =
      (chargeUnless limit object.bytes.length (object.isStored (sha256 object.bytes) store.1)
        store.2).map fun objectBytes => (object.put (sha256 object.bytes) store.1, objectBytes) := by
  rw [← compatible_iff] at h
  rw [storeObject, if_neg (ne_true_of_eq_false h)]

theorem compatible_put {bytes : List UInt8} (h : Compatible objects digest object.bytes)
    (hbytes : digest = other → object.bytes = bytes) :
    Compatible (object.put digest objects) other bytes ↔ Compatible objects other bytes := by
  rw [Compatible, bytesForDigest_put h]
  by_cases hdigest : other = digest
  · rw [if_pos hdigest]
    subst hdigest
    rw [← hbytes rfl]
    exact iff_of_true (.inr rfl) h
  · rw [if_neg hdigest]
    rfl

theorem storeObject_bind (limit : Nat)
    (hapart : Apart first second (sha256 first.bytes) (sha256 second.bytes))
    (hfirst : Compatible store.1 (sha256 first.bytes) first.bytes)
    (hsecond : Compatible store.1 (sha256 second.bytes) second.bytes)
    (hbytes : sha256 first.bytes = sha256 second.bytes → first.bytes = second.bytes) :
    (storeObject sha256 limit first store).bind (storeObject sha256 limit second) =
      ((chargeUnless limit first.bytes.length (first.isStored (sha256 first.bytes) store.1)
          store.2).bind (chargeUnless limit second.bytes.length
            (second.isStored (sha256 second.bytes) store.1))).map fun count =>
        (second.put (sha256 second.bytes) (first.put (sha256 first.bytes) store.1), count) := by
  have hbehind := (compatible_put hfirst hbytes).2 hsecond
  rw [storeObject_of_compatible hfirst]
  cases hcount : chargeUnless limit first.bytes.length
      (first.isStored (sha256 first.bytes) store.1) store.2 with
  | none => rfl
  | some count =>
    rw [map_some, bind_some, bind_some, storeObject_of_compatible hbehind, hapart.isStored]

theorem storeObject_bind_none (limit : Nat)
    (hrefused : Compatible store.1 (sha256 first.bytes) first.bytes →
      ¬ Compatible (first.put (sha256 first.bytes) store.1) (sha256 second.bytes) second.bytes) :
    (storeObject sha256 limit first store).bind (storeObject sha256 limit second) = none := by
  by_cases hfirst : Compatible store.1 (sha256 first.bytes) first.bytes
  · rw [storeObject_of_compatible hfirst]
    cases hcount : chargeUnless limit first.bytes.length
        (first.isStored (sha256 first.bytes) store.1) store.2 with
    | none => rfl
    | some count => exact storeObject_of_not_compatible (hrefused hfirst)
  · rw [storeObject_of_not_compatible hfirst]
    rfl

theorem storeObject_refused (limit : Nat)
    (hsecond : ¬ Compatible store.1 (sha256 second.bytes) second.bytes)
    (hbytes : sha256 first.bytes = sha256 second.bytes → first.bytes = second.bytes) :
    (storeObject sha256 limit first store).bind (storeObject sha256 limit second) = none := by
  refine storeObject_bind_none limit ?_
  intro hfirst h
  exact hsecond ((compatible_put hfirst hbytes).1 h)

theorem storeObject_collision (limit : Nat) (store : ObjectAccumulator (hash sha256) × Nat)
    (hdigest : sha256 first.bytes = sha256 second.bytes) (hbytes : first.bytes ≠ second.bytes) :
    (storeObject sha256 limit first store).bind (storeObject sha256 limit second) = none := by
  refine storeObject_bind_none limit ?_
  intro hfirst
  rw [Compatible, bytesForDigest_put hfirst, if_pos hdigest.symm]
  simp [hbytes]

theorem apart_of_ne (hbytes : digest = other → first.bytes = second.bytes) (hne : first ≠ second) :
    Apart first second digest other := by
  cases first with
  | file bytes =>
    cases second with
    | symlink link => exact trivial
    | file behind =>
      intro hdigest
      exact hne (congrArg StoredObject.file (hbytes hdigest))
  | symlink link =>
    cases second with
    | file behind => exact trivial
    | symlink behind =>
      intro hdigest
      have hdecode : decodeSymlinkObject (encodeSymlinkObject link) = .ok behind :=
        decodeSymlinkObject_ok.2 (hbytes hdigest)
      rw [decodeSymlinkObject_ok.2 rfl] at hdecode
      cases hdecode
      exact hne rfl

theorem storeObject_commute (limit : Nat) (first second : StoredObject) :
    Updates.Commute (storeObject sha256 limit first) (storeObject sha256 limit second) := by
  intro store
  by_cases heq : first = second
  · rw [heq]
  by_cases hbytes : sha256 first.bytes = sha256 second.bytes → first.bytes = second.bytes
  · have hapart := apart_of_ne hbytes heq
    have hsymm : sha256 second.bytes = sha256 first.bytes → second.bytes = first.bytes :=
      fun h => (hbytes h.symm).symm
    by_cases hfirst : Compatible store.1 (sha256 first.bytes) first.bytes
    · by_cases hsecond : Compatible store.1 (sha256 second.bytes) second.bytes
      · rw [storeObject_bind limit hapart hfirst hsecond hbytes,
          storeObject_bind limit hapart.symm hsecond hfirst hsymm, chargeUnless_commute,
          hapart.put_comm]
      · rw [storeObject_refused limit hsecond hbytes, storeObject_of_not_compatible hsecond]
        rfl
    · rw [storeObject_refused limit hfirst hsymm, storeObject_of_not_compatible hfirst]
      rfl
  · obtain ⟨hdigest, hne⟩ := Classical.not_imp.1 hbytes
    rw [storeObject_collision limit store hdigest hne,
      storeObject_collision limit store hdigest.symm (Ne.symm hne)]

end Store

/-! ## 4. Effects -/

section Effects

variable {sha256 : List UInt8 → ObjectDigest}

theorem Counter.independent {first second : Counter} (h : first ≠ second) :
    (first.focus sha256).Independent (second.focus sha256) := by
  cases first <;> cases second <;> first | exact absurd rfl h | exact ⟨by simp [Counter.focus],
    by simp [Counter.focus], by simp [Counter.focus]⟩

theorem Counter.independent_tree (counter : Counter) :
    (counter.focus sha256).Independent (treeFocus sha256) := by
  cases counter <;> exact ⟨fun _ _ => rfl, fun _ _ => rfl, fun _ _ _ => rfl⟩

theorem Counter.independent_store (counter : Counter) :
    (counter.focus sha256).Independent (storeFocus sha256) := by
  cases counter <;> exact ⟨fun _ _ => rfl, fun _ _ => rfl, fun _ _ _ => rfl⟩

theorem tree_independent_store : (treeFocus sha256).Independent (storeFocus sha256) :=
  ⟨fun _ _ => rfl, fun _ _ => rfl, fun _ _ _ => rfl⟩

/-- **Effects commute.** -/
theorem Effect.apply_commute (limits : ArchiveLimits) (first second : Effect) :
    Updates.Commute (first.apply sha256 limits) (second.apply sha256 limits) := by
  cases first with
  | charge counter amount =>
    cases second with
    | charge other behind =>
      by_cases h : counter = other
      · subst h
        exact lift_commute (chargeCount_commute _ _ _)
      · exact lift_commute_of_independent (Counter.independent h) _ _
    | touch place touched =>
      exact lift_commute_of_independent counter.independent_tree _ _
    | store object => exact lift_commute_of_independent counter.independent_store _ _
  | touch place touched =>
    cases second with
    | charge counter amount =>
      exact (lift_commute_of_independent counter.independent_tree _ _).symm
    | touch other behind => exact lift_commute (touchNode_commute _ _ _ _ _)
    | store object => exact lift_commute_of_independent tree_independent_store _ _
  | store object =>
    cases second with
    | charge counter amount =>
      exact (lift_commute_of_independent counter.independent_store _ _).symm
    | touch place touched =>
      exact (lift_commute_of_independent tree_independent_store _ _).symm
    | store behind => exact lift_commute (storeObject_commute _ _ _)

end Effects

end Malm.Archive
