/-
Malm.Commit.ObservedIdentities — the cache of observed identities (`lib.rs`).

After a commit, the stat identity of each file of the plan is recorded with the
digest of its slot. Slots are looked up by their relative path alone, so of two
authorities that claim one path the later slot speaks for both
(`recordObserved_right_iff`). Pairs stand for the texts `authority:path`.
-/
import Malm.Commit.Pins
import Malm.Lib.LastWrite

namespace Malm.Commit

open Store Target List

variable {path : Text} {auth : DeploymentName} {digest : Digest}

/-! ## 1. The cache -/

structure ObservedFile where
  identity : FileIdentity
  digest : Digest
deriving DecidableEq

/-- The cached files of one namespace, by authority and path. -/
abbrev ObservedFiles := SortedMap (DeploymentName ×ₗ Text) ObservedFile

structure ObservedNamespace where
  generation : Digest
  files : ObservedFiles

structure ObservedIdentities where
  schemaVersion : Nat
  namespaces : SortedMap NamespaceName ObservedNamespace

structure RecordedTarget where
  authority : DeploymentName
  relativePath : Text
  parent : Nat
  leaf : Text

def RecordedTarget.key (target : RecordedTarget) : DeploymentName ×ₗ Text :=
  toLex (target.authority, target.relativePath)

/-! ## 2. Recording -/

def fileSlot (target : StateTarget) : Option (Text × StateFile) :=
  match target.state with
  | .file (some file) => some (target.relativePath, file)
  | _ => none

def treeSlot (target : StateTarget) : Option (Text × Digest) :=
  match target.state with
  | .tree (some tree) => some (target.relativePath, tree.tree)
  | _ => none

/-- `file_states` and `tree_states`: maps by relative path. -/
def slotMap {α : Type} (slots : List (Text × α)) : SortedMap Text α :=
  slots.foldl (fun map slot => map.insert slot.1 slot.2) .empty

section Recording

variable (objects : Objects) (entries : Entries) (trees : SortedMap Digest TreeObject)

def recordFile (target : RecordedTarget) (file : StateFile) :
    List ((DeploymentName ×ₗ Text) × ObservedFile) :=
  match entries (target.parent, target.leaf) with
  | .found object =>
    if FileType.fromRawMode (objects.identity object).mode = .regularFile ∧
        (objects.identity object).size = file.byteLen then
      [(target.key, ⟨objects.identity object, file.digest⟩)]
    else []
  | _ => []

/-- `record_tree_member_identities`, with the levels that are left. -/
def recordTreeMembers (authority : DeploymentName) :
    Nat → Nat → Digest → Text → List ((DeploymentName ×ₗ Text) × ObservedFile)
  | 0, _, _, _ => []
  | depthLeft + 1, directory, digest, path =>
    match trees.get? digest with
    | none => []
    | some tree =>
      tree.entries.flatMap fun entry =>
        let member := path ++ '/' :: entry.name
        match entry.kind, entries (directory, entry.name) with
        | .file digest _, .found object =>
          [(toLex (authority, member), ⟨objects.identity object, digest⟩)]
        | .symlink digest, .found object =>
          [(toLex (authority, member), ⟨objects.identity object, digest⟩)]
        | .directory digest, .found object =>
          if objects.opens object then
            recordTreeMembers authority depthLeft object digest member
          else []
        | _, _ => []

/-- The entries of a tree whose root can be opened. -/
def recordTree (target : RecordedTarget) (tree : Digest) :
    List ((DeploymentName ×ₗ Text) × ObservedFile) :=
  match entries (target.parent, target.leaf) with
  | .found object =>
    if objects.opens object then
      recordTreeMembers objects entries trees target.authority (maxTreeDepth + 1) object tree
        target.relativePath
    else []
  | _ => []

def recordTarget (snapshot : DesiredSnapshot) (target : RecordedTarget) :
    List ((DeploymentName ×ₗ Text) × ObservedFile) :=
  match (slotMap (snapshot.targets.filterMap fileSlot)).get? target.relativePath with
  | some file => recordFile objects entries target file
  | none =>
    match (slotMap (snapshot.targets.filterMap treeSlot)).get? target.relativePath with
    | some tree => recordTree objects entries trees target tree
    | none => []

/-- The files of a namespace after the commit of a generation. -/
def recordFiles (snapshot : DesiredSnapshot) (targets : List RecordedTarget) : ObservedFiles :=
  (targets.flatMap (recordTarget objects entries trees snapshot)).foldl
    (fun files entry => files.insert entry.1 entry.2) .empty

def recordObserved (observed : ObservedIdentities) (targets : List RecordedTarget)
    (namespaceName : NamespaceName) (generation : Option (Digest × DesiredSnapshot)) :
    ObservedIdentities where
  schemaVersion := 1
  namespaces :=
    match generation with
    | none => observed.namespaces.erase namespaceName
    | some (digest, snapshot) =>
      observed.namespaces.insert namespaceName
        ⟨digest, recordFiles objects entries trees snapshot targets⟩

end Recording

def observedFilesFor (observed : ObservedIdentities) (namespaceName : NamespaceName)
    (generation : Digest) : Option ObservedFiles :=
  (observed.namespaces.get? namespaceName).bind fun entry =>
    if entry.generation = generation then some entry.files else none

/-! ## 3. What a generation assigns -/

/-- The digests of a tree's files and links by their paths below it. -/
inductive TreeAssigns (trees : SortedMap Digest TreeObject) : Digest → Text → Digest → Prop
  | file {root digest : Digest} {tree : TreeObject} {entry : TreeEntry} {byteLen : Nat}
      (htree : trees.get? root = some tree) (hentry : entry ∈ tree.entries)
      (hkind : entry.kind = .file digest byteLen) : TreeAssigns trees root entry.name digest
  | symlink {root digest : Digest} {tree : TreeObject} {entry : TreeEntry}
      (htree : trees.get? root = some tree) (hentry : entry ∈ tree.entries)
      (hkind : entry.kind = .symlink digest) : TreeAssigns trees root entry.name digest
  | directory {root child digest : Digest} {tree : TreeObject} {entry : TreeEntry} {path : Text}
      (htree : trees.get? root = some tree) (hentry : entry ∈ tree.entries)
      (hkind : entry.kind = .directory child) (hbelow : TreeAssigns trees child path digest) :
      TreeAssigns trees root (entry.name ++ '/' :: path) digest

/-- The digests of a generation's targets and of the members of its trees. -/
inductive Assigns (trees : SortedMap Digest TreeObject) (snapshot : DesiredSnapshot) :
    DeploymentName → Text → Digest → Prop
  | file {target : StateTarget} {file : StateFile} (hmem : target ∈ snapshot.targets)
      (hstate : target.state = .file (some file)) :
      Assigns trees snapshot target.authority target.relativePath file.digest
  | member {target : StateTarget} {tree : StateTree} {path : Text} {digest : Digest}
      (hmem : target ∈ snapshot.targets) (hstate : target.state = .tree (some tree))
      (hbelow : TreeAssigns trees tree.tree path digest) :
      Assigns trees snapshot target.authority (target.relativePath ++ '/' :: path) digest

/-- Every cached entry has the digest that the generation assigns to its target. -/
def CacheRight (trees : SortedMap Digest TreeObject) (snapshot : DesiredSnapshot)
    (files : ObservedFiles) : Prop :=
  ∀ authority path observed, files.get? (toLex (authority, path)) = some observed →
    Assigns trees snapshot authority path observed.digest

section Exactness

variable {objects : Objects} {entries : Entries} {trees : SortedMap Digest TreeObject}
  {snapshot : DesiredSnapshot} {target : RecordedTarget}

/-! ## 4. What a slot says about a path -/

theorem get?_slotMap {α : Type} {slots : List (Text × α)} {value : α} :
    (slotMap slots).get? path = some value ↔ LastAt slots path value :=
  SortedMap.get?_foldl_insert_empty

def HoldsFile (objects : Objects) (entries : Entries) (target : RecordedTarget) (file : StateFile) :
    Prop :=
  ∃ object, entries (target.parent, target.leaf) = .found object ∧
    FileType.fromRawMode (objects.identity object).mode = .regularFile ∧
      (objects.identity object).size = file.byteLen

/-- A tree entry that a directory holds, with the digest of the path below the directory. -/
def HoldsEntry (objects : Objects) (entries : Entries)
    (holds : Nat → Digest → Text → Digest → Prop) (directory : Nat) (path : Text)
    (digest : Digest) (entry : TreeEntry) : Prop :=
  ∃ object, entries (directory, entry.name) = .found object ∧
    match entry.kind with
    | .file recorded _ => path = entry.name ∧ digest = recorded
    | .symlink recorded => path = entry.name ∧ digest = recorded
    | .directory child => objects.opens object ∧
        ∃ below, path = entry.name ++ '/' :: below ∧ holds object child below digest

/-- The digest of a path below a directory that holds a tree: that of the last entry. -/
def HoldsMember (objects : Objects) (entries : Entries) (trees : SortedMap Digest TreeObject) :
    Nat → Nat → Digest → Text → Digest → Prop
  | 0, _, _, _, _ => False
  | depthLeft + 1, directory, root, path, digest =>
    ∃ tree before entry after, trees.get? root = some tree ∧
      tree.entries = before ++ entry :: after ∧
        HoldsEntry objects entries (HoldsMember objects entries trees depthLeft) directory path
          digest entry ∧
        ∀ other ∈ after, ∀ hidden, ¬ HoldsEntry objects entries
          (HoldsMember objects entries trees depthLeft) directory path hidden other

/-- What the last slot with a target's relative path, whoever's it is, says about a path that the
target holds: a file slot about the target itself, otherwise a tree slot about its members. -/
inductive Speaks (objects : Objects) (entries : Entries) (trees : SortedMap Digest TreeObject)
    (snapshot : DesiredSnapshot) (target : RecordedTarget) : Text → Digest → Prop
  | file {file : StateFile}
      (slot : LastAt (snapshot.targets.filterMap fileSlot) target.relativePath file)
      (holds : HoldsFile objects entries target file) :
      Speaks objects entries trees snapshot target target.relativePath file.digest
  | member {tree digest : Digest} {object : Nat} {path : Text}
      (none : ∀ file, ¬ LastAt (snapshot.targets.filterMap fileSlot) target.relativePath file)
      (slot : LastAt (snapshot.targets.filterMap treeSlot) target.relativePath tree)
      (found : entries (target.parent, target.leaf) = .found object)
      (opens : objects.opens object)
      (holds : HoldsMember objects entries trees (maxTreeDepth + 1) object tree path digest) :
      Speaks objects entries trees snapshot target (target.relativePath ++ '/' :: path) digest

/-! ## 5. When the cache is right -/

/-- A target records a digest for a path. -/
def Records (pairs : List ((DeploymentName ×ₗ Text) × ObservedFile)) (authority : DeploymentName)
    (path : Text) (digest : Digest) : Prop :=
  ∃ observed : ObservedFile, observed.digest = digest ∧
    LastAt pairs (toLex (authority, path)) observed

theorem not_records_nil :
    ¬ Records [] auth path digest := by
  rintro ⟨observed, -, hlast⟩
  exact LastAt.not_nil hlast

theorem records_singleton {auth other : DeploymentName} {path member : Text}
    {observed : ObservedFile} :
    Records [(toLex (auth, path), observed)] other member digest ↔
      other = auth ∧ member = path ∧ digest = observed.digest := by
  simp only [Records, LastAt.singleton_iff, toLex_inj, Prod.mk.injEq]
  constructor
  · rintro ⟨found, rfl, ⟨rfl, rfl⟩, rfl⟩
    exact ⟨rfl, rfl, rfl⟩
  · rintro ⟨rfl, rfl, rfl⟩
    exact ⟨observed, rfl, ⟨rfl, rfl⟩, rfl⟩

theorem Records.flatMap_iff {ι : Type} {items : List ι}
    {pairs : ι → List ((DeploymentName ×ₗ Text) × ObservedFile)} :
    Records (items.flatMap pairs) auth path digest ↔
      ∃ before item after, items = before ++ item :: after ∧
        Records (pairs item) auth path digest ∧
          ∀ other ∈ after, ∀ hidden, ¬ Records (pairs other) auth path hidden := by
  have hkeys : ∀ after : List ι, toLex (auth, path) ∉ (after.flatMap pairs).map Prod.fst ↔
      ∀ other ∈ after, ∀ hidden, ¬ Records (pairs other) auth path hidden := by
    intro after
    rw [map_flatMap, mem_flatMap]
    simp only [LastAt.mem_keys_iff, Records]
    push Not
    constructor
    · intro h other hother hidden found _
      exact h other hother found
    · intro h other hother found
      exact h other hother found.digest found rfl
  simp only [Records, LastAt.flatMap_iff, hkeys]
  constructor
  · rintro ⟨observed, hdigest, before, item, after, hitems, hat, hlast⟩
    exact ⟨before, item, after, hitems, ⟨observed, hdigest, hat⟩, hlast⟩
  · rintro ⟨before, item, after, hitems, ⟨observed, hdigest, hat⟩, hlast⟩
    exact ⟨observed, hdigest, before, item, after, hitems, hat, hlast⟩

/-- What a held directory records is what its members say. -/
theorem records_members {auth other : DeploymentName} {member : Text} :
    ∀ {depthLeft dir : Nat} {root : Digest} {path : Text},
      Records (recordTreeMembers objects entries trees auth depthLeft dir root path)
        other member digest ↔
          other = auth ∧ ∃ below, member = path ++ '/' :: below ∧
            HoldsMember objects entries trees depthLeft dir root below digest := by
  intro depthLeft
  induction depthLeft generalizing digest with
  | zero => simp [recordTreeMembers, HoldsMember, not_records_nil]
  | succ depthLeft ih =>
    intro dir root path
    unfold recordTreeMembers
    cases htree : trees.get? root with
    | none => simp [HoldsMember, htree, not_records_nil]
    | some tree =>
      have hentry : ∀ entry digest, Records
          (match entry.kind, entries (dir, entry.name) with
          | .file recorded _, .found object =>
            [(toLex (auth, path ++ '/' :: entry.name), ⟨objects.identity object, recorded⟩)]
          | .symlink recorded, .found object =>
            [(toLex (auth, path ++ '/' :: entry.name), ⟨objects.identity object, recorded⟩)]
          | .directory child, .found object =>
            if objects.opens object then
              recordTreeMembers objects entries trees auth depthLeft object child
                (path ++ '/' :: entry.name)
            else []
          | _, _ => []) other member digest ↔
            other = auth ∧ ∃ below, member = path ++ '/' :: below ∧
              HoldsEntry objects entries (HoldsMember objects entries trees depthLeft) dir
                below digest entry := by
        intro entry digest
        unfold HoldsEntry
        cases entries (dir, entry.name) with
        | found object =>
          cases entry.kind with
          | directory child =>
            by_cases hopens : objects.opens object
            · simp [hopens, ih]
            · simp [hopens, not_records_nil]
          | _ => simp [records_singleton]
        | _ => cases entry.kind <;> simp [not_records_nil]
      rw [Records.flatMap_iff]
      constructor
      · rintro ⟨before, entry, after, hsplit, hrecords, hlast⟩
        obtain ⟨rfl, below, rfl, hholds⟩ := (hentry _ _).1 hrecords
        refine ⟨rfl, below, rfl, tree, before, entry, after, htree, hsplit, hholds, ?_⟩
        intro later hlater hidden hhidden
        exact hlast later hlater hidden ((hentry _ _).2 ⟨rfl, below, rfl, hhidden⟩)
      · rintro ⟨rfl, below, rfl, found, before, entry, after, hfound, hsplit, hholds, hlast⟩
        obtain rfl : tree = found := Option.some.inj (htree.symm.trans hfound)
        refine ⟨before, entry, after, hsplit, (hentry _ _).2 ⟨rfl, below, rfl, hholds⟩, ?_⟩
        intro later hlater hidden hhidden
        obtain ⟨-, path', hpath, hholds'⟩ := (hentry _ _).1 hhidden
        obtain rfl : below = path' := by simpa using hpath
        exact hlast later hlater hidden hholds'

/-- What the record of a target holds is what its deciding slot says. -/
theorem records_target {other : DeploymentName} :
    Records (recordTarget objects entries trees snapshot target) other path digest ↔
      other = target.authority ∧ Speaks objects entries trees snapshot target path digest := by
  unfold recordTarget
  cases hfile : (slotMap (snapshot.targets.filterMap fileSlot)).get? target.relativePath with
  | some file =>
    have hslot := get?_slotMap.1 hfile
    have hrecord : Records (recordFile objects entries target file) other path digest ↔
        HoldsFile objects entries target file ∧
          other = target.authority ∧ path = target.relativePath ∧ digest = file.digest := by
      unfold recordFile HoldsFile
      cases entries (target.parent, target.leaf) with
      | found object =>
        dsimp only
        split
        · rename_i hfile
          rw [RecordedTarget.key, records_singleton]
          simp [hfile]
        · simp_all [not_records_nil]
      | _ => simp [not_records_nil]
    rw [hrecord]
    constructor
    · rintro ⟨hholds, rfl, rfl, rfl⟩
      exact ⟨rfl, .file hslot hholds⟩
    · rintro ⟨rfl, hspeaks⟩
      cases hspeaks with
      | file slot holds =>
        obtain rfl := Option.some.inj (hfile.symm.trans (get?_slotMap.2 slot))
        exact ⟨holds, rfl, rfl, rfl⟩
      | member none => exact absurd hslot (none file)
  | none =>
    have hnone : ∀ file, ¬ LastAt (snapshot.targets.filterMap fileSlot) target.relativePath file := by
      intro file hlast
      rw [get?_slotMap.2 hlast] at hfile
      cases hfile
    dsimp only
    constructor
    · intro hrecords
      cases htree : (slotMap (snapshot.targets.filterMap treeSlot)).get? target.relativePath with
      | none =>
        rw [htree] at hrecords
        exact absurd hrecords not_records_nil
      | some tree =>
        rw [htree] at hrecords
        change Records (recordTree objects entries trees target tree) other path digest at hrecords
        unfold recordTree at hrecords
        split at hrecords
        · rename_i object hfound
          split at hrecords
          · rename_i hopens
            obtain ⟨rfl, below, rfl, hholds⟩ := records_members.1 hrecords
            exact ⟨rfl, .member hnone (get?_slotMap.1 htree) hfound hopens hholds⟩
          · exact absurd hrecords not_records_nil
        · exact absurd hrecords not_records_nil
    · rintro ⟨rfl, hspeaks⟩
      cases hspeaks with
      | file slot holds => exact absurd slot (hnone _)
      | member none slot found opens holds =>
        rw [get?_slotMap.2 slot]
        simp only [recordTree, found, opens, if_true]
        exact records_members.2 ⟨rfl, _, rfl, holds⟩

/-- **When the cache is right**: what the last slot with a target's relative path, whoever's it is,
says about a held path is what the generation assigns to it. -/
theorem recordObserved_right_iff (objects : Objects) (entries : Entries)
    (trees : SortedMap Digest TreeObject) (observed : ObservedIdentities)
    (targets : List RecordedTarget) (ns : NamespaceName) (gen : Digest)
    (snapshot : DesiredSnapshot) :
    (∀ files, observedFilesFor (recordObserved objects entries trees observed targets ns
        (some (gen, snapshot))) ns gen = some files →
          CacheRight trees snapshot files) ↔
      ∀ before target rest, targets = before ++ target :: rest → ∀ path digest,
        Speaks objects entries trees snapshot target path digest →
        (∀ later ∈ rest, later.authority = target.authority → ∀ hidden,
          ¬ Speaks objects entries trees snapshot later path hidden) →
        Assigns trees snapshot target.authority path digest := by
  have hfiles : ∀ files, observedFilesFor (recordObserved objects entries trees observed targets
      ns (some (gen, snapshot))) ns gen = some files ↔
        files = recordFiles objects entries trees snapshot targets := by
    intro files
    simp [observedFilesFor, recordObserved, eq_comm]
  have hright : CacheRight trees snapshot (recordFiles objects entries trees snapshot targets) ↔
      ∀ auth path digest,
        Records (targets.flatMap (recordTarget objects entries trees snapshot)) auth path digest →
          Assigns trees snapshot auth path digest := by
    simp only [CacheRight, recordFiles, SortedMap.get?_foldl_insert_empty, Records]
    constructor
    · rintro h auth path _ ⟨found, rfl, hlast⟩
      exact h auth path found hlast
    · intro h auth path found hlast
      exact h auth path _ ⟨found, rfl, hlast⟩
  simp only [hfiles, forall_eq, hright, Records.flatMap_iff, records_target]
  constructor
  · intro h before target rest htargets path digest hspeaks hlast
    refine h target.authority path digest ⟨before, target, rest, htargets, ⟨rfl, hspeaks⟩, ?_⟩
    rintro later hlater hidden ⟨hsame, hhidden⟩
    exact hlast later hlater hsame.symm hidden hhidden
  · rintro h auth path digest ⟨before, target, rest, htargets, ⟨rfl, hspeaks⟩, hlast⟩
    refine h before target rest htargets path digest hspeaks ?_
    intro later hlater hsame hidden hhidden
    exact hlast later hlater hidden ⟨hsame.symm, hhidden⟩

theorem HoldsMember.treeAssigns : ∀ {depthLeft dir : Nat} {root : Digest}
    {path : Text}, HoldsMember objects entries trees depthLeft dir root path digest →
      TreeAssigns trees root path digest := by
  intro depthLeft
  induction depthLeft with
  | zero =>
    intro dir root path h
    cases h
  | succ depthLeft ih =>
    rintro dir root path ⟨tree, before, entry, after, htree, hsplit, hholds, -⟩
    have hentry : entry ∈ tree.entries := by simp [hsplit]
    obtain ⟨object, -, hkind⟩ := hholds
    split at hkind
    · rename_i recorded byteLen hfile
      obtain ⟨rfl, rfl⟩ := hkind
      exact .file htree hentry hfile
    · rename_i recorded hlink
      obtain ⟨rfl, rfl⟩ := hkind
      exact .symlink htree hentry hlink
    · rename_i child hdirectory
      obtain ⟨-, below, rfl, hbelow⟩ := hkind
      exact .directory htree hentry hdirectory (ih hbelow)

/-- Where one authority alone has a present slot at each target's path, the cache is right. -/
theorem Speaks.assigns_of_own
    (h : Speaks objects entries trees snapshot target path digest)
    (own : ∀ claim ∈ snapshot.targets, claim.relativePath = target.relativePath →
      claim.state.isPresent → claim.authority = target.authority) :
    Assigns trees snapshot target.authority path digest := by
  cases h with
  | file slot holds =>
    obtain ⟨claim, hmem, hslot⟩ := mem_filterMap.1 slot.mem
    unfold fileSlot at hslot
    split at hslot
    · rename_i file hstate
      obtain ⟨hpath, rfl⟩ := Prod.mk.inj (Option.some.inj hslot)
      rw [← hpath, ← own claim hmem hpath (by rw [hstate]; rfl)]
      exact .file hmem hstate
    · cases hslot
  | member none slot found opens holds =>
    obtain ⟨claim, hmem, hslot⟩ := mem_filterMap.1 slot.mem
    unfold treeSlot at hslot
    split at hslot
    · rename_i tree hstate
      obtain ⟨hpath, rfl⟩ := Prod.mk.inj (Option.some.inj hslot)
      rw [← hpath, ← own claim hmem hpath (by rw [hstate]; rfl)]
      exact .member hmem hstate holds.treeAssigns
    · cases hslot

end Exactness

/-! ## 6. One path of two authorities -/

/-- Two files of one size at the path `x` of two authorities. -/
def twoFiles : DesiredSnapshot :=
  ⟨[⟨['a'], ['x'], .file (some ⟨⟨1⟩, 5, 0o644⟩)⟩, ⟨['b'], ['x'], .file (some ⟨⟨2⟩, 5, 0o644⟩)⟩]⟩

/-- Each authority's root holds its file. -/
def twoFilesEntries : Entries := fun key =>
  if key = (0, ['x']) then .found 2 else if key = (1, ['x']) then .found 3 else .absent

def twoFilesObjects : Objects where
  identity := fun object => ⟨1, object, 1000, 1000, 0o100644, 1, 5, 0, 0, 0, 0⟩
  opens := fun _ => false
  rejectTraversal := fun _ => .ok ()
  rejectDestination := fun _ => .ok ()
  syncs := fun _ => true

def twoFilesTargets : List RecordedTarget := [⟨['a'], ['x'], 0, ['x']⟩, ⟨['b'], ['x'], 1, ['x']⟩]

/-- **The other authority's digest is cached** for the file `x` of `a`. -/
theorem other_digest_cached :
    validateStateTargets twoFiles.targets = .ok () ∧
      ∃ files observed,
        observedFilesFor (recordObserved twoFilesObjects twoFilesEntries .empty ⟨1, .empty⟩
          twoFilesTargets "n".toList (some (⟨9⟩, twoFiles))) "n".toList ⟨9⟩ = some files ∧
        files.get? (toLex (['a'], ['x'])) = some observed ∧ observed.digest = ⟨2⟩ ∧
          ¬ Assigns .empty twoFiles ['a'] ['x'] ⟨2⟩ := by
  refine ⟨by decide +kernel, _, ⟨twoFilesObjects.identity 2, ⟨2⟩⟩, rfl, by decide +kernel, rfl, ?_⟩
  intro hassigns
  generalize hdigest : (⟨2⟩ : Digest) = digest at hassigns
  generalize hpath : (['x'] : Text) = path at hassigns
  generalize hauthority : (['a'] : Text) = auth at hassigns
  cases hassigns with
  | file hmem hstate =>
    simp only [twoFiles, mem_cons, not_mem_nil, or_false] at hmem
    rcases hmem with rfl | rfl
    · cases hstate
      cases hdigest
    · cases hauthority
  | member hmem hstate hbelow =>
    simp only [twoFiles, mem_cons, not_mem_nil, or_false] at hmem
    rcases hmem with rfl | rfl
    · cases hstate
    · cases hstate

end Malm.Commit
