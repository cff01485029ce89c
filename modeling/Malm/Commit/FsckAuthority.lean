/-
Malm.Commit.FsckAuthority — `FsckScan::validate_authority` and `fsck_v1`
(`inspection.rs`): what the catalog and the prepared plans retain, and the report.

The closure is written here a second time, apart from the one of a prune. Sets of digests
are lists where only membership is asked.
-/
import Malm.Commit.Fsck
import Malm.Commit.Target

namespace Malm.Commit

open Store

/-! ## 1. The loaded world and its roots -/

structure FsckWorld where
  catalog : Option StateCatalog
  prepared : SortedMap PreparedId PreparedRecord
  generations : SortedMap Digest StateGeneration
  blobs : SortedMap Digest Nat
  packs : SortedMap Digest Unit
  canonical : CanonicalObjects

structure FsckGenerationRoot where
  digest : Digest
  limit : Nat
  namespaceName : Option NamespaceName
deriving DecidableEq, Repr

structure FsckAuthorityRoots where
  generations : List FsckGenerationRoot
  plans : List PreparedId
  blobs : List Digest
  packs : List Digest
  files : List Digest
  symlinks : List Digest
  trees : List Digest

def FsckAuthorityRoots.start (plans : List PreparedId) : FsckAuthorityRoots :=
  ⟨[], plans, [], [], [], [], []⟩

def FsckAuthorityRoots.addGeneration (roots : FsckAuthorityRoots) (root : FsckGenerationRoot) :
    FsckAuthorityRoots :=
  { roots with generations := roots.generations ++ [root] }

def collectRestorePoint (generations : SortedMap Digest StateGeneration)
    (roots : FsckAuthorityRoots) (point : RestorePoint) : FsckM FsckAuthorityRoots :=
  match generations.get? point.generation with
  | none => do
    fsckError .missingGeneration (.generation point.generation)
      "a restore point references a missing or invalid generation"
    pure roots
  | some generation =>
    match validateRestorePointReference point point.generation generation with
    | .ok () =>
      pure (roots.addGeneration ⟨point.generation, 1, some point.namespaceName⟩)
    | .error _ => do
      fsckError .invalidGeneration .retention
        "a restore point differs from its retained generation"
      pure roots

def FsckAuthorityRoots.pin (roots : FsckAuthorityRoots) : RetentionObject → FsckAuthorityRoots
  | .preparedPlan planId => { roots with plans := planId :: roots.plans }
  | .stateGeneration digest => roots.addGeneration ⟨digest, 1, none⟩
  | .artifactBlob digest => { roots with blobs := digest :: roots.blobs }
  | .packObject digest => { roots with packs := digest :: roots.packs }
  | .canonicalFile digest => { roots with files := digest :: roots.files }
  | .canonicalSymlink digest => { roots with symlinks := digest :: roots.symlinks }
  | .canonicalTree digest => { roots with trees := digest :: roots.trees }

/-- The selected restore point, and `collect_retention_roots` of the authority. -/
def collectAuthority (generations : SortedMap Digest StateGeneration)
    (restorePoint : Option RestorePoint) (authority : RetentionAuthority)
    (roots : FsckAuthorityRoots) : FsckM FsckAuthorityRoots := do
  let roots ← (restorePoint.toList ++ authority.restorePoints).foldlM
    (collectRestorePoint generations) roots
  return authority.explicitPins.foldl FsckAuthorityRoots.pin roots

/-- The roots with the selected generations so far. -/
structure FsckHeads where
  roots : FsckAuthorityRoots
  selected : List (NamespaceName × StateGeneration)

def requireHeadNamespace (head : NamespaceHead) (generation : StateGeneration) : FsckM Unit :=
  if generation.namespaceName = head.namespaceName then
    pure ()
  else
    fsckError .crossNamespaceHistory (.generation head.generation)
      "a catalog head selects a generation for another namespace"

def collectHead (generations : SortedMap Digest StateGeneration) (heads : FsckHeads)
    (head : NamespaceHead) : FsckM FsckHeads :=
  match generations.get? head.generation with
  | none => do
    fsckError .missingGeneration (.generation head.generation)
      "a catalog-selected namespace head is missing or invalid"
    pure heads
  | some generation => do
    requireHeadNamespace head generation
    let roots ← collectAuthority generations generation.restorePoint generation.retention
      (heads.roots.addGeneration
        ⟨head.generation, generation.retention.history, some head.namespaceName⟩)
    return ⟨roots, heads.selected ++ [(head.namespaceName, generation)]⟩

def collectPlan (generations : SortedMap Digest StateGeneration) (roots : FsckAuthorityRoots)
    (plan : PreparedId × PreparedRecord) : FsckM FsckAuthorityRoots :=
  collectAuthority generations plan.2.restorePoint plan.2.retention roots

/-! ## 2. Generations -/

section Generations

variable (codec : ObjectCodec) (prepared : SortedMap PreparedId PreparedRecord)
  (generations : SortedMap Digest StateGeneration)

def requireRebuilt (rebuilt : Except StateRecordError StateGeneration)
    (generation : StateGeneration) (digest : Digest) (detail : String) : FsckM Unit :=
  if rebuilt = .ok generation then
    pure ()
  else
    fsckError .invalidPreparedTransition (.generation digest) detail

def validateAboveFloor (digest : Digest) (generation : StateGeneration) (record : PreparedRecord) :
    FsckM Unit :=
  let previous := generation.previousGeneration.bind generations.get?
  match generation.previousGeneration, previous with
  | some missing, none =>
    fsckError .missingGeneration (.generation missing)
      "a retained history edge points to a missing or invalid predecessor"
  | _, previous =>
    requireRebuilt
      (fromPrepared codec.toCodec generation.planId generation.previousGeneration previous record)
      generation digest
      "the generation is not the exact transition derived from its prepared plan"

def validateGenerationTransitionRecord (digest : Digest) (generation : StateGeneration)
    (atRetainedFloor : Bool) : FsckM Unit :=
  match prepared.get? generation.planId with
  | none =>
    fsckError .missingPreparedPlan (.preparedPlan generation.planId)
      "a retained generation references a missing or invalid prepared plan"
  | some record =>
    if atRetainedFloor then
      requireRebuilt
        (fromRetainedPrepared codec.toCodec generation.planId generation.previousGeneration record)
        generation digest
        "the generation is not the exact transition derived from its prepared plan"
    else
      validateAboveFloor codec generations digest generation record

def validateUnreachableGeneration (digest : Digest) (generation : StateGeneration) : FsckM Unit :=
  match prepared.get? generation.planId with
  | none =>
    fsckError .missingPreparedPlan (.preparedPlan generation.planId)
      "an unretained generation references a missing or invalid prepared plan"
  | some record =>
    let previous := generation.previousGeneration.bind generations.get?
    requireRebuilt
      (if generation.previousGeneration.isSome ∧ previous.isNone then
        fromRetainedPrepared codec.toCodec generation.planId generation.previousGeneration record
      else
        fromPrepared codec.toCodec generation.planId generation.previousGeneration previous record)
      generation digest
      "the unretained generation differs from its immutable prepared authority"

/-- `generation_namespaces` and `reachable_generations`. -/
structure FsckWalk where
  namespaces : SortedMap Digest NamespaceName
  reachable : List Digest

/-- The check that no other history retains a generation. -/
def requireOwnNamespace (walk : FsckWalk) (digest : Digest) (expected : NamespaceName) :
    FsckM Unit :=
  if (walk.namespaces.get? digest).any (· ≠ expected) then
    fsckError .sharedGeneration (.generation digest)
      "one generation is retained by different namespace histories"
  else
    pure ()

/-- The loop of `FsckScan::walk_generation_root`. -/
def walkGenerations : Nat → Option Digest → Option NamespaceName → List Digest → FsckWalk →
    FsckM FsckWalk
  | 0, _, _, _, walk => pure walk
  | _ + 1, none, _, _, walk => pure walk
  | left + 1, some digest, namespaceName, lineage, walk =>
    if digest ∈ lineage then do
      fsckError .cyclicHistory (namespaceName.elim (.generation digest) .namespaceName)
        "a retained generation predecessor chain contains a cycle"
      pure walk
    else
      match generations.get? digest with
      | none => do
        fsckError .missingGeneration (.generation digest)
          "retention authority references a missing or invalid generation"
        pure walk
      | some generation =>
        let expected := namespaceName.getD generation.namespaceName
        if generation.namespaceName ≠ expected then do
          fsckError .crossNamespaceHistory (.generation digest)
            "a retained history enters a generation for another namespace"
          pure walk
        else do
          requireOwnNamespace walk digest expected
          -- The floor is the last record that the limit admits.
          validateGenerationTransitionRecord codec prepared generations digest generation
            (left = 0)
          walkGenerations left generation.previousGeneration (some expected) (digest :: lineage)
            ⟨walk.namespaces.insert digest expected, digest :: walk.reachable⟩

def walkGenerationRoot (walk : FsckWalk) (root : FsckGenerationRoot) : FsckM FsckWalk :=
  walkGenerations codec prepared generations root.limit (some root.digest) root.namespaceName []
    walk

def reportUnreachable (reachable : List Digest) (entry : Digest × StateGeneration) : FsckM Unit :=
  if entry.1 ∈ reachable then
    pure ()
  else do
    validateUnreachableGeneration codec prepared generations entry.1 entry.2
    fsckWarning .unreachableImmutableObject (.generation entry.1)
      "the verified state generation is not retained by current authority"

end Generations

/-! ## 3. Dependencies -/

/-- The roots with the lengths that records assign to blobs. -/
structure FsckDependencies where
  roots : FsckAuthorityRoots
  lengths : List (Digest × Nat)

def recordStateDependencies (found : FsckDependencies) : StateTargetState → FsckDependencies
  | .file (some file) =>
    ⟨{ found.roots with blobs := file.digest :: found.roots.blobs },
      (file.digest, file.byteLen) :: found.lengths⟩
  | .symlink (some symlink) =>
    { found with roots :=
      { found.roots with symlinks := symlink.object :: found.roots.symlinks } }
  | .tree (some tree) =>
    { found with roots := { found.roots with trees := tree.tree :: found.roots.trees } }
  | _ => found

def recordTrackedRoot (found : FsckDependencies) (trackedRoot : Option TrackedRoot) :
    FsckDependencies :=
  { found with roots :=
    { found.roots with
      trees := (trackedRoot.map TrackedRoot.rootTreeDigest).toList ++ found.roots.trees } }

def recordPreparedDependencies (found : FsckDependencies) (record : PreparedRecord) :
    FsckDependencies :=
  let found : FsckDependencies :=
    ⟨{ found.roots with
        blobs := record.artifacts.map PreparedArtifact.digest ++ found.roots.blobs
        packs := recordPackRoots record ++ found.roots.packs },
      record.artifacts.map (fun artifact => (artifact.digest, artifact.byteLen)) ++ found.lengths⟩
  recordTrackedRoot ((snapshotStates record.desiredSnapshot).foldl recordStateDependencies found)
    record.trackedRoot

def recordGenerationDependencies (found : FsckDependencies) (generation : StateGeneration) :
    FsckDependencies :=
  let found : FsckDependencies :=
    { found with roots :=
      { found.roots with
        blobs := generation.artifacts.map StateArtifact.digest ++ found.roots.blobs } }
  recordTrackedRoot
    ((snapshotStates generation.desiredSnapshot).foldl recordStateDependencies found)
    generation.trackedRoot

def recordPlan (prepared : SortedMap PreparedId PreparedRecord) (found : FsckDependencies)
    (planId : PreparedId) : FsckM FsckDependencies :=
  match prepared.get? planId with
  | none => do
    fsckError .missingPreparedPlan (.preparedPlan planId)
      "retention or journal authority references a missing prepared plan"
    pure found
  | some record => pure (recordPreparedDependencies found record)

/-! ## 4. Retained objects -/

def validateBlobRoot (lengths : List (Digest × Nat)) (blobs : SortedMap Digest Nat)
    (digest : Digest) : FsckM Unit :=
  match blobs.get? digest with
  | none =>
    fsckError .missingArtifactBlob (.artifactBlob digest)
      "retained authority references a missing or invalid artifact blob"
  | some actual =>
    let expected := sortedSet ((lengths.filter fun entry => entry.1 = digest).map Prod.snd)
    if expected ≠ [] ∧ (expected.length ≠ 1 ∨ expected.head? ≠ some actual) then
      fsckError .artifactLengthMismatch (.artifactBlob digest)
        "retained records assign conflicting or incorrect artifact lengths"
    else
      pure ()

def validatePackRoot (packs : SortedMap Digest Unit) (digest : Digest) : FsckM Unit :=
  if packs.contains digest then
    pure ()
  else
    fsckError .missingPackObject (.packObject digest)
      "retained authority references a missing or invalid pack object"

section Canonical

variable (objects : CanonicalObjects)

def validateFileRoot (digest : Digest) : FsckM Unit :=
  if objects.files.contains digest then
    pure ()
  else
    fsckError .missingCanonicalObject (.canonicalFile digest)
      "retention authority references a missing or invalid canonical file"

def validateSymlinkRoot (digest : Digest) : FsckM Unit :=
  match objects.safeSymlinkTarget digest with
  | .ok _ => pure ()
  | .error _ =>
    if objects.symlinks.contains digest then
      fsckError .corruptCanonicalObject (.canonicalSymlink digest)
        "a retained canonical symlink has an unsafe target"
    else
      fsckError .missingCanonicalObject (.canonicalSymlink digest)
        "retention authority references a missing or invalid canonical symlink"

/-- The sets that `FsckScan::mark_canonical_tree` fills. -/
structure FsckMarks where
  files : List Digest
  symlinks : List Digest
  trees : List Digest

def FsckMarks.add (marks : FsckMarks) (digest : Digest) (tree : TreeObject) : FsckMarks where
  files := (tree.entries.filterMap fun entry =>
    match entry.kind with
    | .file file _ => some file
    | _ => none) ++ marks.files
  symlinks := (tree.entries.filterMap fun entry =>
    match entry.kind with
    | .symlink link => some link
    | _ => none) ++ marks.symlinks
  trees := digest :: marks.trees

def treeDirectories (tree : TreeObject) : List Digest :=
  tree.entries.filterMap fun entry =>
    match entry.kind with
    | .directory child => some child
    | _ => none

def checkMarkedEntry (entry : TreeEntry) : FsckM Unit :=
  match entry.kind with
  | .directory _ => pure ()
  | .file digest byteLen =>
    match objects.files.get? digest with
    | some contents =>
      if contents.byteLen = byteLen then
        pure ()
      else
        fsckError .corruptCanonicalObject (.canonicalFile digest)
          "a canonical tree assigns an incorrect file length"
    | none =>
      fsckError .missingCanonicalObject (.canonicalFile digest)
        "a retained canonical tree references a missing or invalid file"
  | .symlink digest =>
    if objects.symlinks.contains digest then
      pure ()
    else
      fsckError .missingCanonicalObject (.canonicalSymlink digest)
        "a retained canonical tree references a missing or invalid symlink"

def entryComplete (entry : TreeEntry) : Bool :=
  match entry.kind with
  | .directory _ => true
  | .file digest byteLen =>
    (objects.files.get? digest).any fun contents => contents.byteLen = byteLen
  | .symlink digest => objects.symlinks.contains digest

def unmarked (marks : FsckMarks) : List Digest :=
  objects.trees.keys.filter fun digest => digest ∉ marks.trees

theorem unmarked_le (marks : FsckMarks) (d : Digest) :
    (unmarked objects { marks with trees := d :: marks.trees }).length ≤
      (unmarked objects marks).length := by
  refine (List.monotone_filter_right _ ?_).length_le
  intro other hother
  simp only [List.mem_cons, not_or, decide_eq_true_eq] at hother ⊢
  exact hother.2

theorem unmarked_lt {marks : FsckMarks} {d : Digest} {tree : TreeObject}
    (hfresh : d ∉ marks.trees) (hstored : objects.trees.get? d = some tree) :
    (unmarked objects (marks.add d tree)).length < (unmarked objects marks).length := by
  have hmem : d ∈ unmarked objects marks := by
    simp only [unmarked, List.mem_filter, decide_eq_true_eq]
    exact ⟨SortedMap.mem_keys.2 ⟨tree, hstored⟩, hfresh⟩
  have hsub : (unmarked objects (marks.add d tree)).Sublist
      ((unmarked objects marks).filter fun other => other ≠ d) := by
    unfold unmarked
    rw [List.filter_filter]
    refine List.monotone_filter_right _ ?_
    intro other hother
    simp only [FsckMarks.add, List.mem_cons, not_or, decide_eq_true_eq] at hother
    simp [hother.1, hother.2]
  refine Nat.lt_of_le_of_lt hsub.length_le ?_
  refine List.length_filter_lt_length_iff_exists.2 ⟨d, hmem, ?_⟩
  simp

/-- The loop of `FsckScan::mark_canonical_tree`. -/
def markPending (marks : FsckMarks) (complete : Bool) : List Digest → FsckM (Bool × FsckMarks)
  | [] => pure (complete, marks)
  | digest :: pending =>
    if _hmarked : digest ∈ marks.trees then
      markPending marks complete pending
    else
      match _hstored : objects.trees.get? digest with
      | none => do
        fsckError .missingCanonicalObject (.canonicalTree digest)
          "retained authority references a missing or invalid canonical tree"
        markPending { marks with trees := digest :: marks.trees } false pending
      | some tree => do
        tree.entries.forM (checkMarkedEntry objects)
        markPending (marks.add digest tree)
          (complete && tree.entries.all (entryComplete objects))
          ((treeDirectories tree).reverse ++ pending)
termination_by pending => ((unmarked objects marks).length, pending.length)
decreasing_by
  · exact Prod.Lex.right _ (Nat.lt_succ_self _)
  · rcases Nat.lt_or_eq_of_le (unmarked_le objects marks digest) with hlt | heq
    · exact Prod.Lex.left _ _ hlt
    · rw [heq]
      exact Prod.Lex.right _ (Nat.lt_succ_self _)
  · exact Prod.Lex.left _ _ (unmarked_lt objects _hmarked _hstored)

/-- The check of the graph below a tree whose objects are all there. -/
def validateTreeRoot (root : Digest) (complete : Bool) : FsckM Unit :=
  if complete ∧ objects.validateTree root ≠ .ok () then
    fsckError .corruptCanonicalObject (.canonicalTree root)
      "a retained canonical tree graph is cyclic, unsafe, or inconsistent"
  else
    pure ()

/-- One retained tree of `FsckScan::validate_canonical_roots`. -/
def markTreeRoot (marks : FsckMarks) (root : Digest) : FsckM FsckMarks := do
  let (complete, marks) ← markPending objects marks true [root]
  validateTreeRoot objects root complete
  return marks

def validateCanonicalRoots (roots : FsckAuthorityRoots) : FsckM FsckMarks := do
  (sortedSet roots.files).forM (validateFileRoot objects)
  (sortedSet roots.symlinks).forM (validateSymlinkRoot objects)
  (sortedSet roots.trees).foldlM (markTreeRoot objects) ⟨roots.files, roots.symlinks, []⟩

end Canonical

/-! ## 5. Targets -/

/-- `TargetStatusKindV1`, as far as an observation returns it. -/
inductive TargetStatusKind where
  | exact
  | modified
  | missing
  | unexpected
deriving DecidableEq, Repr

/-- `observe_status_target`: the status and the bytes observed so far. -/
abbrev TargetObserver :=
  StateTarget → CanonicalObjects → Nat → Nat → Except CommitError TargetStatusKind × Nat

/-- The warning about an observed target, if there is one. -/
def reportTargetStatus (target : StateTarget) : Except CommitError TargetStatusKind → FsckM Unit
  | .ok .exact => pure ()
  | .ok _ =>
    fsckWarning .targetDrift (.target target.authority target.relativePath)
      "the managed target differs from the catalog-selected desired snapshot"
  | .error _ => do
    coverageGap
    fsckWarning .targetObservationFailed (.target target.authority target.relativePath)
      "the managed target could not be safely and completely observed"

/-- One target of `FsckScan::observe_selected_targets`; at the limit the loop
ends. -/
def observeSelectedTarget (observe : TargetObserver) (canonical : CanonicalObjects)
    (going : Bool) (target : StateTarget) : FsckM Bool := do
  let scan ← get
  if going = false then
    pure false
  else if scan.checkedTargets = scan.request.maxTargetObservations then do
    fsckError .traversalLimitExceeded .coverage
      "managed-target observations exceed the requested target limit"
    pure false
  else do
    let observed := observe target canonical scan.observedBytes scan.request.maxObservedBytes
    modify fun scan =>
      { scan with checkedTargets := scan.checkedTargets + 1, observedBytes := observed.2 }
    reportTargetStatus target observed.1
    pure true

def observeSelectedTargets (observe : TargetObserver) (canonical : CanonicalObjects)
    (selected : List (NamespaceName × StateGeneration)) : FsckM Unit := do
  let _ ← (selected.flatMap fun entry => entry.2.targets).foldlM
    (observeSelectedTarget observe canonical) true
  return ()

def validateOwnership (machine : Machine) (selected : List (NamespaceName × StateGeneration)) :
    FsckM Unit :=
  let valid := (fromSelectedGenerations selected).toOption.any fun projection =>
    (rejectProjectionAuthorityAliases machine projection none true).isOk
  if valid then
    pure ()
  else
    fsckError .invalidOwnership .ownership
      "catalog-selected snapshots cannot form one safe ownership projection"

/-! ## 6. The authority of a store -/

/-- The warnings about the entries of one kind that are not retained. -/
def warnUnretained (subject : Digest → FsckSubject) (detail : String) (retained : List Digest)
    (stored : List Digest) : FsckM Unit :=
  (stored.filter fun digest => digest ∉ retained).forM fun digest =>
    fsckWarning .unreachableImmutableObject (subject digest) detail

section Authority

variable (codec : ObjectCodec) (machine : Machine) (observe : TargetObserver)

/-- The warnings of `FsckScan::validate_authority` about objects. -/
def reportUnretained (world : FsckWorld) (roots : FsckAuthorityRoots) (marks : FsckMarks) :
    FsckM Unit := do
  warnUnretained .artifactBlob "the verified artifact blob is not retained by current authority"
    roots.blobs world.blobs.keys
  warnUnretained .packObject "the verified pack object is not retained by current authority"
    roots.packs world.packs.keys
  warnUnretained .canonicalFile "the verified canonical file is not retained by current authority"
    marks.files world.canonical.files.keys
  warnUnretained .canonicalSymlink
    "the verified canonical symlink is not retained by current authority"
    marks.symlinks world.canonical.symlinks.keys
  warnUnretained .canonicalTree "the verified canonical tree is not retained by current authority"
    marks.trees world.canonical.trees.keys

def validateAuthority (world : FsckWorld) : FsckM Unit := do
  let heads ← (world.catalog.toList.flatMap StateCatalog.heads).foldlM
    (collectHead world.generations) ⟨.start world.prepared.keys, []⟩
  let roots ← world.prepared.entries.foldlM (collectPlan world.generations) heads.roots
  let walk ← roots.generations.foldlM
    (walkGenerationRoot codec world.prepared world.generations) ⟨.empty, []⟩
  world.generations.entries.forM
    (reportUnreachable codec world.prepared world.generations walk.reachable)
  let found ← (sortedSet roots.plans).foldlM (recordPlan world.prepared) ⟨roots, []⟩
  let found := (generationsOf world.generations walk.reachable).foldl
    recordGenerationDependencies found
  (sortedSet found.roots.blobs).forM (validateBlobRoot found.lengths world.blobs)
  (sortedSet found.roots.packs).forM (validatePackRoot world.packs)
  let marks ← validateCanonicalRoots world.canonical found.roots
  reportUnretained world found.roots marks
  validateOwnership machine heads.selected
  let scan ← get
  if scan.request.observeTargets then
    observeSelectedTargets observe world.canonical heads.selected
  else
    pure ()

/-! ## 7. The scan -/

def FsckScan.finish (scan : FsckScan) : FsckReport where
  findings := scan.findings
  checkedGenerations := (sortedSet scan.checked.generations).length
  checkedPreparedPlans := (sortedSet scan.checked.prepared).length
  checkedArtifactBlobs := (sortedSet scan.checked.blobs).length
  checkedPackObjects := (sortedSet scan.checked.packs).length
  checkedCanonicalFiles := (sortedSet scan.checked.files).length
  checkedCanonicalSymlinks := (sortedSet scan.checked.symlinks).length
  checkedCanonicalTrees := (sortedSet scan.checked.trees).length
  checkedTargets := scan.checkedTargets
  decodedBytes := scan.decodedBytes
  observedBytes := scan.observedBytes
  findingsTruncated := scan.findingsTruncated
  complete := scan.complete

variable (packEnvelope : PackEnvelope) (layout : StoreLayout)

/-- The areas in the order in which `fsck_v1` loads them. -/
def loadWorld (state : StoreState) : FsckM FsckWorld := do
  let catalog ← fsckLoadCatalog codec state.objects state.catalog
  let prepared ← loadAreaOf (preparedArea codec) state.objects.prepared .empty
  let generations ← loadAreaOf (generationArea codec) state.objects.generations .empty
  let blobs ← loadAreaOf blobArea state.objects.blobs .empty
  let packs ← fsckLoadPacks packEnvelope state.objects
  let canonical ← fsckLoadCanonicalObjects codec state.objects
  return ⟨catalog, prepared, generations, blobs, packs, canonical⟩

/-- `fsck_v1`: authority is validated only over a complete inventory. -/
def fsckScan (state : StoreState) : FsckM Unit := do
  inspectStoreShape layout
  inspectLock layout.transactionLock .transactionLock
  inspectLock layout.maintenanceLock .maintenanceLock
  let world ← loadWorld codec packEnvelope state
  let scan ← get
  if scan.traversalLimitReported ∨ scan.decodedByteLimitReported then
    pure ()
  else
    validateAuthority codec machine observe world

def fsck (request : FsckRequest) (state : StoreState) : FsckReport :=
  ((fsckScan codec machine observe packEnvelope layout state).run (.new request)).2.finish

end Authority

end Malm.Commit
