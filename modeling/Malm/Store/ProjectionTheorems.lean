/-
Malm.Store.ProjectionTheorems — the ownership projection against its
quadratic definition.

`fromSelectedGenerations` counts and compares names (`Admitted`), then scans the sorted
claims once. The stack is a chain of enclosing paths (`Nested`), so what the scan reports
is an overlap, whatever the order of the selection.
-/
import Malm.Store.SnapshotTheorems
import Malm.Lib.Least
import Malm.Lib.Failures

namespace Malm.Store

open OwnershipClaim Least Checks List Prod

variable {claims : List OwnershipClaim}

/-! ## 1. The reported names -/

/-- The loop body of `namespaceMismatch`. -/
def keepMismatch (found : Option (NamespaceName ×ₗ NamespaceName))
    (entry : NamespaceName × StateGeneration) : Option (NamespaceName ×ₗ NamespaceName) :=
  if entry.1 ≠ entry.2.namespaceName then
    keep found (toLex (entry.1, entry.2.namespaceName))
  else
    found

theorem namespaceMismatch_eq (generations : List (NamespaceName × StateGeneration)) :
    namespaceMismatch generations = generations.foldl keepMismatch none := by
  unfold namespaceMismatch
  congr 1
  funext found entry
  cases found with
  | none => rfl
  | some cur => rfl

/-- A selected namespace with the differing namespace of its generation. -/
def Mismatched (generations : List (NamespaceName × StateGeneration))
    (pair : NamespaceName ×ₗ NamespaceName) : Prop :=
  ∃ entry ∈ generations, entry.1 ≠ entry.2.namespaceName ∧
    pair = toLex (entry.1, entry.2.namespaceName)

theorem foldl_keepMismatch {generations : List (NamespaceName × StateGeneration)} :
    ∀ {p : NamespaceName ×ₗ NamespaceName → Prop}
      {found : Option (NamespaceName ×ₗ NamespaceName)}, IsLeastOf p found →
      IsLeastOf (fun pair => p pair ∨ Mismatched generations pair)
        (generations.foldl keepMismatch found) := by
  induction generations with
  | nil =>
    intro p found h
    exact h.congr (by simp [Mismatched])
  | cons e rest ih =>
    intro p found h
    rw [foldl_cons]
    by_cases hdiffers : e.1 ≠ e.2.namespaceName
    · rw [keepMismatch, if_pos hdiffers]
      exact (ih h.keep).congr (by simp [Mismatched, hdiffers, or_assoc])
    · rw [keepMismatch, if_neg hdiffers]
      exact (ih h).congr (by simp [Mismatched, hdiffers])

theorem namespaceMismatch_least (generations : List (NamespaceName × StateGeneration)) :
    IsLeastOf (Mismatched generations) (namespaceMismatch generations) := by
  rw [namespaceMismatch_eq]
  have hnone : IsLeastOf (fun _ => False) (none : Option (NamespaceName ×ₗ NamespaceName)) :=
    fun _ h => h
  exact (foldl_keepMismatch hnone).congr (by simp)

/-- A namespace that `duplicateNamespace` may report. -/
def Repeated (seen selected : List NamespaceName) (namespaceName : NamespaceName) : Prop :=
  (namespaceName ∈ seen ∧ namespaceName ∈ selected) ∨ 2 ≤ selected.count namespaceName

theorem duplicateNamespace_cons (seen rest : List NamespaceName) (sel : NamespaceName)
    (found : Option NamespaceName) :
    duplicateNamespace seen (sel :: rest) found =
      if sel ∈ seen then duplicateNamespace seen rest (keep found sel)
      else duplicateNamespace (sel :: seen) rest found := by
  rw [duplicateNamespace.eq_def]
  cases found with
  | none => rfl
  | some cur =>
    simp only [keep, apply_ite (duplicateNamespace seen rest)]
    congr

theorem duplicateNamespace_keeps {sel : List NamespaceName} :
    ∀ {seen : List NamespaceName} {p : NamespaceName → Prop} {found : Option NamespaceName},
      IsLeastOf p found →
      IsLeastOf (fun name => p name ∨ Repeated seen sel name)
        (duplicateNamespace seen sel found) := by
  induction sel with
  | nil =>
    intro seen p found h
    exact h.congr (by simp [Repeated])
  | cons first rest ih =>
    intro seen p found h
    rw [duplicateNamespace_cons]
    by_cases hseen : first ∈ seen
    · rw [if_pos hseen]
      refine (ih h.keep).congr ?_
      intro name
      by_cases hname : name = first
      · subst hname
        simp [Repeated, hseen]
      · simp [Repeated, hname, Ne.symm hname]
    · rw [if_neg hseen]
      refine (ih h).congr ?_
      intro name
      by_cases hname : name = first
      · subst hname
        have hmem : 2 ≤ rest.count name → name ∈ rest := fun h => count_pos_iff.1 (by omega)
        simp [Repeated, hseen]
        tauto
      · simp [Repeated, hname, Ne.symm hname]

theorem duplicateNamespace_least (sel : List NamespaceName) :
    IsLeastOf (fun name => 2 ≤ sel.count name) (duplicateNamespace [] sel none) := by
  have hnone : IsLeastOf (fun _ => False) (none : Option NamespaceName) := fun _ h => h
  exact (duplicateNamespace_keeps hnone).congr (by simp [Repeated])

/-! ## 2. Permutations -/

theorem OwnershipClaim.key_injective {left right : OwnershipClaim} (h : left.key = right.key) :
    left = right := by
  rw [key, key, toLex_inj, Prod.mk.injEq, position, position, toLex_inj, Prod.mk.injEq] at h
  obtain ⟨⟨hauthority, hsegs⟩, hnamespace⟩ := h
  have hpath := Segments.splitOn_injective '/' hsegs
  cases left
  cases right
  simp_all

theorem sortClaims_perm {left right : List OwnershipClaim} (h : left.Perm right) :
    sortClaims left = sortClaims right := by
  have hperm : (sortClaims left).Perm (sortClaims right) :=
    (perm_insertionSort _ left).trans (h.trans (perm_insertionSort _ right).symm)
  refine hperm.eq_of_pairwise ?_ (sortClaims_sorted left) (sortClaims_sorted right)
  intro first snd _ _ hle hge
  exact key_injective (le_antisymm hle hge)

variable {left right : List (NamespaceName × StateGeneration)}

theorem namespaceMismatch_perm (h : left.Perm right) :
    namespaceMismatch left = namespaceMismatch right := by
  refine (namespaceMismatch_least left).unique ?_
  exact (namespaceMismatch_least right).congr (by simp [Mismatched, h.mem_iff])

theorem duplicateNamespace_perm (h : left.Perm right) :
    duplicateNamespace [] (left.map fst) none =
      duplicateNamespace [] (right.map fst) none := by
  refine (duplicateNamespace_least (left.map fst)).unique ?_
  refine (duplicateNamespace_least (right.map fst)).congr ?_
  intro name
  rw [(h.map fst).count_eq]

theorem presentClaims_perm (h : left.Perm right) :
    (presentClaims left).Perm (presentClaims right) :=
  h.flatMap_right _

def claimant (namespaceName : NamespaceName) (path : Text) : StateGeneration where
  namespaceName := namespaceName
  planId := ⟨0⟩
  previousGeneration := none
  transition := .reconcile
  lifecycle := .enabled
  restorePoint := none
  retention := ⟨16, [], []⟩
  trackedRoot := none
  desiredSnapshot := ⟨[⟨['h'], path, .file (some ⟨⟨7⟩, 3, 0o644⟩)⟩]⟩
  desiredSnapshotDigest := ⟨0⟩
  artifacts := []
  transforms := []

/-- A file, and another namespace's file below it. -/
def enclosing : List (NamespaceName × StateGeneration) :=
  [(['a'], claimant ['a'] ['d']), (['b'], claimant ['b'] ['d', '/', 'x'])]

/-- **The order of the selection does not matter**, not even for the error. -/
theorem fromSelectedGenerations_perm (h : left.Perm right) :
    fromSelectedGenerations left = fromSelectedGenerations right := by
  have hclaims := presentClaims_perm h
  have hslots : (left.map fun entry => entry.2.targets.length).sum =
      (right.map fun entry => entry.2.targets.length).sum :=
    (h.map _).sum_eq
  have hauthorities : ((presentClaims left).map authority).dedup.length =
      ((presentClaims right).map authority).dedup.length :=
    ((hclaims.map _).dedup).length_eq
  simp only [fromSelectedGenerations, h.length_eq, namespaceMismatch_perm h,
    duplicateNamespace_perm h, hslots, hclaims.length_eq, hauthorities, sortClaims_perm hclaims]

theorem fromSelectedGenerations_perm_enclosing :
    fromSelectedGenerations enclosing = fromSelectedGenerations enclosing.reverse :=
  fromSelectedGenerations_perm enclosing.reverse_perm.symm

/-! ## 3. The scan -/

/-- The stack is a chain: what lies deeper in it encloses what lies above. -/
def Nested (stack : List OwnershipClaim) : Prop :=
  stack.Pairwise fun upper lower => lower.relativePath.segments <+: upper.relativePath.segments

theorem popAncestors_nested {path : Text} {stack : List OwnershipClaim} (h : Nested stack) :
    Nested (popAncestors path stack) ∧
      ∀ e ∈ popAncestors path stack, e.relativePath.segments <+: path.segments := by
  induction stack with
  | nil => simp [popAncestors, Nested]
  | cons top rest ih =>
    rw [popAncestors]
    split
    · rename_i htop
      have hprefix := Text.eq_or_isAncestor_iff.1 htop
      refine ⟨h, ?_⟩
      intro e hentry
      rcases mem_cons.1 hentry with rfl | hentry
      · exact hprefix
      · exact ((pairwise_cons.1 h).1 e hentry).trans hprefix
    · exact ih (pairwise_cons.1 h).2

theorem ancestorsOf_nested {cur : OwnershipClaim} {stack : List OwnershipClaim}
    (h : Nested stack) :
    Nested (ancestorsOf cur stack) ∧ ∀ e ∈ ancestorsOf cur stack,
      e ∈ stack ∧ e.relativePath.segments <+: cur.relativePath.segments := by
  cases stack with
  | nil => simp [ancestorsOf, Nested]
  | cons top rest =>
    by_cases htop : top.authority = cur.authority
    · have hpop := @popAncestors_nested cur.relativePath _ h
      simp only [ancestorsOf, ne_eq, htop, not_true_eq_false, if_false]
      exact ⟨hpop.1, fun e hentry => ⟨popAncestors_subset hentry, hpop.2 e hentry⟩⟩
    · simp [ancestorsOf, htop, Nested]

theorem nested_step {cur : OwnershipClaim} {stack : List OwnershipClaim} (h : Nested stack) :
    Nested (pushClaim cur (ancestorsOf cur stack)) := by
  obtain ⟨hnested, habove⟩ := @ancestorsOf_nested cur stack h
  generalize ancestorsOf cur stack = popped at hnested habove
  cases popped with
  | nil => simp [pushClaim, Nested]
  | cons top rest =>
    by_cases htop : top.relativePath = cur.relativePath
    · simpa only [pushClaim, ne_eq, htop, not_true_eq_false, if_false] using hnested
    · simp only [pushClaim, ne_eq, htop, not_false_eq_true, if_true]
      exact pairwise_cons.2 ⟨fun e hentry => (habove e hentry).2, hnested⟩

/-- Two overlapping claims of different namespaces. -/
def Conflict (claims : List OwnershipClaim) (first second : OwnershipClaim) : Prop :=
  first ∈ claims ∧ second ∈ claims ∧ first.namespaceName ≠ second.namespaceName ∧
    Overlaps first second

def reported (first second : OwnershipClaim) : OwnershipProjectionError :=
  .conflict
    (if first.relativePath = second.relativePath then .exact else .ancestorDescendant)
    second.authority first.namespaceName first.relativePath second.namespaceName
    second.relativePath

theorem scanClaims_error {claims : List OwnershipClaim} :
    ∀ {stack all : List OwnershipClaim} {error : OwnershipProjectionError},
      OneAuthority stack → Nested stack → (∀ e ∈ stack, e ∈ all) →
      (∀ claim ∈ claims, claim ∈ all) → scanClaims stack claims = .error error →
      ∃ first second, Conflict all first second ∧ error = reported first second := by
  induction claims with
  | nil =>
    intro stack all error _ _ _ _ h
    simp [scanClaims] at h
  | cons cur rest ih =>
    intro stack all error hone hnested hstack hclaims h
    have hcurrent : cur ∈ all := hclaims cur mem_cons_self
    rw [scanClaims] at h
    split at h
    · rename_i first hfind
      have hmem := mem_of_find?_eq_some hfind
      have hforeign := find?_some hfind
      obtain ⟨-, habove⟩ := @ancestorsOf_nested cur stack hnested
      refine ⟨first, cur, ⟨hstack first (habove first hmem).1, hcurrent, ?_, ?_, ?_⟩, ?_⟩
      · simpa using hforeign
      · exact authority_of_mem_ancestorsOf hone hmem
      · exact .inl (habove first hmem).2
      · exact (Except.error.inj h).symm
    · refine ih (oneAuthority_step hone) (nested_step hnested) ?_ ?_ h
      · intro e hentry
        rcases mem_cons.1 (pushClaim_subset hentry) with rfl | hentry
        · exact hcurrent
        · exact hstack e (@ancestorsOf_nested cur stack hnested |>.2 e hentry).1
      · intro claim hclaim
        exact hclaims claim (mem_cons_of_mem _ hclaim)

theorem scanClaims_cases (claims : List OwnershipClaim) :
    (Exclusive claims ∧ scanClaims [] (sortClaims claims) = .ok ()) ∨
      ∃ first snd, Conflict claims first snd ∧
        scanClaims [] (sortClaims claims) = .error (reported first snd) := by
  have hempty : OneAuthority [] ∧ Nested [] := by simp [OneAuthority, Nested]
  rcases hscan : scanClaims [] (sortClaims claims) with error | ⟨⟨⟩⟩
  · obtain ⟨first, snd, hconflict, rfl⟩ :=
      @scanClaims_error (sortClaims claims) [] claims error hempty.1 hempty.2 (by simp)
        (fun claim hclaim => mem_sortClaims.1 hclaim) hscan
    exact .inr ⟨first, snd, hconflict, rfl⟩
  · exact .inl ⟨exclusive_of_scan hscan, rfl⟩

theorem Conflict.not_exclusive {first snd : OwnershipClaim} (h : Conflict claims first snd) :
    ¬ Exclusive claims :=
  fun hexclusive => h.2.2.1 (hexclusive first h.1 snd h.2.1 h.2.2.2)

/-! ## 4. The scan within the checks -/

/-- What `from_selected_generations` checks before it scans. -/
structure Admitted (generations : List (NamespaceName × StateGeneration)) : Prop where
  count : generations.length ≤ maxOwnershipGenerations
  named : ∀ entry ∈ generations, entry.1 = entry.2.namespaceName
  distinct : (generations.map Prod.fst).Nodup
  slots : (generations.map fun entry => entry.2.targets.length).sum ≤ maxOwnershipTargetSlots
  claims : (presentClaims generations).length ≤ maxOwnershipClaims
  authorities : ((presentClaims generations).map OwnershipClaim.authority).dedup.length ≤
    maxOwnershipAuthorities

def OwnershipProjectionError.isConflict : OwnershipProjectionError → Bool
  | .conflict _ _ _ _ _ _ => true
  | _ => false

variable {generations : List (NamespaceName × StateGeneration)}

theorem namespaceMismatch_eq_none :
    namespaceMismatch generations = none ↔
      ∀ e ∈ generations, e.1 = e.2.namespaceName := by
  have h := (namespaceMismatch_least generations).eq_none_iff
  refine h.trans ?_
  constructor
  · intro hnone e hentry
    by_contra hne
    exact hnone _ ⟨e, hentry, hne, rfl⟩
  · intro hnamed pair hpair
    obtain ⟨e, hentry, hne, -⟩ := hpair
    exact hne (hnamed e hentry)

theorem duplicateNamespace_eq_none (sel : List NamespaceName) :
    duplicateNamespace [] sel none = none ↔ sel.Nodup := by
  rw [(duplicateNamespace_least sel).eq_none_iff, nodup_iff_count_le_one]
  exact forall_congr' fun name => by omega

theorem fromSelectedGenerations_of_admitted (h : Admitted generations) :
    fromSelectedGenerations generations =
      (scanClaims [] (sortClaims (presentClaims generations)) >>= fun _ =>
        .ok ⟨sortClaims (presentClaims generations), sortClaims_sorted _⟩) := by
  have hreject : ∀ {actual limit : Nat} {error : OwnershipProjectionError}, actual ≤ limit →
      reject (limit < actual) error = .ok () :=
    fun hle => reject_ok.2 (not_lt.2 hle)
  unfold fromSelectedGenerations
  rw [hreject h.count, namespaceMismatch_eq_none.2 h.named,
    (duplicateNamespace_eq_none _).2 h.distinct]
  simp only [hreject h.slots, hreject h.claims, hreject h.authorities, rejectSome, ok_bind, pure_eq]

theorem fromSelectedGenerations_of_not_admitted (h : ¬ Admitted generations) :
    FailsWith (fun error => error.isConflict = false) (fromSelectedGenerations generations) := by
  unfold fromSelectedGenerations
  refine failsWith_reject (fun _ => rfl) fun hcount => ?_
  refine failsWith_rejectSome (fun _ _ => rfl) fun hnamed => ?_
  refine failsWith_rejectSome (fun _ _ => rfl) fun hdist => ?_
  refine failsWith_reject (fun _ => rfl) fun hslots => ?_
  refine failsWith_reject (fun _ => rfl) fun hclaims => ?_
  refine failsWith_reject (fun _ => rfl) fun hauthorities => ?_
  exact absurd ⟨not_lt.1 hcount, namespaceMismatch_eq_none.1 hnamed,
    (duplicateNamespace_eq_none _).1 hdist, not_lt.1 hslots, not_lt.1 hclaims,
    not_lt.1 hauthorities⟩ h

theorem generationClaims_namespaceName {selected : NamespaceName} {gen : StateGeneration} :
    ∀ claim ∈ generationClaims selected gen, claim.namespaceName = selected := by
  intro claim hclaim
  unfold generationClaims at hclaim
  split at hclaim
  · obtain ⟨t, -, rfl⟩ := mem_map.1 hclaim
    rfl
  · simp at hclaim

theorem generationClaims_nodup (sel : NamespaceName) {gen : StateGeneration}
    (h : (gen.targets.map StateTarget.key).Nodup) :
    (generationClaims sel gen).Nodup := by
  unfold generationClaims
  split
  · refine List.Nodup.of_map (fun claim => (claim.authority, claim.relativePath)) ?_
    rw [List.map_map]
    exact h.sublist (filter_sublist.map StateTarget.key)
  · exact nodup_nil

/-- The claims of snapshots are distinct when the selected namespaces are. -/
theorem presentClaims_nodup (hdist : (generations.map fst).Nodup)
    (htargets : ∀ e ∈ generations, (e.2.targets.map StateTarget.key).Nodup) :
    (presentClaims generations).Nodup := by
  rw [presentClaims, nodup_flatMap]
  constructor
  · intro e hentry
    exact generationClaims_nodup e.1 (htargets e hentry)
  · rw [List.Nodup, pairwise_map] at hdist
    refine hdist.imp ?_
    intro first snd hne claim hfirst hsecond
    exact hne ((generationClaims_namespaceName claim hfirst).symm.trans
      (generationClaims_namespaceName claim hsecond))

theorem sortClaims_strict (h : claims.Nodup) :
    (sortClaims claims).Pairwise fun first snd => first.key < snd.key := by
  have hnodup : (sortClaims claims).Nodup := (perm_insertionSort _ claims).nodup_iff.2 h
  refine ((sortClaims_sorted claims).and hnodup).imp ?_
  intro first snd hboth
  exact lt_of_le_of_ne hboth.1 fun heq => hboth.2 (key_injective heq)

/-- **The scan against all pairs.** A conflict is exactly an overlap of two namespaces in an
admitted selection; one without is projected to its claims in order. -/
theorem fromSelectedGenerations_conflict_iff
    (hvalid : ∀ entry ∈ generations, validateStateTargets entry.2.targets = .ok ()) :
    ((∃ error, fromSelectedGenerations generations = .error error ∧ error.isConflict = true) ↔
      Admitted generations ∧ ∃ first second, Conflict (presentClaims generations) first second) ∧
    (∀ error, fromSelectedGenerations generations = .error error → error.isConflict = true →
      ∃ first second, Conflict (presentClaims generations) first second ∧
        error = reported first second) ∧
    (Admitted generations → (∀ first second, ¬ Conflict (presentClaims generations) first second) →
      ∃ projection, fromSelectedGenerations generations = .ok projection ∧
        projection.claims.Perm (presentClaims generations) ∧
        projection.claims.Pairwise fun first second => first.key < second.key) := by
  by_cases hadmitted : Admitted generations
  · rw [fromSelectedGenerations_of_admitted hadmitted]
    rcases scanClaims_cases (presentClaims generations) with
      ⟨hexclusive, hscan⟩ | ⟨first, second, hconflict, hscan⟩
    · rw [hscan]
      have hnone : ∀ first second, ¬ Conflict (presentClaims generations) first second :=
        fun first second hconflict => hconflict.not_exclusive hexclusive
      refine ⟨⟨fun h => ?_, fun h => ?_⟩, fun error h => ?_, fun _ _ => ?_⟩
      · obtain ⟨error, h, -⟩ := h
        cases h
      · obtain ⟨-, first, second, hconflict⟩ := h
        exact absurd hconflict (hnone first second)
      · cases h
      · refine ⟨_, rfl, perm_insertionSort _ _, sortClaims_strict ?_⟩
        refine presentClaims_nodup hadmitted.distinct ?_
        intro entry hentry
        exact (validateStateTargets_ok.1 (hvalid entry hentry)).ordered.nodup
    · rw [hscan]
      refine ⟨⟨fun _ => ⟨hadmitted, first, second, hconflict⟩, fun _ => ⟨_, rfl, rfl⟩⟩, ?_, ?_⟩
      · intro error h _
        exact ⟨first, second, hconflict, (Except.error.inj h).symm⟩
      · intro _ hnone
        exact absurd hconflict (hnone first second)
  · have hfails := fromSelectedGenerations_of_not_admitted hadmitted
    have hother : ∀ error, fromSelectedGenerations generations = .error error →
        error.isConflict = true → False := by
      intro error herror hconflict
      obtain ⟨error', herror', hnot⟩ := hfails
      rw [herror'] at herror
      rw [← Except.error.inj herror, hnot] at hconflict
      cases hconflict
    refine ⟨⟨fun h => ?_, fun h => absurd h.1 hadmitted⟩, fun error herror hconflict => ?_,
      fun h => absurd h hadmitted⟩
    · obtain ⟨error, herror, hconflict⟩ := h
      exact absurd hconflict (hother error herror)
    · exact absurd hconflict (hother error herror)

theorem enclosing_conflict :
    Conflict (presentClaims enclosing) ⟨['a'], ['h'], ['d']⟩ ⟨['b'], ['h'], ['d', '/', 'x']⟩ := by
  refine ⟨by decide, by decide, by decide, rfl, .inl ?_⟩
  decide

theorem enclosing_admitted : Admitted enclosing :=
  ⟨by decide, by decide, by decide, by decide, by decide, by decide⟩

theorem enclosing_valid : ∀ e ∈ enclosing, validateStateTargets e.2.targets = .ok () := by
  decide

theorem fromSelectedGenerations_enclosing :
    ∃ error, fromSelectedGenerations enclosing = .error error ∧ error.isConflict = true :=
  (fromSelectedGenerations_conflict_iff enclosing_valid).1.2
    ⟨enclosing_admitted, _, _, enclosing_conflict⟩

/-- The same selection with its second namespace selected twice. -/
def enclosingTwice : List (NamespaceName × StateGeneration) :=
  enclosing ++ [(['b'], claimant ['b'] ['d', '/', 'x'])]

/-- A repeated namespace is reported before any conflict. -/
theorem conflict_hidden_by_duplicate :
    ¬ ∀ generations : List (NamespaceName × StateGeneration),
      (∀ entry ∈ generations, validateStateTargets entry.2.targets = .ok ()) →
      ((∃ error, fromSelectedGenerations generations = .error error ∧
          error.isConflict = true) ↔
        ∃ first second, Conflict (presentClaims generations) first second) := by
  intro h
  have hconflict : Conflict (presentClaims enclosingTwice) ⟨['a'], ['h'], ['d']⟩
      ⟨['b'], ['h'], ['d', '/', 'x']⟩ := by
    refine ⟨by decide, by decide, by decide, rfl, .inl ?_⟩
    decide
  obtain ⟨error, herror, hkind⟩ := (h enclosingTwice (by decide)).2 ⟨_, _, hconflict⟩
  have hnot : ¬ Admitted enclosingTwice := by
    intro hadmitted
    exact absurd hadmitted.distinct (by decide)
  obtain ⟨error', herror', hother⟩ := fromSelectedGenerations_of_not_admitted hnot
  rw [herror'] at herror
  rw [← Except.error.inj herror, hother] at hkind
  cases hkind

/-! ## 5. The queries -/

namespace OwnershipProjection

variable {projection : OwnershipProjection} {auth : DeploymentName} {path : Text}
  {requesting : NamespaceName}

theorem mem_of_mem_claimsFrom {claim : OwnershipClaim}
    (h : claim ∈ projection.claimsFrom auth path) : claim ∈ projection.claims :=
  (dropWhile_sublist _).subset h

variable {claim : OwnershipClaim}

theorem claimsFrom_head (hmem : claim ∈ projection.claims)
    (hauthority : claim.authority = auth) (hpath : claim.relativePath = path) :
    ∃ first rest, projection.claimsFrom auth path = first :: rest ∧
      first.authority = auth ∧ first.relativePath = path := by
  have hposition : claim.position = toLex (auth, path.segments) := by
    rw [position, hauthority, hpath]
  have hrun : claim ∈ (projection.claimsFrom auth path).takeWhile fun other =>
      decide (other.position ≤ toLex (auth, path.segments)) := by
    refine Segments.mem_run ?_ (by simp [hposition]) hmem projection.sorted ?_
    · intro left right hkey hright
      simp only [decide_eq_true_eq] at hright ⊢
      exact lt_of_le_of_lt (position_le_of_key_le hkey) hright
    · intro other _ hkey
      rw [decide_eq_true_eq, ← hposition]
      rcases hkey with hkey | rfl
      · exact position_le_of_key_le hkey
      · exact le_rfl
  cases hfrom : projection.claimsFrom auth path with
  | nil => simp [hfrom] at hrun
  | cons first rest =>
    refine ⟨first, rest, rfl, ?_⟩
    have hlower : ¬ first.position < toLex (auth, path.segments) := by
      have hne : projection.claimsFrom auth path ≠ [] := by simp [hfrom]
      have hnot : decide (((projection.claimsFrom auth path).head hne).position <
          toLex (auth, path.segments)) = false :=
        head_dropWhile_not (fun claim : OwnershipClaim =>
          decide (claim.position < toLex (auth, path.segments))) hne
      simpa only [hfrom, head_cons, decide_eq_false_iff_not] using hnot
    have hupper : first.position ≤ toLex (auth, path.segments) := by
      rw [hfrom, takeWhile_cons] at hrun
      split at hrun
      · simp_all
      · simp at hrun
    have hsame := le_antisymm hupper (not_lt.1 hlower)
    rw [position, toLex_inj, Prod.mk.injEq] at hsame
    exact ⟨hsame.1, Segments.splitOn_injective '/' hsame.2⟩

theorem exactOwner_iff (hexclusive : Exclusive projection.claims) {owner : NamespaceName} :
    projection.exactOwner auth path = some owner ↔
      ∃ claim ∈ projection.claims, claim.authority = auth ∧ claim.relativePath = path ∧
        claim.namespaceName = owner := by
  constructor
  · intro h
    unfold exactOwner at h
    split at h
    · cases h
    · rename_i first rest hfrom
      have hmem : first ∈ projection.claimsFrom auth path := by simp [hfrom]
      split at h
      · rename_i hfirst
        rw [Bool.and_eq_true, decide_eq_true_eq, decide_eq_true_eq] at hfirst
        exact ⟨first, mem_of_mem_claimsFrom hmem, hfirst.1, hfirst.2, Option.some.inj h⟩
      · cases h
  · intro h
    obtain ⟨claim, hmem, hauthority, hpath, rfl⟩ := h
    obtain ⟨first, rest, hfrom, hfirst⟩ := claimsFrom_head hmem hauthority hpath
    have hfirstMem : first ∈ projection.claims :=
      @mem_of_mem_claimsFrom projection auth path first (by simp [hfrom])
    have hoverlap : Overlaps first claim := by
      refine ⟨hfirst.1.trans hauthority.symm, .inl ?_⟩
      rw [hfirst.2, hpath]
    unfold exactOwner
    rw [hfrom]
    simp only [hfirst.1, hfirst.2, decide_true, Bool.and_self, if_true]
    rw [hexclusive first hfirstMem claim hmem hoverlap]

theorem firstForeign_some {inside : OwnershipClaim → Bool}
    (h : projection.firstForeign auth path inside requesting = some claim) :
    claim ∈ projection.claims ∧ inside claim = true ∧ claim.namespaceName ≠ requesting := by
  have hmem := mem_of_find?_eq_some h
  have hforeign := find?_some h
  exact ⟨mem_of_mem_claimsFrom ((takeWhile_sublist _).subset hmem),
    mem_takeWhile_imp hmem, by simpa using hforeign⟩

/-- What the conflict query returns is a foreign claim that overlaps the
path. -/
theorem conflictingClaim_some
    (h : projection.conflictingClaim auth path requesting = some claim) :
    claim ∈ projection.claims ∧ claim.namespaceName ≠ requesting ∧
      claim.authority = auth ∧ Text.Overlap claim.relativePath path := by
  unfold conflictingClaim at h
  split at h
  · rename_i found hancestor
    obtain rfl := Option.some.inj h
    obtain ⟨ancestor, habove, hfound⟩ := exists_of_findSome?_eq_some hancestor
    obtain ⟨hmem, hinside, hforeign⟩ := firstForeign_some hfound
    rw [Bool.and_eq_true, decide_eq_true_eq, decide_eq_true_eq] at hinside
    refine ⟨hmem, hforeign, hinside.1, .inl ?_⟩
    rw [hinside.2]
    exact (Segments.eq_or_above_iff_isPrefixOf '/').1 (.inr (Text.mem_ancestorPaths.1 habove))
  · obtain ⟨hmem, hinside, hforeign⟩ := firstForeign_some h
    rw [Bool.and_eq_true, decide_eq_true_eq] at hinside
    refine ⟨hmem, hforeign, hinside.1, .inr (Text.eq_or_isAncestor_iff.1 ?_)⟩
    rw [Bool.or_eq_true, decide_eq_true_eq] at hinside ⊢
    exact hinside.2.imp Eq.symm id

/-- **The queries against a search through all claims.** -/
theorem queries_search_all {generations : List (NamespaceName × StateGeneration)}
    (h : fromSelectedGenerations generations = .ok projection) (auth : DeploymentName)
    (path : Text) (requesting : NamespaceName) :
    (∀ owner, projection.exactOwner auth path = some owner ↔
      ∃ claim ∈ projection.claims, claim.authority = auth ∧ claim.relativePath = path ∧
        claim.namespaceName = owner) ∧
    ((∃ claim, projection.conflictingClaim auth path requesting = some claim) ↔
      ∃ claim ∈ projection.claims, claim.namespaceName ≠ requesting ∧
        claim.authority = auth ∧ Text.Overlap claim.relativePath path) ∧
    (∀ claim, projection.conflictingClaim auth path requesting = some claim →
      claim ∈ projection.claims ∧ claim.namespaceName ≠ requesting ∧
        claim.authority = auth ∧ Text.Overlap claim.relativePath path) := by
  have hexclusive : Exclusive projection.claims := by
    refine (exclusive_of_scan (fromSelectedGenerations_ok h).2).mono ?_
    intro claim hclaim
    rwa [(fromSelectedGenerations_ok h).1, mem_sortClaims] at hclaim
  refine ⟨fun owner => exactOwner_iff hexclusive, ⟨fun hsome => ?_, fun hforeign => ?_⟩,
    fun claim => conflictingClaim_some⟩
  · obtain ⟨claim, hsome⟩ := hsome
    exact ⟨claim, conflictingClaim_some hsome⟩
  · obtain ⟨claim, hmem, hne, hauthority, hoverlap⟩ := hforeign
    cases hquery : projection.conflictingClaim auth path requesting with
    | none => exact absurd (conflictingClaim_none hquery hmem hauthority hoverlap) hne
    | some found => exact ⟨found, rfl⟩

/-- Two files apart from each other. -/
def apart : List (NamespaceName × StateGeneration) :=
  [(['b'], claimant ['b'] ['e']), (['a'], claimant ['a'] ['d'])]

theorem apart_scans : scanClaims [] (sortClaims (presentClaims apart)) = .ok () := by
  decide

theorem apart_admitted : Admitted apart :=
  ⟨by decide, by decide, by decide, by decide, by decide, by decide⟩

theorem queries_search_all_apart :
    ∃ projection, fromSelectedGenerations apart = .ok projection ∧
      projection.exactOwner ['h'] ['d'] = some ['a'] ∧
      ∃ claim, projection.conflictingClaim ['h'] ['d', '/', 'x'] ['b'] = some claim := by
  have haccepted : fromSelectedGenerations apart =
      .ok ⟨sortClaims (presentClaims apart), sortClaims_sorted _⟩ := by
    rw [fromSelectedGenerations_of_admitted apart_admitted, apart_scans, ok_bind]
  have hclaim : ⟨['a'], ['h'], ['d']⟩ ∈ sortClaims (presentClaims apart) := by
    rw [mem_sortClaims]
    decide
  refine ⟨_, haccepted, ?_, ?_⟩
  · exact ((queries_search_all haccepted ['h'] ['d'] ['b']).1 ['a']).2
      ⟨_, hclaim, rfl, rfl, rfl⟩
  · refine (queries_search_all haccepted ['h'] ['d', '/', 'x'] ['b']).2.1.2
      ⟨_, hclaim, by decide, rfl, .inl ?_⟩
    decide

end OwnershipProjection

end Malm.Store
