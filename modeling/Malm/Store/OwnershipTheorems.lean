/-
Malm.Store.OwnershipTheorems — the ownership scan and the conflict query
find every overlap between namespaces.

Claims that sort between a path and something below it lie below it too
(`Segments.prefix_of_between`). So the stack of the scan covers every earlier claim
above the current one (`Covers`), and the claims below a path are a run that starts
at its lower bound.
-/
import Malm.Store.Ownership
import Malm.Lib.Segments

namespace Malm

open List Bool Checks Segments

variable {claims : List OwnershipClaim} {gens : List (NamespaceName × StateGeneration)}

variable {path : Text} {projection : OwnershipProjection}

/-! ## 1. Paths -/

namespace Text

/-- Component overlap: equal, above or below. -/
def Overlap (left right : Text) : Prop :=
  left.segments <+: right.segments ∨ right.segments <+: left.segments

theorem isAncestor_iff : ∀ {ancestor descendant : Text},
    ancestor.isAncestor descendant = true ↔ Segments.Above '/' ancestor descendant
  | [], [] => by simp [isAncestor, not_above_nil]
  | [], character :: rest => by simp [isAncestor, above_nil_cons]
  | a :: ancestor, [] => by simp [isAncestor, not_above_nil]
  | a :: ancestor, d :: descendant => by
    rw [isAncestor, and_eq_true, decide_eq_true_eq, isAncestor_iff, above_cons_cons]

/-- The test of the scan and of the query: the path itself or something above
it. -/
theorem eq_or_isAncestor_iff {above below : Text} :
    (above = below || above.isAncestor below) = true ↔ above.segments <+: below.segments := by
  rw [or_eq_true, decide_eq_true_eq, isAncestor_iff]
  exact eq_or_above_iff_isPrefixOf '/'

theorem mem_ancestorPaths : ∀ {path ancestor : Text},
    ancestor ∈ path.ancestorPaths ↔ Segments.Above '/' ancestor path
  | [], ancestor => by simp [ancestorPaths, not_above_nil]
  | c :: path, [] => by
    by_cases h : c = '/' <;> simp [ancestorPaths, above_nil_cons, h]
  | c :: path, a :: ancestor => by
    have hmap : a :: ancestor ∈ (ancestorPaths path).map (c :: ·) ↔
        a = c ∧ Segments.Above '/' ancestor path := by
      rw [← mem_ancestorPaths]
      simp only [mem_map, cons.injEq]
      constructor
      · rintro ⟨_, hmem, rfl, rfl⟩
        exact ⟨rfl, hmem⟩
      · rintro ⟨rfl, hmem⟩
        exact ⟨_, hmem, rfl, rfl⟩
    rw [above_cons_cons, ← hmap]
    by_cases h : c = '/' <;> simp [ancestorPaths, h]

end Text

namespace Store

/-! ## 2. The order of claims -/

namespace OwnershipClaim

variable {left mid right : OwnershipClaim}

theorem position_le_of_key_le (h : left.key ≤ right.key) : left.position ≤ right.position := by
  rw [key, key, Prod.Lex.toLex_le_toLex] at h
  rcases h with h | ⟨h, -⟩
  · exact le_of_lt h
  · exact le_of_eq h

theorem authority_le_of_position_le (h : left.position ≤ right.position) :
    left.authority ≤ right.authority := by
  rw [position, position, Prod.Lex.toLex_le_toLex] at h
  rcases h with h | ⟨h, -⟩
  · exact le_of_lt h
  · exact le_of_eq h

theorem segments_le_of_position_le (hauth : left.authority = right.authority)
    (h : left.position ≤ right.position) :
    left.relativePath.segments ≤ right.relativePath.segments := by
  rw [position, position, Prod.Lex.toLex_le_toLex] at h
  rcases h with h | ⟨-, h⟩
  · exact absurd h (by rw [hauth]; exact lt_irrefl _)
  · exact h

theorem below_of_between (hlm : left.position ≤ mid.position)
    (hmr : mid.position ≤ right.position) (hauth : left.authority = right.authority)
    (hpre : left.relativePath.segments <+: right.relativePath.segments) :
    mid.authority = left.authority ∧
      left.relativePath.segments <+: mid.relativePath.segments := by
  have hmiddle : left.authority = mid.authority :=
    le_antisymm (authority_le_of_position_le hlm)
      (hauth ▸ authority_le_of_position_le hmr)
  refine ⟨hmiddle.symm, ?_⟩
  exact prefix_of_between (segments_le_of_position_le hmiddle hlm)
    (segments_le_of_position_le (hmiddle.symm.trans hauth) hmr) hpre

def Overlaps (left right : OwnershipClaim) : Prop :=
  left.authority = right.authority ∧ Text.Overlap left.relativePath right.relativePath

theorem Overlaps.isPrefixOf (h : Overlaps left right) (hle : left.position ≤ right.position) :
    left.relativePath.segments <+: right.relativePath.segments := by
  obtain ⟨hauth, hpre | hpre⟩ := h
  · exact hpre
  · rw [eq_of_prefix_of_le (segments_le_of_position_le hauth hle) hpre]

end OwnershipClaim

open OwnershipClaim

/-! ## 3. The scan -/

variable {claim current entry : OwnershipClaim} {stack : List OwnershipClaim}

theorem mem_popAncestors :
    ∀ {stack : List OwnershipClaim}, claim ∈ stack →
      claim.relativePath.segments <+: path.segments → claim ∈ popAncestors path stack
  | [], hmem, _ => hmem
  | top :: rest, hmem, hpre => by
    unfold popAncestors
    split
    · exact hmem
    · rename_i htop
      rcases mem_cons.1 hmem with rfl | hmem
      · exact absurd (Text.eq_or_isAncestor_iff.2 hpre) htop
      · exact mem_popAncestors hmem hpre

theorem popAncestors_subset :
    ∀ {stack : List OwnershipClaim}, popAncestors path stack ⊆ stack
  | [] => by simp [popAncestors]
  | top :: rest => by
    unfold popAncestors
    split
    · exact List.Subset.refl _
    · intro claim hclaim
      exact mem_cons_of_mem _ (popAncestors_subset hclaim)

def OneAuthority (stack : List OwnershipClaim) : Prop :=
  ∀ left ∈ stack, ∀ right ∈ stack, left.authority = right.authority

/-- The stack stands for the claims scanned so far. -/
def Covers (scanned stack : List OwnershipClaim) : Prop :=
  ∀ claim ∈ scanned, ∀ next : OwnershipClaim, (∀ other ∈ scanned, other.key ≤ next.key) →
    claim.authority = next.authority →
    claim.relativePath.segments <+: next.relativePath.segments →
    ∃ entry ∈ stack, entry.authority = claim.authority ∧
      entry.relativePath = claim.relativePath ∧ entry.namespaceName = claim.namespaceName

theorem mem_ancestorsOf (hone : OneAuthority stack) (hmem : entry ∈ stack)
    (hauth : entry.authority = current.authority)
    (hpre : entry.relativePath.segments <+: current.relativePath.segments) :
    entry ∈ ancestorsOf current stack := by
  cases stack with
  | nil => exact hmem
  | cons top rest =>
    have htop : top.authority = current.authority :=
      (hone top mem_cons_self entry hmem).trans hauth
    simp only [ancestorsOf, ne_eq, htop, not_true_eq_false, if_false]
    exact mem_popAncestors hmem hpre

theorem authority_of_mem_ancestorsOf (hone : OneAuthority stack)
    (hmem : entry ∈ ancestorsOf current stack) : entry.authority = current.authority := by
  cases stack with
  | nil => simp [ancestorsOf] at hmem
  | cons top rest =>
    by_cases htop : top.authority = current.authority
    · simp only [ancestorsOf, ne_eq, htop, not_true_eq_false, if_false] at hmem
      exact (hone entry (popAncestors_subset hmem) top mem_cons_self).trans htop
    · simp [ancestorsOf, htop] at hmem

theorem mem_pushClaim (hmem : entry ∈ stack) : entry ∈ pushClaim current stack := by
  cases stack with
  | nil => simp at hmem
  | cons top rest =>
    by_cases htop : top.relativePath = current.relativePath
    · simpa [pushClaim, htop] using hmem
    · simp only [pushClaim, ne_eq, htop, not_false_eq_true, if_true]
      exact mem_cons_of_mem _ hmem

theorem pushClaim_subset : pushClaim current stack ⊆ current :: stack := by
  cases stack with
  | nil => exact List.Subset.refl _
  | cons top rest =>
    by_cases htop : top.relativePath = current.relativePath
    · simp [pushClaim, htop]
    · simp [pushClaim, htop]

theorem exists_path_mem_pushClaim (current : OwnershipClaim) (stack : List OwnershipClaim) :
    ∃ entry ∈ pushClaim current stack, entry.relativePath = current.relativePath ∧
      (entry = current ∨ entry ∈ stack) := by
  cases stack with
  | nil => exact ⟨current, by simp [pushClaim], rfl, .inl rfl⟩
  | cons top rest =>
    by_cases htop : top.relativePath = current.relativePath
    · exact ⟨top, by simp [pushClaim, htop], htop, .inr mem_cons_self⟩
    · exact ⟨current, by simp [pushClaim, htop], rfl, .inl rfl⟩

theorem oneAuthority_step (hone : OneAuthority stack) :
    OneAuthority (pushClaim current (ancestorsOf current stack)) := by
  have hcurrent : ∀ entry ∈ pushClaim current (ancestorsOf current stack),
      entry.authority = current.authority := by
    intro entry hmem
    rcases mem_cons.1 (pushClaim_subset hmem) with rfl | hmem
    · rfl
    · exact authority_of_mem_ancestorsOf hone hmem
  intro left hleft right hright
  rw [hcurrent left hleft, hcurrent right hright]

theorem covers_step {scanned : List OwnershipClaim} (hone : OneAuthority stack)
    (hcovers : Covers scanned stack) (hsorted : ∀ other ∈ scanned, other.key ≤ current.key)
    (hsame : ∀ entry ∈ ancestorsOf current stack, entry.namespaceName = current.namespaceName) :
    Covers (current :: scanned) (pushClaim current (ancestorsOf current stack)) := by
  intro claim hclaim next hnext hauth hpre
  rcases mem_cons.1 hclaim with rfl | hclaim
  · obtain ⟨entry, hentry, hpath, rfl | hmem⟩ :=
      exists_path_mem_pushClaim claim (ancestorsOf claim stack)
    · exact ⟨entry, hentry, rfl, rfl, rfl⟩
    · exact ⟨entry, hentry, authority_of_mem_ancestorsOf hone hmem, hpath, hsame entry hmem⟩
  · -- the current claim sorts between the scanned one and what comes next
    have hbetween := below_of_between (position_le_of_key_le (hsorted claim hclaim))
      (position_le_of_key_le (hnext current mem_cons_self)) hauth hpre
    obtain ⟨entry, hentry, hentryAuthority, hentryPath, hentryNamespace⟩ :=
      hcovers claim hclaim current hsorted hbetween.1.symm hbetween.2
    refine ⟨entry, mem_pushClaim ?_, hentryAuthority, hentryPath, hentryNamespace⟩
    exact mem_ancestorsOf hone hentry (hentryAuthority.trans hbetween.1.symm)
      (hentryPath ▸ hbetween.2)

theorem scanClaims_ok : ∀ {scanned stack claims : List OwnershipClaim},
    OneAuthority stack → Covers scanned stack →
    claims.Pairwise (fun left right => left.key ≤ right.key) →
    (∀ left ∈ scanned, ∀ right ∈ claims, left.key ≤ right.key) →
    scanClaims stack claims = .ok () →
    (∀ left ∈ scanned, ∀ right ∈ claims, Overlaps left right →
      left.namespaceName = right.namespaceName) ∧
    claims.Pairwise fun left right => Overlaps left right →
      left.namespaceName = right.namespaceName
  | _, _, [], _, _, _, _, _ => by simp
  | scanned, stack, current :: rest, hone, hcovers, hsorted, hbefore, hscan => by
    have hcurrent : ∀ other ∈ scanned, other.key ≤ current.key := fun other hother =>
      hbefore other hother current mem_cons_self
    rw [pairwise_cons] at hsorted
    rw [scanClaims] at hscan
    split at hscan
    · cases hscan
    · rename_i hfind
      have hsame : ∀ entry ∈ ancestorsOf current stack,
          entry.namespaceName = current.namespaceName := by
        intro entry hentry
        have := List.find?_eq_none.1 hfind entry hentry
        simpa using this
      have hnone : ∀ left ∈ scanned, Overlaps left current →
          left.namespaceName = current.namespaceName := by
        intro left hleft hoverlap
        have hpre := hoverlap.isPrefixOf (position_le_of_key_le (hcurrent left hleft))
        obtain ⟨entry, hentry, hentryAuthority, hentryPath, hentryNamespace⟩ :=
          hcovers left hleft current hcurrent hoverlap.1 hpre
        rw [← hentryNamespace]
        exact hsame entry (mem_ancestorsOf hone hentry (hentryAuthority.trans hoverlap.1)
          (hentryPath ▸ hpre))
      have hbefore' : ∀ left ∈ current :: scanned, ∀ right ∈ rest, left.key ≤ right.key := by
        intro left hleft right hright
        rcases mem_cons.1 hleft with rfl | hleft
        · exact hsorted.1 right hright
        · exact hbefore left hleft right (mem_cons_of_mem _ hright)
      obtain ⟨hscanned, hrest⟩ := scanClaims_ok (oneAuthority_step hone)
        (covers_step hone hcovers hcurrent hsame) hsorted.2 hbefore' hscan
      refine ⟨?_, pairwise_cons.2 ⟨?_, hrest⟩⟩
      · intro left hleft right hright
        rcases mem_cons.1 hright with rfl | hright
        · exact hnone left hleft
        · exact hscanned left (mem_cons_of_mem _ hleft) right hright
      · exact hscanned current mem_cons_self

theorem OwnershipClaim.Overlaps.symm {left right : OwnershipClaim} (h : Overlaps left right) :
    Overlaps right left :=
  ⟨h.1.symm, h.2.symm⟩

/-- No two claims of different namespaces overlap. -/
def Exclusive (claims : List OwnershipClaim) : Prop :=
  ∀ left ∈ claims, ∀ right ∈ claims, Overlaps left right →
    left.namespaceName = right.namespaceName

theorem Exclusive.mono {larger smaller : List OwnershipClaim} (h : Exclusive larger)
    (hsub : ∀ claim ∈ smaller, claim ∈ larger) : Exclusive smaller :=
  fun left hleft right hright => h left (hsub left hleft) right (hsub right hright)

theorem presentClaims_mono {larger smaller : List (NamespaceName × StateGeneration)}
    (hsub : ∀ entry ∈ smaller, entry ∈ larger) (h : claim ∈ presentClaims smaller) :
    claim ∈ presentClaims larger := by
  obtain ⟨entry, hentry, hclaim⟩ := mem_flatMap.1 h
  exact mem_flatMap.2 ⟨entry, hsub entry hentry, hclaim⟩

theorem fromSelectedGenerations_ok (h : fromSelectedGenerations gens = .ok projection) :
    projection.claims = sortClaims (presentClaims gens) ∧
      scanClaims [] (sortClaims (presentClaims gens)) = .ok () := by
  unfold fromSelectedGenerations at h
  simp only [bind_unit_ok, pure_ok] at h
  obtain ⟨-, -, -, -, -, -, hscan, rfl⟩ := h
  exact ⟨rfl, hscan⟩

theorem mem_sortClaims :
    claim ∈ sortClaims claims ↔ claim ∈ claims :=
  (perm_insertionSort _ claims).mem_iff

theorem exclusive_of_scan (hscan : scanClaims [] (sortClaims claims) = .ok ()) :
    Exclusive claims := by
  have hempty : Covers [] [] := by
    intro claim hclaim
    simp at hclaim
  have hone : OneAuthority [] := by
    intro left hleft
    simp at hleft
  obtain ⟨-, hpairwise⟩ := scanClaims_ok hone hempty (sortClaims_sorted claims) (by simp) hscan
  intro left hleft right hright hoverlap
  rw [← mem_sortClaims] at hleft hright
  have hsymm : Std.Symm fun left right : OwnershipClaim =>
      Overlaps left right → left.namespaceName = right.namespaceName :=
    ⟨fun _ _ h hoverlap => (h hoverlap.symm).symm⟩
  exact hpairwise.forall_of_forall (fun _ _ _ => rfl) hleft hright hoverlap

/-- **Exclusive ownership.** No two namespaces overlap. -/
theorem fromSelectedGenerations_exclusive (h : fromSelectedGenerations gens = .ok projection) :
    Exclusive (presentClaims gens) :=
  exclusive_of_scan (fromSelectedGenerations_ok h).2

/-! ## 4. The conflict query -/

namespace OwnershipProjection

variable {projection : OwnershipProjection} {auth : DeploymentName} {requesting : NamespaceName}

theorem firstForeign_none {inside : OwnershipClaim → Bool}
    (h : projection.firstForeign auth path inside requesting = none)
    (hmem : claim ∈ projection.claims) (hlower : toLex (auth, path.segments) ≤ claim.position)
    (hinside : ∀ other : OwnershipClaim, toLex (auth, path.segments) ≤ other.position →
      other.position ≤ claim.position → inside other = true) :
    claim.namespaceName = requesting := by
  have hrun : claim ∈ (projection.claimsFrom auth path).takeWhile inside := by
    refine mem_run ?_ (by simpa using hlower) hmem projection.sorted ?_
    · intro left right hkey hright
      simp only [decide_eq_true_eq] at hright ⊢
      exact lt_of_le_of_lt (position_le_of_key_le hkey) hright
    · intro other hother hkey
      refine hinside other (by simpa using hother) ?_
      rcases hkey with hkey | rfl
      · exact position_le_of_key_le hkey
      · exact le_rfl
  have := List.find?_eq_none.1 h claim hrun
  simpa using this

/-- **The query misses nothing**: without a conflict, every overlapping claim is the
requester's. -/
theorem conflictingClaim_none (h : projection.conflictingClaim auth path requesting = none)
    (hmem : claim ∈ projection.claims) (hauth : claim.authority = auth)
    (hoverlap : Text.Overlap claim.relativePath path) :
    claim.namespaceName = requesting := by
  unfold conflictingClaim at h
  split at h
  · cases h
  · rename_i hancestors
    have hbelow : path.segments <+: claim.relativePath.segments →
        claim.namespaceName = requesting := by
      intro hpre
      have hposition : toLex (auth, path.segments) ≤ claim.position := by
        rw [position, Prod.Lex.toLex_le_toLex]
        exact .inr ⟨hauth.symm, le_of_isPrefixOf hpre⟩
      refine firstForeign_none h hmem hposition ?_
      intro other hlower hupper
      -- the path itself, as a claim, sorts before `other`
      have hbetween := @below_of_between ⟨requesting, auth, path⟩ other claim hlower hupper
        hauth.symm hpre
      rw [and_eq_true, decide_eq_true_eq]
      refine ⟨hbetween.1, ?_⟩
      have hinside := Text.eq_or_isAncestor_iff.2 hbetween.2
      rw [or_eq_true, decide_eq_true_eq] at hinside ⊢
      rcases hinside with hpath | habove
      · exact .inl hpath.symm
      · exact .inr habove
    rcases hoverlap with habove | hpre
    · by_cases heq : claim.relativePath = path
      · exact hbelow (heq ▸ prefix_refl _)
      · have hmember : claim.relativePath ∈ path.ancestorPaths := by
          rw [Text.mem_ancestorPaths]
          exact ((eq_or_above_iff_isPrefixOf '/').2 habove).resolve_left heq
        have hnone := List.findSome?_eq_none_iff.1 hancestors _ hmember
        have hposition : toLex (auth, claim.relativePath.segments) = claim.position := by
          rw [position, hauth]
        refine firstForeign_none hnone hmem (le_of_eq hposition) ?_
        intro other hlower hupper
        have hsame : other.position = claim.position := le_antisymm hupper (hposition ▸ hlower)
        rw [position, position, toLex_inj, Prod.mk.injEq] at hsame
        rw [and_eq_true, decide_eq_true_eq, decide_eq_true_eq]
        exact ⟨hsame.1.trans hauth, splitOn_injective '/' hsame.2⟩
    · exact hbelow hpre

end OwnershipProjection

end Store

end Malm
