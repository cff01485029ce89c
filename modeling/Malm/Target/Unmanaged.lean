/-
Malm.Target.Unmanaged — two target systems that differ in additional
regular files.

`Extends extras bare full` says that `full` has the files `extras` on top of `bare`. At
a path that no additional file is at or above (`Clear`) both answer alike; what they hold
at or below a path without additional files (`Free`) is the same.
-/
import Malm.Target.Changes

namespace Malm.Target

open Store Commit Bool List TargetSystem

variable {cand inner : TargetKey}

/-! ## 1. At and below a path -/

theorem isWithin_refl (key : TargetKey) : isWithin key key = true := by
  simp [isWithin]

theorem isWithin_trans {top mid bottom : TargetKey} (h : isWithin top mid = true)
    (h' : isWithin mid bottom = true) : isWithin top bottom = true := by
  simp only [isWithin, isBelow, or_eq_true, and_eq_true, decide_eq_true_eq] at h h' ⊢
  rcases h with rfl | ⟨hauth, hbelow⟩
  · exact h'
  · rcases h' with rfl | ⟨hauth', hbelow'⟩
    · exact .inr ⟨hauth, hbelow⟩
    · exact .inr ⟨hauth'.trans hauth, isAncestor_trans hbelow hbelow'⟩

theorem mem_keys_iff {system : TargetSystem} {key : DeploymentName ×ₗ Text} :
    key ∈ system.entries.keys ↔ (system.entry (ofLex key)).isSome = true := by
  rw [← SortedMap.contains_iff]
  rfl

/-- Two systems hold the same at and below a path. -/
def SameWithin (left right : TargetSystem) (key : TargetKey) : Prop :=
  ∀ candidate, isWithin key candidate = true → left.entry candidate = right.entry candidate

namespace SameWithin

variable {left right : TargetSystem} {key : TargetKey}

theorem entry (h : SameWithin left right key) : left.entry key = right.entry key :=
  h key (isWithin_refl key)

theorem mem_keys (h : SameWithin left right key) {cand : DeploymentName ×ₗ Text}
    (hwithin : isWithin key (ofLex cand) = true) :
    cand ∈ left.entries.keys ↔ cand ∈ right.entries.keys := by
  rw [mem_keys_iff, mem_keys_iff, h _ hwithin]

theorem within (h : SameWithin left right key) (hwithin : isWithin key inner = true) :
    SameWithin left right inner :=
  fun cand hinner => h cand (isWithin_trans hwithin hinner)

end SameWithin

/-! ## 2. Additional files -/

abbrev Extras := TargetKey → Option Entry

/-- No additional file at a path or above it. -/
def Clear (extras : Extras) (key : TargetKey) : Prop :=
  ∀ candidate, (extras candidate).isSome = true → isWithin candidate key = false

/-- No additional file at a path or below it. -/
def Free (extras : Extras) (key : TargetKey) : Prop :=
  ∀ candidate, (extras candidate).isSome = true → isWithin key candidate = false

/-- One system is another with additional regular files. -/
structure Extends (extras : Extras) (bare full : TargetSystem) : Prop where
  entry : ∀ key, full.entry key = (extras key).or (bare.entry key)
  fresh : ∀ key, (extras key).isSome = true → bare.entry key = none
  below : ∀ key, (extras key).isSome = true → key.2 ≠ []
  regular : ∀ key entry, extras key = some entry → entry.kind.fileType = .regularFile
  resolved : full.resolved = bare.resolved
  readThrough : full.readThrough = bare.readThrough

variable {extras : Extras} {key : TargetKey}

theorem Clear.none (h : Clear extras key) : extras key = none := by
  cases hextra : extras key with
  | none => rfl
  | some e =>
    have := h key (by rw [hextra]; rfl)
    rw [isWithin_refl] at this
    cases this

theorem Free.none (h : Free extras key) (hwithin : isWithin key cand = true) :
    extras cand = none := by
  cases hextra : extras cand with
  | none => rfl
  | some e =>
    have := h cand (by rw [hextra]; rfl)
    rw [hwithin] at this
    cases this

theorem Clear.above {above : Text} (h : Clear extras key)
    (hbelow : ∀ cand, (extras cand).isSome = true → cand.2 ≠ [])
    (habove : above ∈ directoriesAbove key.2) : Clear extras (key.1, above) := by
  intro cand hcand
  rw [eq_false_iff]
  intro hwithin
  have := isWithin_of_above (hbelow cand hcand) habove hwithin
  rw [h cand hcand] at this
  cases this

theorem Free.within (h : Free extras key) (hwithin : isWithin key inner = true) :
    Free extras inner := by
  intro cand hcand
  rw [eq_false_iff]
  intro hinner
  have := isWithin_trans hwithin hinner
  rw [h cand hcand] at this
  cases this

theorem isWithin_iff :
    isWithin key cand = true ↔
      cand.1 = key.1 ∧ key.2.segments <+: cand.2.segments := by
  rw [← Text.eq_or_isAncestor_iff]
  simp only [isWithin, isBelow, or_eq_true, and_eq_true, decide_eq_true_eq, Prod.ext_iff]
  constructor
  · rintro (⟨hauth, hpath⟩ | ⟨hauth, hbelow⟩)
    · exact ⟨hauth, .inl hpath.symm⟩
    · exact ⟨hauth, .inr hbelow⟩
  · rintro ⟨hauth, hpath | hbelow⟩
    · exact .inl ⟨hauth, hpath.symm⟩
    · exact .inr ⟨hauth, hbelow⟩

theorem Clear.within (hclear : Clear extras key) (hfree : Free extras key)
    (hwithin : isWithin key inner = true) : Clear extras inner := by
  intro cand hcand
  rw [eq_false_iff]
  intro hinner
  have hkey := isWithin_iff.1 hwithin
  have hother := isWithin_iff.1 hinner
  -- The two paths above the inner one are within each other.
  rcases prefix_or_prefix_of_prefix hkey.2 hother.2 with hprefix | hprefix
  · have := hfree cand hcand
    rw [isWithin_iff.2 ⟨hother.1.symm.trans hkey.1, hprefix⟩] at this
    cases this
  · have := hclear cand hcand
    rw [isWithin_iff.2 ⟨hkey.1.symm.trans hother.1, hprefix⟩] at this
    cases this

namespace Extends

variable {extras : Extras} {bare full : TargetSystem}

/-! ## 3. Answers both systems give -/

variable {key : TargetKey}

section

variable (h : Extends extras bare full)

include h

theorem entry_of_none (hnone : extras key = none) :
    full.entry key = bare.entry key := by
  rw [h.entry key, hnone]
  rfl

theorem same (hfree : Free extras key) : SameWithin full bare key :=
  fun _ hwithin => h.entry_of_none (hfree.none hwithin)

theorem entry_eq (hclear : Clear extras key) :
    full.entry key = bare.entry key :=
  h.entry_of_none hclear.none

theorem entry_above {above : Text} (hclear : Clear extras key)
    (habove : above ∈ directoriesAbove key.2) :
    full.entry (key.1, above) = bare.entry (key.1, above) :=
  h.entry_eq (hclear.above h.below habove)

end

theorem probeFrom_eq (h : Extends extras bare full) (hclear : Clear extras key) :
    ∀ {paths : List Text}, (∀ path ∈ paths, path ∈ directoriesAbove key.2) →
      full.probeFrom key paths = bare.probeFrom key paths
  | [], _ => by
    unfold probeFrom
    rw [h.entry_eq hclear]
  | path :: rest, hpaths => by
    unfold probeFrom
    rw [h.entry_above hclear (hpaths path mem_cons_self), h.resolved,
      h.probeFrom_eq hclear fun cand hcand => hpaths cand (mem_cons_of_mem _ hcand)]

theorem probe_eq (h : Extends extras bare full) (hclear : Clear extras key) :
    full.probe key = bare.probe key :=
  h.probeFrom_eq hclear fun _ hpath => hpath

theorem readFrom_eq (h : Extends extras bare full) (hclear : Clear extras key) :
    ∀ {paths : List Text}, (∀ path ∈ paths, path ∈ directoriesAbove key.2) →
      full.readFrom key paths = bare.readFrom key paths
  | [], _ => by
    have hread : full.readEntry key = bare.readEntry key := by
      funext found
      unfold readEntry
      rw [h.readThrough]
    unfold readFrom
    rw [h.entry_eq hclear, hread]
  | path :: rest, hpaths => by
    unfold readFrom
    rw [h.entry_above hclear (hpaths path mem_cons_self), h.readThrough,
      h.readFrom_eq hclear fun cand hcand => hpaths cand (mem_cons_of_mem _ hcand)]

section

variable (h : Extends extras bare full)

include h

theorem read_eq (hclear : Clear extras key) :
    full.read key = bare.read key :=
  h.readFrom_eq hclear fun _ hpath => hpath

theorem hasParents_eq (hclear : Clear extras key) :
    full.hasParents key = bare.hasParents key := by
  rw [Bool.eq_iff_iff]
  unfold hasParents
  rw [all_eq_true, all_eq_true]
  refine forall₂_congr fun above habove => ?_
  rw [h.entry_above hclear habove]

theorem isEmptyDirectory_eq (hfree : Free extras key) :
    full.isEmptyDirectory key = bare.isEmptyDirectory key := by
  unfold isEmptyDirectory
  refine congrArg (!·) ?_
  rw [Bool.eq_iff_iff, any_eq_true, any_eq_true]
  refine exists_congr fun cand => ?_
  refine and_congr_left fun hbelow => ?_
  refine (h.same hfree).mem_keys ?_
  simp only [isWithin, isBelow, or_eq_true]
  exact .inr hbelow

theorem isEmptyDirectory_of_full (hfull : bare.isEmptyDirectory key = false) :
    full.isEmptyDirectory key = bare.isEmptyDirectory key := by
  rw [hfull]
  simp only [isEmptyDirectory, Bool.not_eq_false', any_eq_true] at hfull ⊢
  obtain ⟨cand, hcand, hbelow⟩ := hfull
  refine ⟨cand, mem_keys_iff.2 ?_, hbelow⟩
  rw [h.entry, Option.isSome_or, mem_keys_iff.1 hcand, Bool.or_true]

theorem free_of_none (hnone : full.entry key = none) :
    Free extras key := by
  intro cand hcand
  rw [eq_false_iff]
  intro hwithin
  obtain ⟨extra, hextra⟩ := Option.isSome_iff_exists.1 hcand
  have hfound : full.entry cand = some extra := by
    rw [h.entry cand, hextra]
    rfl
  simp only [isWithin, isBelow, or_eq_true, and_eq_true, decide_eq_true_eq] at hwithin
  rcases hwithin with rfl | ⟨hauth, hbelow⟩
  · rw [hnone] at hfound
    cases hfound
  · have habove : key.2 ∈ directoriesAbove cand.2 :=
      mem_cons_of_mem _ (mem_ancestorPaths_iff.2 hbelow)
    obtain ⟨dir, hdir, -⟩ :=
      directory_above hfound (h.below cand hcand) habove
    rw [hauth, show (key.1, key.2) = key from rfl, hnone] at hdir
    cases hdir

end

/-! ## 4. Changes that keep the files -/

theorem remove (h : Extends extras bare full) (hkey : key.2 ≠ []) (hfree : Free extras key) :
    Extends extras (bare.remove key hkey) (full.remove key hkey) where
  entry := by
    intro cand
    rw [entry_remove, entry_remove]
    split
    · rename_i hwithin
      rw [hfree.none hwithin]
      rfl
    · exact h.entry cand
  fresh := by
    intro cand hcand
    rw [entry_remove, h.fresh cand hcand]
    split <;> rfl
  below := h.below
  regular := h.regular
  resolved := h.resolved
  readThrough := h.readThrough

theorem replace (h : Extends extras bare full) {placed : Entry} (hkey : key.2 ≠ [])
    (hbare : bare.hasParents key = true) (hfull : full.hasParents key = true)
    (hfree : Free extras key) :
    Extends extras (bare.replace key placed hkey hbare) (full.replace key placed hkey hfull) where
  entry := by
    intro cand
    rw [entry_replace, entry_replace]
    split
    · rename_i hcand
      rw [hcand, hfree.none (isWithin_refl key)]
      rfl
    · split
      · rename_i hwithin
        rw [hfree.none hwithin]
        rfl
      · exact h.entry cand
  fresh := by
    intro cand hcand
    have hwithin := hfree cand hcand
    have hne : cand ≠ key := by
      rintro rfl
      rw [isWithin_refl] at hwithin
      cases hwithin
    rw [entry_replace, if_neg hne, hwithin]
    exact h.fresh cand hcand
  below := h.below
  regular := h.regular
  resolved := h.resolved
  readThrough := h.readThrough

end Extends

end Malm.Target
