/-
Malm.Target.Changes — taking entries of a target system away and putting
new ones in their place.

A removal takes everything below the entry with it. A new entry needs the
directories above it. Both are described by the entries of the result.
-/
import Malm.Target.System
import Malm.Store.OwnershipTheorems

namespace Malm.Target

open Store Commit

/-! ## 1. Above and below -/

/-- Strictly below another path of the same authority. -/
def isBelow (key candidate : TargetKey) : Bool :=
  candidate.1 = key.1 && key.2.isAncestor candidate.2

def isWithin (key candidate : TargetKey) : Bool :=
  candidate = key || isBelow key candidate

theorem isAncestor_ne_nil {above below : Text} (h : above.isAncestor below = true) :
    below ≠ [] := by
  rintro rfl
  cases above <;> cases h

theorem isAncestor_trans {top mid bottom : Text} (h : top.isAncestor mid = true)
    (h' : mid.isAncestor bottom = true) : top.isAncestor bottom = true := by
  rw [Text.isAncestor_iff] at h h' ⊢
  obtain ⟨rest, rfl⟩ := h
  obtain ⟨rest', rfl⟩ := h'
  exact ⟨rest ++ '/' :: rest', by simp⟩

theorem isAncestor_irrefl (path : Text) : path.isAncestor path = false := by
  rw [Bool.eq_false_iff, Ne, Text.isAncestor_iff]
  rintro ⟨rest, h⟩
  have := congrArg List.length h
  simp at this

theorem mem_ancestorPaths_iff {above path : Text} :
    above ∈ path.ancestorPaths ↔ above.isAncestor path = true := by
  rw [Text.mem_ancestorPaths, Text.isAncestor_iff]

theorem ancestorPaths_split : ∀ {path above : Text} {front behind : List Text},
    path.ancestorPaths = front ++ above :: behind → above.ancestorPaths = front
  | [], _, front, behind, h => by
    cases front <;> cases h
  | c :: path, above, front, behind, h => by
    -- The ancestors of the rest, each behind the first c.
    have hmapped : ∀ {front' : List Text},
        (Text.ancestorPaths path).map (c :: ·) = front' ++ above :: behind →
          ∃ above' : Text, above = c :: above' ∧
            above'.ancestorPaths.map (c :: ·) = front' := by
      intro front' hsplit
      obtain ⟨before, after, hpath, rfl, hafter⟩ := List.map_eq_append_iff.1 hsplit
      obtain ⟨above', behind', rfl, rfl, -⟩ := List.map_eq_cons_iff.1 hafter
      exact ⟨above', rfl, by rw [ancestorPaths_split hpath]⟩
    rw [Text.ancestorPaths] at h
    split at h
    · rename_i hslash
      cases front with
      | nil =>
        obtain rfl : above = [] := (List.cons.inj h).1.symm
        rfl
      | cons first front =>
        rw [List.cons_append, List.cons.injEq] at h
        obtain ⟨rfl, hrest⟩ := h
        obtain ⟨above', rfl, hfront⟩ := hmapped hrest
        rw [Text.ancestorPaths, if_pos hslash, hfront]
    · rename_i hslash
      obtain ⟨above', rfl, hfront⟩ := hmapped h
      rw [Text.ancestorPaths, if_neg hslash, hfront]

/-- A directory above a path lies at or above the path's parent. -/
theorem isWithin_parent {auth : DeploymentName} {above path : Text}
    (h : above ∈ path.ancestorPaths) :
    isWithin (auth, above) (auth, path.ancestorPaths.getLast?.getD []) = true := by
  rcases List.eq_nil_or_concat path.ancestorPaths with hnil | ⟨front, last, hsplit⟩
  · rw [hnil] at h
    cases h
  · rw [List.concat_eq_append] at hsplit
    rw [hsplit, List.mem_append, List.mem_singleton] at h
    rw [hsplit, List.getLast?_concat]
    rcases h with h | rfl
    · rw [← ancestorPaths_split hsplit, mem_ancestorPaths_iff] at h
      simp [isWithin, isBelow, h]
    · simp [isWithin]

theorem isWithin_of_above {key : TargetKey} {auth : DeploymentName} {path above : Text}
    (hkey : key.2 ≠ []) (habove : above ∈ directoriesAbove path)
    (h : isWithin key (auth, above) = true) : isWithin key (auth, path) = true := by
  obtain ⟨keyAuthority, keyPath⟩ := key
  simp only [isWithin, isBelow, Bool.or_eq_true, Bool.and_eq_true, decide_eq_true_eq,
    Prod.mk.injEq] at h ⊢
  rcases List.mem_cons.1 habove with rfl | habove
  · rcases h with ⟨-, hpath⟩ | ⟨-, hbelow⟩
    · exact absurd hpath.symm hkey
    · exact absurd rfl (isAncestor_ne_nil hbelow)
  · rw [mem_ancestorPaths_iff] at habove
    right
    rcases h with ⟨hauth, rfl⟩ | ⟨hauth, hbelow⟩
    · exact ⟨hauth, habove⟩
    · exact ⟨hauth, isAncestor_trans hbelow habove⟩

theorem not_isWithin_above {key : TargetKey} {above : Text} (hkey : key.2 ≠ [])
    (habove : above ∈ directoriesAbove key.2) : isWithin key (key.1, above) = false := by
  rw [Bool.eq_false_iff]
  intro h
  simp only [isWithin, isBelow, Bool.or_eq_true, Bool.and_eq_true, decide_eq_true_eq, true_and,
    Prod.ext_iff] at h
  rcases List.mem_cons.1 habove with rfl | habove
  · rcases h with hpath | hbelow
    · exact hkey hpath.symm
    · exact isAncestor_ne_nil hbelow rfl
  · rw [mem_ancestorPaths_iff] at habove
    rcases h with rfl | hbelow
    · rw [isAncestor_irrefl] at habove
      cases habove
    · have := isAncestor_trans hbelow habove
      rw [isAncestor_irrefl] at this
      cases this

namespace TargetSystem

/-! ## 2. Removal -/

/-- Take an entry and everything below it away. -/
def remove (system : TargetSystem) (key : TargetKey) (hkey : key.2 ≠ []) : TargetSystem where
  entries := system.entries.filterKeys fun candidate => !isWithin key (ofLex candidate)
  resolved := system.resolved
  readThrough := system.readThrough
  closed := by
    intro pair hmem hpath above habove
    have hpair := SortedMap.get?_eq_some.2 hmem
    rw [SortedMap.get?_filterKeys] at hpair
    split at hpair
    · rename_i hkeep
      have hold := system.closed pair (SortedMap.get?_eq_some.1 hpair) hpath above habove
      have hkeepAbove : isWithin key ((ofLex pair.1).1, above) = false := by
        rw [Bool.eq_false_iff]
        intro hwithin
        rw [isWithin_of_above hkey habove hwithin] at hkeep
        cases hkeep
      rw [SortedMap.get?_filterKeys, if_pos (by simp [hkeepAbove])]
      exact hold
    · cases hpair

theorem entry_remove (system : TargetSystem) (key : TargetKey) (hkey : key.2 ≠ [])
    (candidate : TargetKey) :
    (system.remove key hkey).entry candidate =
      if isWithin key candidate then none else system.entry candidate := by
  unfold entry remove
  rw [SortedMap.get?_filterKeys]
  cases h : isWithin key candidate <;> simp [h]

/-! ## 3. Replacement -/

/-- Whether the directories above a destination are there. -/
def hasParents (system : TargetSystem) (key : TargetKey) : Bool :=
  (directoriesAbove key.2).all fun above =>
    (system.entry (key.1, above)).any (·.kind = .directory)

/-- Put a new entry in the place of an old one and everything below it. -/
def replace (system : TargetSystem) (key : TargetKey) (placed : Entry) (hkey : key.2 ≠ [])
    (hparents : system.hasParents key = true) : TargetSystem where
  entries := (system.remove key hkey).entries.insert (toLex key) placed
  resolved := system.resolved
  readThrough := system.readThrough
  closed := by
    rintro ⟨candidate, found⟩ hmem hpath above habove
    have hpair := SortedMap.get?_eq_some.2 hmem
    rw [SortedMap.get?_insert] at hpair ⊢
    split at hpair
    · rename_i hcandidate
      have hcandidate : candidate = toLex key := hcandidate
      rw [hcandidate] at habove ⊢
      have hwithin := not_isWithin_above hkey habove
      have hne : toLex (key.1, above) ≠ toLex key := by
        intro heq
        rw [show (key.1, above) = key from toLex.injective heq] at hwithin
        simp [isWithin] at hwithin
      have hkept := system.entry_remove key hkey (key.1, above)
      rw [hwithin] at hkept
      have hparent := List.all_eq_true.1 hparents above habove
      have hentry : (system.remove key hkey).entries.get? (toLex (key.1, above)) =
          system.entry (key.1, above) := hkept
      exact (if_neg hne).symm ▸ hentry.symm ▸ hparent
    · have hold := (system.remove key hkey).closed (candidate, found)
        (SortedMap.get?_eq_some.1 hpair) hpath above habove
      split
      · rename_i hsame
        -- Nothing that is left lies below the new entry.
        have hkept : (system.remove key hkey).entries.get? candidate =
            if isWithin key (ofLex candidate) then none else system.entry (ofLex candidate) :=
          system.entry_remove key hkey (ofLex candidate)
        have habove' : isWithin key ((ofLex candidate).1, above) = true := by
          have heq : ((ofLex candidate).1, above) = key := toLex.injective hsame
          simp only [isWithin, heq, decide_true, Bool.true_or]
        have hwithin : isWithin key (ofLex candidate) = true :=
          isWithin_of_above hkey habove habove'
        rw [hwithin, if_pos rfl] at hkept
        have hfound : (system.remove key hkey).entries.get? candidate = some found := hpair
        rw [hkept] at hfound
        cases hfound
      · exact hold

theorem entry_replace (system : TargetSystem) (key : TargetKey) (placed : Entry)
    (hkey : key.2 ≠ []) (hparents : system.hasParents key = true) (candidate : TargetKey) :
    (system.replace key placed hkey hparents).entry candidate =
      if candidate = key then some placed
      else if isWithin key candidate then none else system.entry candidate := by
  have hinsert : (system.replace key placed hkey hparents).entry candidate =
      if candidate = key then some placed else (system.remove key hkey).entry candidate := by
    refine (SortedMap.get?_insert _ _ _ _).trans ?_
    by_cases hkeys : candidate = key
    · rw [if_pos (congrArg toLex hkeys), if_pos hkeys]
    · rw [if_neg fun h => hkeys (toLex.injective h), if_neg hkeys]
      rfl
  rw [hinsert, entry_remove]

end TargetSystem

end Malm.Target
