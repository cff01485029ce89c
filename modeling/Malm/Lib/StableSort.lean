/-
Malm.Lib.StableSort — neighbours in the stable sort of a list by a key.

A stable sort keeps the elements of one key in their order
(`filter_sortBy`). So which elements end up next to each other can be said
without sorting: the last of one key and the first of the next key
(`nextTo_iff`).
-/
import Mathlib

namespace StableSort

open List

variable {α κ : Type} [LinearOrder κ] (key : α → κ)

def sortBy (list : List α) : List α := list.insertionSort fun left right => key left ≤ key right

variable {key} {list : List α} {left right : α}

theorem sortBy_perm (list : List α) : (sortBy key list).Perm list := perm_insertionSort _ list

local instance keyTotal : Std.Total fun left right : α => key left ≤ key right :=
  ⟨fun left right => le_total (key left) (key right)⟩

local instance keyTrans : IsTrans α fun left right => key left ≤ key right :=
  ⟨fun _ _ _ => le_trans⟩

theorem sortBy_sorted (list : List α) :
    (sortBy key list).Pairwise fun left right => key left ≤ key right := by
  exact pairwise_insertionSort _ list

theorem filter_sortBy (k : κ) (list : List α) :
    (sortBy key list).filter (fun e => decide (key e = k)) =
      list.filter fun e => decide (key e = k) := by
  have hsame : (list.filter fun e => decide (key e = k)).Pairwise
      fun left right => key left ≤ key right := by
    rw [pairwise_iff_forall_sublist]
    intro left right hsub
    have hleft := hsub.subset (mem_cons_self)
    have hright := hsub.subset (mem_cons_of_mem _ mem_cons_self)
    simp only [mem_filter, decide_eq_true_eq] at hleft hright
    rw [hleft.2, hright.2]
  have hsub := (sublist_insertionSort hsame filter_sublist).filter
    fun e => decide (key e = k)
  rw [filter_filter] at hsub
  simp only [Bool.and_self] at hsub
  refine (hsub.eq_of_length ?_).symm
  exact ((sortBy_perm list).filter _).length_eq.symm

/-! ## 1. Neighbours -/

/-- The last element of one key and the first of the next greater key. -/
structure NextTo (key : α → κ) (list : List α) (left right : α) : Prop where
  last : (list.filter fun element => decide (key element = key left)).getLast? = some left
  first : (list.filter fun element => decide (key element = key right)).head? = some right
  less : key left < key right
  between : ∀ other ∈ list, ¬ (key left < key other ∧ key other < key right)

theorem filter_eq_nil {k : κ} (h : ∀ e ∈ list, key e ≠ k) :
    list.filter (fun e => decide (key e = k)) = [] := by
  simpa using h

theorem last_split
    (h : (list.filter fun element => decide (key element = key left)).getLast? = some left) :
    ∃ before after, sortBy key list = before ++ left :: after ∧
      (∀ element ∈ before, key element ≤ key left) ∧ ∀ element ∈ after, key left < key element := by
  have hsorted := @sortBy_sorted _ _ _ key list
  obtain ⟨init, hinit⟩ := getLast?_eq_some_iff.1 h
  rw [← filter_sortBy, filter_eq_append_iff] at hinit
  obtain ⟨front, back, hsplit, -, hback⟩ := hinit
  obtain ⟨skipped, after, rfl, -, -, hafter⟩ := filter_eq_cons_iff.1 hback
  rw [← append_assoc] at hsplit
  rw [hsplit, pairwise_append, pairwise_cons] at hsorted
  obtain ⟨-, ⟨hafterLe, -⟩, hbeforeLe⟩ := hsorted
  refine ⟨front ++ skipped, after, hsplit, ?_, ?_⟩
  · intro element helement
    exact hbeforeLe element helement left mem_cons_self
  · intro element helement
    refine lt_of_le_of_ne (hafterLe element helement) fun heq => ?_
    have hmem : element ∈ after.filter fun element => decide (key element = key left) :=
      mem_filter.2 ⟨helement, by simp [heq]⟩
    rw [hafter] at hmem
    cases hmem

theorem NextTo.split (h : NextTo key list left right) :
    ∃ before after, sortBy key list = before ++ left :: right :: after := by
  obtain ⟨before, behind, hsplit, hbefore, hbehind⟩ := last_split h.last
  have hperm : (sortBy key list).Perm list := sortBy_perm list
  have hsorted := @sortBy_sorted _ _ _ key list
  rw [hsplit, pairwise_append, pairwise_cons] at hsorted
  obtain ⟨-, ⟨-, hsortedBehind⟩, -⟩ := hsorted
  -- nothing up to `left` has the key of `right`
  have hnone : (before ++ [left]).filter (fun element => decide (key element = key right)) = [] := by
    refine filter_eq_nil fun element helement => ne_of_lt ?_
    rcases mem_append.1 helement with helement | helement
    · exact lt_of_le_of_lt (hbefore element helement) h.less
    · rw [mem_singleton.1 helement]
      exact h.less
  obtain ⟨others, hfirst⟩ := List.head?_eq_some_iff.1 h.first
  rw [← filter_sortBy, hsplit, append_cons, filter_append, hnone, nil_append,
    filter_eq_cons_iff] at hfirst
  obtain ⟨gap, after, rfl, hgap, -, -⟩ := hfirst
  have hempty : gap = [] := by
    refine eq_nil_iff_forall_not_mem.2 fun element helement => ?_
    have hlow : key left < key element := hbehind element (mem_append_left _ helement)
    have hhigh : key element < key right := by
      refine lt_of_le_of_ne ?_ fun heq => ?_
      · exact (pairwise_append.1 hsortedBehind).2.2 element helement right mem_cons_self
      · exact absurd (by simp [heq]) (hgap element helement)
    refine h.between element (hperm.mem_iff.1 ?_) ⟨hlow, hhigh⟩
    rw [hsplit]
    simp [helement]
  rw [hempty] at hsplit
  exact ⟨_, _, hsplit⟩

theorem nextTo_of_split {before after : List α} (hless : key left < key right)
    (hsplit : sortBy key list = before ++ left :: right :: after) : NextTo key list left right := by
  have hsorted := @sortBy_sorted _ _ _ key list
  rw [hsplit, pairwise_append, pairwise_cons, pairwise_cons] at hsorted
  obtain ⟨-, ⟨-, hright, -⟩, hbefore⟩ := hsorted
  have hlow : ∀ element ∈ before, key element ≤ key left :=
    fun element helement => hbefore element helement left mem_cons_self
  have hhigh : ∀ element ∈ right :: after, key right ≤ key element := by
    intro element helement
    rcases mem_cons.1 helement with rfl | helement
    · exact le_rfl
    · exact hright element helement
  refine ⟨?_, ?_, hless, ?_⟩
  · have hnone : (right :: after).filter (fun element => decide (key element = key left)) = [] :=
      filter_eq_nil fun element helement =>
        ne_of_gt (lt_of_lt_of_le hless (hhigh element helement))
    rw [← filter_sortBy, hsplit, append_cons, filter_append, hnone, append_nil, filter_append]
    simp
  · have hnone : (before ++ [left]).filter
        (fun element => decide (key element = key right)) = [] := by
      refine filter_eq_nil fun element helement => ne_of_lt ?_
      rcases mem_append.1 helement with helement | helement
      · exact lt_of_le_of_lt (hlow element helement) hless
      · rw [mem_singleton.1 helement]
        exact hless
    rw [← filter_sortBy, hsplit, append_cons, filter_append, hnone, nil_append]
    simp
  · intro other hother hbetween
    have hperm : (sortBy key list).Perm list := sortBy_perm list
    rw [← hperm.mem_iff, hsplit, append_cons, mem_append, mem_append, mem_singleton] at hother
    rcases hother with (hother | rfl) | hother
    · exact absurd hbetween.1 (not_lt.2 (hlow other hother))
    · exact absurd hbetween.1 (lt_irrefl _)
    · exact absurd hbetween.2 (not_lt.2 (hhigh other hother))

theorem nextTo_iff :
    NextTo key list left right ↔ key left < key right ∧
      ∃ before after, sortBy key list = before ++ left :: right :: after := by
  constructor
  · intro h
    exact ⟨h.less, h.split⟩
  · intro h
    obtain ⟨hless, before, after, hsplit⟩ := h
    exact nextTo_of_split hless hsplit

theorem NextTo.mem_left (h : NextTo key list left right) : left ∈ list :=
  (mem_filter.1 (mem_of_getLast? h.last)).1

theorem NextTo.mem_right (h : NextTo key list left right) : right ∈ list :=
  (mem_filter.1 (mem_of_mem_head? h.first)).1

end StableSort
