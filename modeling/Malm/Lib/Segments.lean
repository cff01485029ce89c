/-
Malm.Lib.Segments — separated texts and the lexicographic order of their
segments.

One text lies above another when it is the other up to one of its separators; that
is the prefix relation on segments. In the lexicographic order a prefix class is an
interval (`prefix_of_between`). Scans over sorted texts rest on this.
-/
import Mathlib

namespace Segments

open List

/-! ## 1. Prefixes in the lexicographic order -/

section Lex

variable {α : Type} [LinearOrder α]

theorem cons_le_cons {a b : α} {x y : List α} : a :: x ≤ b :: y ↔ a < b ∨ (a = b ∧ x ≤ y) := by
  rw [le_iff_lt_or_eq, cons_lt_cons_iff, le_iff_lt_or_eq]
  constructor
  · rintro ((h | ⟨rfl, h⟩) | h)
    · exact .inl h
    · exact .inr ⟨rfl, .inl h⟩
    · obtain ⟨rfl, rfl⟩ := cons.inj h
      exact .inr ⟨rfl, .inr rfl⟩
  · rintro (h | ⟨rfl, h | rfl⟩)
    · exact .inl (.inl h)
    · exact .inl (.inr ⟨rfl, h⟩)
    · exact .inr rfl

theorem le_of_isPrefixOf {x y : List α} (h : x <+: y) : x ≤ y :=
  not_lt.1 (List.IsPrefix.le h)

theorem prefix_of_between : ∀ {x y z : List α}, x ≤ y → y ≤ z → x <+: z → x <+: y
  | [], y, _, _, _, _ => ⟨y, rfl⟩
  | a :: x, [], _, hxy, _, _ => absurd (nil_lt_cons a x) (not_lt.2 hxy)
  | a :: x, b :: y, [], _, _, hxz => by simp at hxz
  | a :: x, b :: y, c :: z, hxy, hyz, hxz => by
    rw [cons_prefix_cons] at hxz ⊢
    obtain ⟨rfl, hxz⟩ := hxz
    rw [cons_le_cons] at hxy hyz
    rcases hxy with hab | ⟨rfl, hxy⟩
    · rcases hyz with hba | ⟨rfl, -⟩
      · exact absurd hab (lt_asymm hba)
      · exact absurd hab (lt_irrefl _)
    · rcases hyz with hba | ⟨-, hyz⟩
      · exact absurd hba (lt_irrefl _)
      · exact ⟨rfl, prefix_of_between hxy hyz hxz⟩

theorem eq_of_prefix_of_le {x y : List α} (hle : x ≤ y) (hpre : y <+: x) : x = y :=
  le_antisymm hle (le_of_isPrefixOf hpre)

end Lex

/-! ## 2. Runs of a sorted list -/

theorem mem_run {α : Type} {r : α → α → Prop} {before inside : α → Bool} {x : α}
    (hmono : ∀ a b, r a b → before b = true → before a = true) (hlower : before x = false) :
    ∀ {l : List α}, x ∈ l → l.Pairwise r →
      (∀ a, before a = false → r a x ∨ a = x → inside a = true) →
      x ∈ (l.dropWhile before).takeWhile inside
  | [], hmem, _, _ => by simp at hmem
  | first :: rest, hmem, hsorted, hinside => by
    rw [pairwise_cons] at hsorted
    by_cases hfirst : before first = true
    · have hne : x ≠ first := by
        rintro rfl
        rw [hlower] at hfirst
        cases hfirst
      rw [dropWhile_cons_of_pos hfirst]
      exact mem_run hmono hlower ((mem_cons.1 hmem).resolve_left hne) hsorted.2 hinside
    · have hkeep : before first = false := by simpa using hfirst
      rw [dropWhile_cons_of_neg hfirst]
      rcases mem_cons.1 hmem with rfl | hmem
      · rw [takeWhile_cons_of_pos (hinside _ hkeep (.inr rfl))]
        exact mem_cons_self
      · rw [takeWhile_cons_of_pos (hinside _ hkeep (.inl (hsorted.1 x hmem)))]
        have hrest : rest.dropWhile before = rest := by
          cases rest with
          | nil => rfl
          | cons snd tail =>
            refine dropWhile_cons_of_neg ?_
            intro hsecond
            exact hfirst (hmono first snd (hsorted.1 snd mem_cons_self) hsecond)
        have ih := mem_run hmono hlower hmem hsorted.2 hinside
        rw [hrest] at ih
        exact mem_cons_of_mem _ ih

/-! ## 3. Separated texts -/

section Separator

variable {α : Type} (separator : α)

def Above (above below : List α) : Prop := ∃ rest, below = above ++ separator :: rest

variable {below above : List α}

theorem above_nil_cons {d : α} : Above separator [] (d :: below) ↔ d = separator := by
  simp [Above, eq_comm]

theorem above_cons_cons {a d : α} :
    Above separator (a :: above) (d :: below) ↔ a = d ∧ Above separator above below := by
  simp only [Above, cons_append, cons.injEq]
  constructor
  · rintro ⟨rest, rfl, h⟩
    exact ⟨rfl, rest, h⟩
  · rintro ⟨rfl, rest, h⟩
    exact ⟨rest, rfl, h⟩

theorem not_above_nil : ¬ Above separator above [] := by
  rintro ⟨rest, h⟩
  simp at h

theorem Above.splitOn [DecidableEq α] (h : Above separator above below) :
    ∃ rest, below.splitOn separator = above.splitOn separator ++ rest ∧ rest ≠ [] := by
  obtain ⟨rest, rfl⟩ := h
  exact ⟨rest.splitOn separator, splitOn_append_cons_self _ _, splitOn_ne_nil _ _⟩

theorem splitOn_injective [DecidableEq α] {left right : List α}
    (h : left.splitOn separator = right.splitOn separator) : left = right := by
  calc left = [separator].intercalate (left.splitOn separator) :=
        (intercalate_splitOn separator).symm
    _ = [separator].intercalate (right.splitOn separator) := by rw [h]
    _ = right := intercalate_splitOn separator

theorem intercalate_append {front back : List (List α)} (hfront : front ≠ [])
    (hback : back ≠ []) :
    [separator].intercalate (front ++ back) =
      [separator].intercalate front ++ separator :: [separator].intercalate back := by
  induction front with
  | nil => exact absurd rfl hfront
  | cons seg front ih =>
    cases front with
    | nil =>
      cases back with
      | nil => exact absurd rfl hback
      | cons b back => simp [intercalate, intersperse]
    | cons next front =>
      have := ih (by simp)
      simp only [cons_append, intercalate, intersperse, flatten_cons, append_assoc] at this ⊢
      simp_all

theorem above_iff [DecidableEq α] :
    Above separator above below ↔
      ∃ rest, below.splitOn separator = above.splitOn separator ++ rest ∧ rest ≠ [] := by
  constructor
  · exact Above.splitOn separator
  · rintro ⟨rest, heq, hrest⟩
    have hjoin := congrArg [separator].intercalate heq
    rw [intercalate_splitOn, intercalate_append separator (splitOn_ne_nil _ _) hrest,
      intercalate_splitOn] at hjoin
    exact ⟨_, hjoin⟩

theorem eq_or_above_iff_isPrefixOf [DecidableEq α] :
    (above = below ∨ Above separator above below) ↔
      above.splitOn separator <+: below.splitOn separator := by
  constructor
  · rintro (rfl | h)
    · exact prefix_refl _
    · obtain ⟨rest, heq, -⟩ := h.splitOn
      exact ⟨rest, heq.symm⟩
  · rintro ⟨rest, heq⟩
    by_cases hrest : rest = []
    · left
      rw [hrest, append_nil] at heq
      exact splitOn_injective separator heq
    · right
      exact (above_iff separator).2 ⟨rest, heq.symm, hrest⟩

end Separator

end Segments
