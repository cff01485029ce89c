/-
Malm.Lib.LastWrite — maps built by insertions that may repeat a key.

The last insertion under a key decides (`get?_foldl_insert_iff`). `LastAt`
names it.
-/
import Malm.Lib.SortedMap

def LastAt {κ α : Type} (pairs : List (κ × α)) (key : κ) (value : α) : Prop :=
  ∃ before after, pairs = before ++ (key, value) :: after ∧ key ∉ after.map Prod.fst

namespace LastAt

open List Prod

variable {κ α β : Type} {key : κ} {value : α}

theorem mem {pairs : List (κ × α)} (h : LastAt pairs key value) : (key, value) ∈ pairs := by
  obtain ⟨before, after, rfl, -⟩ := h
  simp

theorem cons_iff {first : κ × α} {rest : List (κ × α)} :
    LastAt (first :: rest) key value ↔
      LastAt rest key value ∨ first = (key, value) ∧ key ∉ rest.map fst := by
  constructor
  · intro h
    obtain ⟨before, after, hpairs, hlast⟩ := h
    cases before with
    | nil =>
      obtain ⟨rfl, rfl⟩ := cons.inj hpairs
      exact .inr ⟨rfl, hlast⟩
    | cons head tail => exact .inl ⟨tail, after, (cons.inj hpairs).2, hlast⟩
  · intro h
    rcases h with ⟨before, after, rfl, hlast⟩ | ⟨rfl, hlast⟩
    · exact ⟨first :: before, after, rfl, hlast⟩
    · exact ⟨[], rest, rfl, hlast⟩

theorem mem_keys_iff {pairs : List (κ × α)} :
    key ∈ pairs.map fst ↔ ∃ value, LastAt pairs key value := by
  constructor
  · intro h
    induction pairs with
    | nil => cases h
    | cons first rest ih =>
      by_cases hrest : key ∈ rest.map fst
      · obtain ⟨value, hlast⟩ := ih hrest
        exact ⟨value, cons_iff.2 (.inl hlast)⟩
      · obtain rfl : key = first.1 := (mem_cons.1 h).resolve_right hrest
        exact ⟨first.2, cons_iff.2 (.inr ⟨rfl, hrest⟩)⟩
  · rintro ⟨value, h⟩
    exact mem_map_of_mem h.mem

theorem singleton_iff {other : κ} {found : α} :
    LastAt [(key, value)] other found ↔ other = key ∧ found = value := by
  constructor
  · intro h
    obtain ⟨rfl, rfl⟩ := mk.inj (mem_singleton.1 h.mem)
    exact ⟨rfl, rfl⟩
  · rintro ⟨rfl, rfl⟩
    exact ⟨[], [], rfl, not_mem_nil⟩

theorem not_nil : ¬ LastAt [] key value :=
  fun h => not_mem_nil h.mem

theorem flatMap_iff {items : List β} {pairs : β → List (κ × α)} :
    LastAt (items.flatMap pairs) key value ↔
      ∃ before item after, items = before ++ item :: after ∧ LastAt (pairs item) key value ∧
        key ∉ (after.flatMap pairs).map fst := by
  constructor
  · induction items with
    | nil =>
      intro h
      obtain ⟨before, after, hpairs, -⟩ := h
      simp at hpairs
    | cons item rest ih =>
      intro h
      obtain ⟨before, after, hpairs, hlast⟩ := h
      rw [flatMap_cons] at hpairs
      rcases append_eq_append_iff.1 hpairs with ⟨more, rfl, hrest⟩ | ⟨more, hitem, hmore⟩
      · obtain ⟨front, found, back, hsplit, hat, hnone⟩ := ih ⟨more, after, hrest, hlast⟩
        exact ⟨item :: front, found, back, by rw [hsplit]; rfl, hat, hnone⟩
      · cases more with
        | nil =>
          obtain ⟨front, found, back, hsplit, hat, hnone⟩ :=
            ih ⟨[], after, by simpa using hmore.symm, hlast⟩
          exact ⟨item :: front, found, back, by rw [hsplit]; rfl, hat, hnone⟩
        | cons first more =>
          obtain ⟨rfl, rfl⟩ := cons.inj hmore
          have hboth : key ∉ more.map fst ∧ key ∉ (rest.flatMap pairs).map fst := by
            rw [← not_or, ← mem_append, ← map_append]
            exact hlast
          exact ⟨[], item, rest, rfl, ⟨before, more, hitem, hboth.1⟩, hboth.2⟩
  · intro h
    obtain ⟨front, item, back, hitems, ⟨before, after, hpairs, hlast⟩, hnone⟩ := h
    refine ⟨front.flatMap pairs ++ before, after ++ back.flatMap pairs, ?_, ?_⟩
    · rw [hitems, flatMap_append, flatMap_cons, hpairs]
      simp
    · rw [map_append, mem_append, not_or]
      exact ⟨hlast, hnone⟩

end LastAt

namespace SortedMap

open List Prod

variable {κ α : Type} [LinearOrder κ] {key : κ} {value : α}

theorem get?_foldl_insert_iff {pairs : List (κ × α)} {map : SortedMap κ α} :
    (pairs.foldl (fun map pair => map.insert pair.1 pair.2) map).get? key = some value ↔
      LastAt pairs key value ∨ key ∉ pairs.map fst ∧ map.get? key = some value := by
  induction pairs generalizing map with
  | nil =>
    constructor
    · intro h
      exact .inr ⟨not_mem_nil, h⟩
    · intro h
      rcases h with ⟨before, after, hpairs, -⟩ | ⟨-, h⟩
      · simp at hpairs
      · exact h
  | cons first rest ih =>
    rw [foldl_cons, ih, LastAt.cons_iff, map_cons, mem_cons, not_or, get?_insert]
    by_cases hkey : key = first.1
    · subst hkey
      simp only [if_true, not_true, false_and, or_false, Option.some.injEq, Prod.ext_iff, true_and]
      tauto
    · have hfirst : first ≠ (key, value) := fun heq => hkey (by rw [heq])
      simp only [hkey, not_false_eq_true, true_and, hfirst, false_and, or_false, if_false]

theorem get?_foldl_insert_empty {pairs : List (κ × α)} :
    (pairs.foldl (fun map pair => map.insert pair.1 pair.2) empty).get? key = some value ↔
      LastAt pairs key value := by
  rw [get?_foldl_insert_iff, get?_empty]
  simp

end SortedMap
