/-
Malm.Lib.SortedMap — finite maps and sets in key order.

A `SortedMap` is the list of its entries in strictly increasing key order,
which is what iterating a `BTreeMap` or a sorted directory listing visits.
Every operation is described by the lookups of its result. `sortedSet` is
the same for sets: the elements of a list once each, in order.
-/
import Mathlib

/-- A finite map, as its entries in strictly increasing key order. -/
structure SortedMap (κ α : Type) [LinearOrder κ] where
  entries : List (κ × α)
  sorted : (entries.map Prod.fst).Pairwise (· < ·)
deriving DecidableEq

namespace SortedMap

open List

variable {κ α β : Type} [LinearOrder κ]

/-! ## 1. Lookup -/

def empty : SortedMap κ α := ⟨[], List.Pairwise.nil⟩

def get? (map : SortedMap κ α) (key : κ) : Option α := map.entries.lookup key

def keys (map : SortedMap κ α) : List κ := map.entries.map Prod.fst

def contains (map : SortedMap κ α) (key : κ) : Bool := (map.get? key).isSome

@[simp] theorem get?_empty (key : κ) : (empty : SortedMap κ α).get? key = none := rfl

variable {key : κ} {value : α} {map : SortedMap κ α}

theorem lookup_eq_some :
    ∀ {es : List (κ × α)}, (es.map Prod.fst).Pairwise (· < ·) →
      (es.lookup key = some value ↔ (key, value) ∈ es)
  | [], _ => by simp
  | (first, found) :: rest, h => by
    rw [map_cons, pairwise_cons] at h
    rw [lookup_cons]
    by_cases hkey : key = first
    · subst hkey
      have hrest : (key, value) ∉ rest := by
        intro hmem
        exact lt_irrefl _ (h.1 key (mem_map_of_mem hmem))
      simp [hrest, eq_comm]
    · simp [hkey, lookup_eq_some h.2, beq_eq_false_iff_ne.2 hkey]

theorem get?_eq_some : map.get? key = some value ↔ (key, value) ∈ map.entries :=
  lookup_eq_some map.sorted

theorem mem_keys : key ∈ map.keys ↔ ∃ value, map.get? key = some value := by
  simp [keys, get?_eq_some]

theorem contains_iff : map.contains key = true ↔ key ∈ map.keys := by
  rw [mem_keys, contains, Option.isSome_iff_exists]

theorem get?_eq_none : map.get? key = none ↔ key ∉ map.keys := by
  rw [mem_keys, Option.eq_none_iff_forall_ne_some]
  simp

theorem nodup_keys (map : SortedMap κ α) : map.keys.Nodup :=
  map.sorted.imp fun h => ne_of_lt h

/-! ## 2. Removal -/

def filterKeys (map : SortedMap κ α) (keep : κ → Bool) : SortedMap κ α :=
  ⟨map.entries.filter fun entry => keep entry.1,
    map.sorted.sublist ((List.filter_sublist).map _)⟩

theorem get?_filterKeys (map : SortedMap κ α) (keep : κ → Bool) (key : κ) :
    (map.filterKeys keep).get? key = if keep key then map.get? key else none := by
  by_cases hkeep : keep key
  · rw [if_pos hkeep]
    ext value
    simp [get?_eq_some, filterKeys, hkeep]
  · rw [if_neg hkeep, get?_eq_none]
    intro hmem
    obtain ⟨value, hvalue⟩ := mem_keys.1 hmem
    simp [get?_eq_some, filterKeys, hkeep] at hvalue

def erase (map : SortedMap κ α) (key : κ) : SortedMap κ α :=
  map.filterKeys fun candidate => candidate ≠ key

@[simp] theorem get?_erase (map : SortedMap κ α) (key candidate : κ) :
    (map.erase key).get? candidate = if candidate = key then none else map.get? candidate := by
  rw [erase, get?_filterKeys]
  by_cases h : candidate = key <;> simp [h]

/-- The map with every value replaced, as a loop over `values_mut` does. -/
def mapValues (map : SortedMap κ α) (f : α → β) : SortedMap κ β :=
  ⟨map.entries.map fun entry => (entry.1, f entry.2), by
    rw [List.map_map]
    exact map.sorted⟩

theorem get?_mapValues (map : SortedMap κ α) (f : α → β) (key : κ) :
    (map.mapValues f).get? key = (map.get? key).map f := by
  have hlookup : ∀ es : List (κ × α),
      (es.map fun e => (e.1, f e.2)).lookup key = (es.lookup key).map f := by
    intro es
    induction es with
    | nil => rfl
    | cons e es ih =>
      rw [map_cons, lookup_cons, lookup_cons, ih]
      split
      · rfl
      · rfl
  exact hlookup map.entries

/-! ## 3. Insertion -/

def insertEntry (key : κ) (value : α) : List (κ × α) → List (κ × α)
  | [] => [(key, value)]
  | entry :: rest =>
    if key < entry.1 then
      (key, value) :: entry :: rest
    else if key = entry.1 then
      (key, value) :: rest
    else
      entry :: insertEntry key value rest

theorem mem_insertEntry {e : κ × α} :
    ∀ {es : List (κ × α)}, (es.map Prod.fst).Pairwise (· < ·) →
      (e ∈ insertEntry key value es ↔
        e = (key, value) ∨ e ∈ es ∧ e.1 ≠ key)
  | [], _ => by simp [insertEntry]
  | first :: rest, h => by
    rw [map_cons, pairwise_cons] at h
    have hfirst : ∀ other ∈ rest, first.1 < other.1 :=
      fun other hother => h.1 _ (mem_map_of_mem hother)
    unfold insertEntry
    split
    · rename_i hlt
      have hne : ∀ other ∈ first :: rest, other.1 ≠ key := by
        intro other hother
        rcases mem_cons.1 hother with rfl | hother
        · exact ne_of_gt hlt
        · exact ne_of_gt (lt_trans hlt (hfirst other hother))
      rw [mem_cons]
      exact or_congr_right ⟨fun hmem => ⟨hmem, hne e hmem⟩, And.left⟩
    · split
      · rename_i heq
        have hne : ∀ other ∈ rest, other.1 ≠ key :=
          fun other hother => heq ▸ ne_of_gt (hfirst other hother)
        rw [mem_cons, mem_cons]
        constructor
        · rintro (rfl | hmem)
          · exact .inl rfl
          · exact .inr ⟨.inr hmem, hne e hmem⟩
        · rintro (rfl | ⟨rfl | hmem, hentry⟩)
          · exact .inl rfl
          · exact absurd heq.symm hentry
          · exact .inr hmem
      · rename_i hne
        rw [mem_cons, mem_cons, mem_insertEntry h.2]
        constructor
        · rintro (rfl | rfl | ⟨hmem, hentry⟩)
          · exact .inr ⟨.inl rfl, fun heq => hne heq.symm⟩
          · exact .inl rfl
          · exact .inr ⟨.inr hmem, hentry⟩
        · rintro (rfl | ⟨rfl | hmem, hentry⟩)
          · exact .inr (.inl rfl)
          · exact .inl rfl
          · exact .inr (.inr ⟨hmem, hentry⟩)

theorem insertEntry_sorted :
    ∀ {es : List (κ × α)}, (es.map Prod.fst).Pairwise (· < ·) →
      ((insertEntry key value es).map Prod.fst).Pairwise (· < ·)
  | [], _ => by simp [insertEntry]
  | first :: rest, h => by
    have hsorted := h
    rw [map_cons, pairwise_cons] at h
    have hfirst : ∀ other ∈ rest, first.1 < other.1 :=
      fun other hother => h.1 _ (mem_map_of_mem hother)
    unfold insertEntry
    split
    · rename_i hlt
      rw [map_cons, pairwise_cons]
      refine ⟨?_, hsorted⟩
      intro name hname
      obtain ⟨other, hother, rfl⟩ := mem_map.1 hname
      rcases mem_cons.1 hother with rfl | hother
      · exact hlt
      · exact lt_trans hlt (hfirst other hother)
    · rename_i hnot
      split
      · rename_i heq
        rw [map_cons, pairwise_cons]
        refine ⟨?_, h.2⟩
        intro name hname
        obtain ⟨other, hother, rfl⟩ := mem_map.1 hname
        exact heq ▸ hfirst other hother
      · rename_i hne
        rw [map_cons, pairwise_cons]
        refine ⟨?_, insertEntry_sorted h.2⟩
        intro name hname
        obtain ⟨other, hother, rfl⟩ := mem_map.1 hname
        rcases (mem_insertEntry h.2).1 hother with rfl | ⟨hother, -⟩
        · exact lt_of_le_of_ne (not_lt.1 hnot) (Ne.symm hne)
        · exact hfirst other hother

def insert (map : SortedMap κ α) (key : κ) (value : α) : SortedMap κ α :=
  ⟨insertEntry key value map.entries, insertEntry_sorted map.sorted⟩

@[simp] theorem get?_insert (map : SortedMap κ α) (key candidate : κ) (value : α) :
    (map.insert key value).get? candidate =
      if candidate = key then some value else map.get? candidate := by
  ext found
  rw [get?_eq_some, insert, mem_insertEntry map.sorted, ← get?_eq_some]
  by_cases h : candidate = key
  · simp [h, eq_comm]
  · simp [h]

theorem mem_keys_insert {cand : κ} :
    cand ∈ (map.insert key value).keys ↔ cand = key ∨ cand ∈ map.keys := by
  rw [mem_keys, mem_keys, get?_insert]
  by_cases h : cand = key <;> simp [h]

theorem of_get?_insert {cand : κ} {found : α} (h : (map.insert key value).get? cand = some found) :
    cand = key ∧ value = found ∨ map.get? cand = some found := by
  rw [get?_insert] at h
  split at h
  · rename_i hkey
    exact .inl ⟨hkey, Option.some.inj h⟩
  · exact .inr h

theorem get?_insert_of_none {cand : κ} {found : α} (hnone : map.get? key = none)
    (h : map.get? cand = some found) : (map.insert key value).get? cand = some found := by
  rw [get?_insert, if_neg, h]
  rintro rfl
  cases hnone.symm.trans h

/-! ## 4. Equality -/

theorem entries_eq_of_mem_iff {left right : List (κ × α)}
    (hleft : (left.map Prod.fst).Pairwise (· < ·)) (hright : (right.map Prod.fst).Pairwise (· < ·))
    (h : ∀ e, e ∈ left ↔ e ∈ right) : left = right := by
  have hperm : left.Perm right :=
    (perm_ext_iff_of_nodup (List.Nodup.of_map _ (hleft.imp fun h => ne_of_lt h))
      (List.Nodup.of_map _ (hright.imp fun h => ne_of_lt h))).2 h
  have hbefore : left.Pairwise fun a b => a.1 < b.1 := pairwise_map.1 hleft
  refine hperm.eq_of_pairwise ?_ hbefore (pairwise_map.1 hright)
  intro a b _ _ hlt hgt
  exact absurd hgt (lt_asymm hlt)

theorem ext_get? {left right : SortedMap κ α} (h : ∀ key, left.get? key = right.get? key) :
    left = right := by
  have hentries : left.entries = right.entries := by
    refine entries_eq_of_mem_iff left.sorted right.sorted ?_
    rintro ⟨key, value⟩
    rw [← get?_eq_some, ← get?_eq_some, h]
  cases left
  cases right
  cases hentries
  rfl

@[simp] theorem insert_insert (map : SortedMap κ α) (key : κ) (value other : α) :
    (map.insert key value).insert key other = map.insert key other := by
  refine ext_get? fun cand => ?_
  rw [get?_insert, get?_insert, get?_insert]
  split <;> rfl

theorem insert_of_get?_eq_some (h : map.get? key = some value) : map.insert key value = map := by
  refine ext_get? fun cand => ?_
  rw [get?_insert]
  split
  · rename_i heq
    rw [heq, h]
  · rfl

theorem insert_comm (map : SortedMap κ α) {first snd : κ} (h : first ≠ snd)
    (value other : α) :
    (map.insert first value).insert snd other = (map.insert snd other).insert first value := by
  refine ext_get? fun cand => ?_
  rw [get?_insert, get?_insert, get?_insert, get?_insert]
  by_cases hfirst : cand = first
  · rw [if_neg fun hsecond => h (hfirst.symm.trans hsecond), if_pos hfirst, if_pos hfirst]
  · rw [if_neg hfirst, if_neg hfirst]

@[simp] theorem contains_insert (map : SortedMap κ α) (key cand : κ) (value : α) :
    (map.insert key value).contains cand = (cand = key || map.contains cand) := by
  rw [contains, contains, get?_insert]
  by_cases h : cand = key <;> simp [h]

theorem get?_foldl_insert :
    ∀ {es : List (κ × α)} {map : SortedMap κ α}, (es.map Prod.fst).Nodup →
      ((es.foldl (fun map e => map.insert e.1 e.2) map).get? key = some value ↔
        (key, value) ∈ es ∨ key ∉ es.map Prod.fst ∧ map.get? key = some value)
  | [], map, _ => by simp
  | (first, found) :: rest, map, h => by
    rw [map_cons, nodup_cons] at h
    rw [foldl_cons, get?_foldl_insert h.2, get?_insert]
    by_cases heq : key = first
    · subst heq
      have hrest : (key, value) ∉ rest := fun hmem => h.1 (mem_map.2 ⟨_, hmem, rfl⟩)
      simp [h.1, hrest, eq_comm]
    · simp [heq]

theorem get?_foldl_insert_of_notMem :
    ∀ {es : List (κ × α)} {map : SortedMap κ α}, key ∉ es.map Prod.fst →
      (es.foldl (fun map e => map.insert e.1 e.2) map).get? key = map.get? key
  | [], _, _ => rfl
  | (first, found) :: rest, map, h => by
    rw [map_cons, mem_cons, not_or] at h
    rw [foldl_cons, get?_foldl_insert_of_notMem h.2, get?_insert, if_neg h.1]

theorem get?_foldl_insert_of_mem :
    ∀ {es : List (κ × α)} {map : SortedMap κ α}, key ∈ es.map Prod.fst →
      ∃ value, (key, value) ∈ es ∧
        (es.foldl (fun map e => map.insert e.1 e.2) map).get? key = some value
  | (first, found) :: rest, map, h => by
    rw [foldl_cons]
    by_cases hrest : key ∈ rest.map Prod.fst
    · obtain ⟨value, hmem, hget⟩ := get?_foldl_insert_of_mem hrest
      exact ⟨value, mem_cons_of_mem _ hmem, hget⟩
    · rw [map_cons, mem_cons] at h
      obtain rfl := h.resolve_right hrest
      refine ⟨found, mem_cons_self, ?_⟩
      rw [get?_foldl_insert_of_notMem hrest, get?_insert, if_pos rfl]

theorem foldlM_insert {ε σ : Type} {step : SortedMap κ α → σ → Except ε (SortedMap κ α)}
    {key : σ → κ} {value : σ → α} :
    ∀ {es : List σ} {map : SortedMap κ α},
      (∀ e ∈ es, ∀ map : SortedMap κ α, key e ∉ map.keys →
        step map e = .ok (map.insert (key e) (value e))) →
      (es.map key).Nodup → (∀ e ∈ es, key e ∉ map.keys) →
      es.foldlM step map =
        .ok ((es.map fun e => (key e, value e)).foldl
          (fun map entry => map.insert entry.1 entry.2) map)
  | [], _, _, _, _ => rfl
  | first :: rest, map, hstep, hnodup, hfresh => by
    rw [map_cons, nodup_cons] at hnodup
    rw [foldlM_cons, hstep first mem_cons_self map (hfresh first mem_cons_self)]
    refine foldlM_insert (fun e helement => hstep e (mem_cons_of_mem _ helement))
      hnodup.2 fun e helement => ?_
    rw [mem_keys_insert, not_or]
    refine ⟨fun heq => hnodup.1 ?_, hfresh e (mem_cons_of_mem _ helement)⟩
    rw [← heq]
    exact mem_map_of_mem helement

theorem entries_insert_perm (h : key ∉ map.keys) :
    (map.insert key value).entries.Perm ((key, value) :: map.entries) := by
  refine (perm_ext_iff_of_nodup ?_ ?_).2 fun e => ?_
  · exact List.Nodup.of_map _ (map.insert key value).nodup_keys
  · refine nodup_cons.2 ⟨fun hmem => h (mem_map_of_mem hmem), ?_⟩
    exact List.Nodup.of_map _ map.nodup_keys
  · have hne : e ∈ map.entries → e.1 ≠ key := by
      rintro hmem rfl
      exact h (mem_map_of_mem hmem)
    rw [insert, mem_insertEntry map.sorted, mem_cons]
    exact or_congr_right ⟨And.left, fun hmem => ⟨hmem, hne hmem⟩⟩

theorem length_insert_of_notMem (h : key ∉ map.keys) :
    (map.insert key value).entries.length = map.entries.length + 1 := by
  rw [(entries_insert_perm h).length_eq, length_cons]

/-! ## 5. Maps derived from others -/

/-- A map that holds, under every key of another map, a value derived from the one there. -/
structure DerivedFrom (source : SortedMap κ α) (derives : κ → α → β → Prop)
    (result : SortedMap κ β) : Prop where
  values : ∀ key value, source.get? key = some value →
    ∃ derived, derives key value derived ∧ result.get? key = some derived
  nothing : ∀ key, source.get? key = none → result.get? key = none

section

variable {source : SortedMap κ α} {derives : κ → α → β → Prop} {result : SortedMap κ β}
  (h : DerivedFrom source derives result)
include h

theorem DerivedFrom.get?_iff (hfun : ∀ key value first snd, derives key value first →
      derives key value snd → first = snd) (key : κ) (derived : β) :
    result.get? key = some derived ↔
      ∃ value, source.get? key = some value ∧ derives key value derived := by
  cases hvalue : source.get? key with
  | none => simp [h.nothing key hvalue]
  | some value =>
    obtain ⟨known, hknown, hget⟩ := h.values key value hvalue
    simp only [hget, Option.some.injEq, exists_eq_left']
    constructor
    · rintro rfl
      exact hknown
    · exact hfun key value known derived hknown

theorem DerivedFrom.mem_keys_iff (key : κ) :
    key ∈ result.keys ↔ key ∈ source.keys := by
  rw [mem_keys, mem_keys]
  constructor
  · rintro ⟨derived, hder⟩
    cases hvalue : source.get? key with
    | none =>
      rw [h.nothing key hvalue] at hder
      cases hder
    | some value => exact ⟨value, rfl⟩
  · rintro ⟨value, hvalue⟩
    obtain ⟨derived, -, hget⟩ := h.values key value hvalue
    exact ⟨derived, hget⟩

end

end SortedMap

/-! ## 6. Sets -/

/-- A `BTreeSet` collected from a list. -/
def sortedSet {κ : Type} [LinearOrder κ] (elements : List κ) : List κ :=
  elements.dedup.insertionSort (· ≤ ·)

@[simp] theorem mem_sortedSet {κ : Type} [LinearOrder κ] {elements : List κ} {e : κ} :
    e ∈ sortedSet elements ↔ e ∈ elements := by
  rw [sortedSet, List.mem_insertionSort, List.mem_dedup]

theorem sortedSet_congr {κ : Type} [LinearOrder κ] {left right : List κ}
    (h : ∀ e, e ∈ left ↔ e ∈ right) : sortedSet left = sortedSet right := by
  have hperm : (sortedSet left).Perm (sortedSet right) := by
    unfold sortedSet
    refine (List.perm_insertionSort _ _).trans (.trans ?_ (List.perm_insertionSort _ _).symm)
    refine (List.perm_ext_iff_of_nodup (List.nodup_dedup left) (List.nodup_dedup right)).2 ?_
    simpa using h
  exact hperm.eq_of_pairwise' (List.pairwise_insertionSort _ _) (List.pairwise_insertionSort _ _)

theorem nodup_sortedSet {κ : Type} [LinearOrder κ] (es : List κ) :
    (sortedSet es).Nodup :=
  (List.perm_insertionSort _ _).nodup_iff.2 (List.nodup_dedup es)
