/-
Malm.Lib.SortedList — sorted vectors with unique keys as finite maps.

`search` is what a binary search by key returns. `search_spec` cuts the vector at that
index, and every operation at the index is read off the cut. `lookup` is the map that the
vector stands for.
-/
import Malm.Lib.Keyed

namespace SortedList

open List Function Option Except

variable {α κ : Type} [LinearOrder κ] (key : α → κ)

/-! ## 1. Operations -/

def Sorted (list : List α) : Prop := list.Pairwise fun left right => key left < key right

/-- Where the elements with a smaller key end. -/
def lowerBound (k : κ) (list : List α) : Nat :=
  (list.takeWhile fun element => decide (key element < k)).length

/-- `binary_search_by`: the index of the key, or where to insert it. -/
def search (k : κ) (list : List α) : Except Nat Nat :=
  match list[lowerBound key k list]? with
  | some element =>
    if key element = k then .ok (lowerBound key k list) else .error (lowerBound key k list)
  | none => .error (lowerBound key k list)

def lookup (list : List α) (k : κ) : Option α := list.find? fun element => key element = k

/-- Replace the element of the same key, or insert at the searched index. -/
def put (element : α) (list : List α) : List α :=
  match search key (key element) list with
  | .ok index => list.set index element
  | .error index => list.insertIdx index element

/-! ## 2. The cut -/

variable {key} {k : κ} {list before after : List α} {element : α}

theorem lowerBound_append (hbefore : ∀ a ∈ before, key a < k)
    (hafter : ∀ a ∈ after.head?, ¬ key a < k) :
    lowerBound key k (before ++ after) = before.length := by
  unfold lowerBound
  rw [takeWhile_append_of_pos (by simpa using hbefore)]
  cases after with
  | nil => simp
  | cons first rest =>
    have hfirst : ¬ key first < k := hafter first rfl
    simp [hfirst]

theorem getElem?_length_append (before after : List α) :
    (before ++ after)[before.length]? = after.head? := by
  rw [getElem?_append_right (Nat.le_refl _), Nat.sub_self, head?_eq_getElem?]

theorem search_spec (hsorted : Sorted key list) (k : κ) :
    ∃ before after, list = before ++ after ∧ (∀ a ∈ before, key a < k) ∧
      ((∃ found rest, after = found :: rest ∧ key found = k ∧ (∀ a ∈ rest, k < key a) ∧
          search key k list = .ok before.length) ∨
        ((∀ a ∈ after, k < key a) ∧ search key k list = .error before.length)) := by
  obtain ⟨before, after, hlist, hbefore, hhead⟩ : ∃ before after, list = before ++ after ∧
      (∀ a ∈ before, key a < k) ∧ ∀ a ∈ after.head?, ¬ key a < k := by
    refine ⟨list.takeWhile fun element => decide (key element < k),
      list.dropWhile fun element => decide (key element < k),
      (takeWhile_append_dropWhile).symm, ?_, ?_⟩
    · intro a ha
      simpa using mem_takeWhile_imp ha
    · intro a ha
      have := head?_dropWhile_not (fun element => decide (key element < k)) list
      rw [mem_def] at ha
      rw [ha] at this
      simpa using this
  subst hlist
  refine ⟨before, after, rfl, hbefore, ?_⟩
  have hbound := lowerBound_append hbefore hhead
  have hsearch := getElem?_length_append before after
  cases after with
  | nil =>
    refine .inr ⟨by simp, ?_⟩
    unfold search
    rw [hbound, hsearch]
    rfl
  | cons found rest =>
    have hfound : k ≤ key found := not_lt.1 (hhead found rfl)
    have hrest : ∀ a ∈ rest, key found < key a :=
      (pairwise_cons.1 (pairwise_append.1 hsorted).2.1).1
    by_cases heq : key found = k
    · refine .inl ⟨found, rest, rfl, heq, fun a ha => heq ▸ hrest a ha, ?_⟩
      unfold search
      rw [hbound, hsearch]
      simp [heq]
    · have hlt : k < key found := lt_of_le_of_ne hfound (Ne.symm heq)
      refine .inr ⟨?_, ?_⟩
      · intro a ha
        rcases mem_cons.1 ha with rfl | ha
        · exact hlt
        · exact lt_trans hlt (hrest a ha)
      · unfold search
        rw [hbound, hsearch]
        simp [heq]

/-! ## 3. The map -/

theorem insertIdx_length (before after : List α) (element : α) :
    (before ++ after).insertIdx before.length element = before ++ element :: after := by
  induction before with
  | nil => simp
  | cons first rest ih => simp [ih]

theorem put_spec (hsorted : Sorted key list) (element : α) :
    ∃ before after, put key element list = before ++ element :: after ∧
      (∀ a ∈ before, key a < key element) ∧ (∀ a ∈ after, key element < key a) ∧
      (list = before ++ after ∨
        ∃ found, key found = key element ∧ list = before ++ found :: after) := by
  obtain ⟨before, after, rfl, hbefore, hcut⟩ := search_spec hsorted (key element)
  rcases hcut with ⟨found, rest, rfl, hfound, hrest, hsearch⟩ | ⟨hafter, hsearch⟩
  · refine ⟨before, rest, ?_, hbefore, hrest, .inr ⟨found, hfound, rfl⟩⟩
    simp [put, hsearch]
  · refine ⟨before, after, ?_, hbefore, hafter, .inl rfl⟩
    simp only [put, hsearch]
    exact insertIdx_length before after element

theorem sorted_cut {before after : List α} :
    Sorted key (before ++ after) ↔ Sorted key before ∧ Sorted key after ∧
      ∀ a ∈ before, ∀ b ∈ after, key a < key b :=
  pairwise_append

theorem put_sorted (hsorted : Sorted key list) (element : α) :
    Sorted key (put key element list) := by
  obtain ⟨before, after, hput, hbefore, hafter, hlist⟩ := put_spec hsorted element
  have hparts : Sorted key before ∧ Sorted key after := by
    rcases hlist with rfl | ⟨found, -, rfl⟩
    · exact ⟨(sorted_cut.1 hsorted).1, (sorted_cut.1 hsorted).2.1⟩
    · exact ⟨(sorted_cut.1 hsorted).1, (pairwise_cons.1 (sorted_cut.1 hsorted).2.1).2⟩
  rw [hput, sorted_cut]
  refine ⟨hparts.1, pairwise_cons.2 ⟨hafter, hparts.2⟩, ?_⟩
  intro a ha b hb
  rcases mem_cons.1 hb with rfl | hb
  · exact hbefore a ha
  · exact lt_trans (hbefore a ha) (hafter b hb)

variable {k : κ} {index : Nat}

theorem lookup_eq_some (hsorted : Sorted key list) :
    lookup key list k = some element ↔ element ∈ list ∧ key element = k := by
  have hnodup : (list.map key).Nodup := pairwise_map.2 (hsorted.imp fun hlt => ne_of_lt hlt)
  unfold lookup
  exact Keyed.find?_eq_some hnodup

theorem lookup_eq_none : lookup key list k = none ↔ ∀ a ∈ list, key a ≠ k := by
  simp [lookup]

theorem mem_put (hsorted : Sorted key list) {a : α} :
    a ∈ put key element list ↔ a = element ∨ a ∈ list ∧ key a ≠ key element := by
  obtain ⟨before, after, hput, hbefore, hafter, hlist⟩ := put_spec hsorted element
  have hne : ∀ a, a ∈ before ∨ a ∈ after → key a ≠ key element := by
    intro a ha
    rcases ha with ha | ha
    · exact ne_of_lt (hbefore a ha)
    · exact ne_of_gt (hafter a ha)
  have hlist' : ∀ a, key a ≠ key element → (a ∈ list ↔ a ∈ before ∨ a ∈ after) := by
    intro a ha
    rcases hlist with rfl | ⟨found, hfound, rfl⟩
    · simp
    · have : a ≠ found := fun h => ha (h ▸ hfound)
      simp [this]
  rw [hput, mem_append, mem_cons]
  constructor
  · intro h
    rcases h with h | h | h
    · exact .inr ⟨(hlist' a (hne a (.inl h))).2 (.inl h), hne a (.inl h)⟩
    · exact .inl h
    · exact .inr ⟨(hlist' a (hne a (.inr h))).2 (.inr h), hne a (.inr h)⟩
  · intro h
    rcases h with h | ⟨hmem, hkey⟩
    · exact .inr (.inl h)
    · rcases (hlist' a hkey).1 hmem with h | h
      · exact .inl h
      · exact .inr (.inr h)

theorem lookup_put (hsorted : Sorted key list) (element : α) :
    lookup key (put key element list) =
      update (lookup key list) (key element) (some element) := by
  funext k
  refine ext fun a => ?_
  rw [lookup_eq_some (put_sorted hsorted element), mem_put hsorted]
  by_cases hk : k = key element
  · subst hk
    simp only [update_self, some.injEq]
    constructor
    · intro h
      rcases h.1 with rfl | hmem
      · rfl
      · exact absurd h.2 hmem.2
    · rintro rfl
      exact ⟨.inl rfl, rfl⟩
  · rw [update_of_ne hk, lookup_eq_some hsorted]
    constructor
    · intro h
      rcases h.1 with rfl | hmem
      · exact absurd h.2.symm hk
      · exact ⟨hmem.1, h.2⟩
    · intro h
      exact ⟨.inr ⟨h.1, fun heq => hk (h.2.symm.trans heq)⟩, h.2⟩

/-! ## 4. Removal -/

section

variable (hsorted : Sorted key list)

include hsorted

theorem search_ok_iff :
    (∃ index, search key k list = .ok index) ↔ ∃ a ∈ list, key a = k := by
  obtain ⟨before, after, rfl, hbefore, hcut⟩ := search_spec hsorted k
  rcases hcut with ⟨found, rest, rfl, hfound, hrest, hsearch⟩ | ⟨hafter, hsearch⟩
  · rw [hsearch]
    exact ⟨fun _ => ⟨found, by simp, hfound⟩, fun _ => ⟨_, rfl⟩⟩
  · rw [hsearch]
    constructor
    · rintro ⟨index, h⟩
      cases h
    · rintro ⟨a, ha, rfl⟩
      rcases mem_append.1 ha with ha | ha
      · exact absurd (hbefore a ha) (lt_irrefl _)
      · exact absurd (hafter a ha) (lt_irrefl _)

theorem lookup_of_search_error (h : search key k list = .error index) :
    lookup key list k = none := by
  rw [lookup_eq_none]
  intro a hmem heq
  obtain ⟨found, hfound⟩ := (search_ok_iff hsorted).2 ⟨a, hmem, heq⟩
  rw [h] at hfound
  cases hfound

theorem eraseIdx_sorted (index : Nat) :
    Sorted key (list.eraseIdx index) :=
  List.Pairwise.sublist (eraseIdx_sublist list index) hsorted

/-- Removal at the searched index removes the key from the map, and nothing
else. -/
theorem mem_eraseIdx_search (h : search key k list = .ok index) {a : α} :
    a ∈ list.eraseIdx index ↔ a ∈ list ∧ key a ≠ k := by
  obtain ⟨before, after, rfl, hbefore, hcut⟩ := search_spec hsorted k
  rcases hcut with ⟨found, rest, rfl, hfound, hrest, hsearch⟩ | ⟨hafter, hsearch⟩
  · obtain rfl := ok.inj (h.symm.trans hsearch)
    rw [eraseIdx_append_of_length_le (Nat.le_refl _), Nat.sub_self, eraseIdx_cons_zero]
    have hne : ∀ a, a ∈ before ∨ a ∈ rest → key a ≠ k := by
      intro a ha
      rcases ha with ha | ha
      · exact ne_of_lt (hbefore a ha)
      · exact ne_of_gt (hrest a ha)
    simp only [mem_append, mem_cons]
    constructor
    · intro ha
      exact ⟨ha.imp_right .inr, hne a ha⟩
    · intro ha
      rcases ha with ⟨hbefore | rfl | hrest, hkey⟩
      · exact .inl hbefore
      · exact absurd hfound hkey
      · exact .inr hrest
  · rw [hsearch] at h
    cases h

theorem lookup_eraseIdx (h : search key k list = .ok index) :
    lookup key (list.eraseIdx index) = update (lookup key list) k none := by
  funext k'
  refine ext fun a => ?_
  rw [lookup_eq_some (eraseIdx_sorted hsorted index), mem_eraseIdx_search hsorted h]
  by_cases hk : k' = k
  · subst hk
    simp only [update_self, reduceCtorEq, iff_false, not_and]
    exact fun hmem => hmem.2
  · rw [update_of_ne hk, lookup_eq_some hsorted]
    constructor
    · intro ha
      exact ⟨ha.1.1, ha.2⟩
    · intro ha
      exact ⟨⟨ha.1, fun heq => hk (ha.2.symm.trans heq)⟩, ha.2⟩

theorem getElem?_search (h : search key k list = .ok index) :
    list[index]? = lookup key list k := by
  obtain ⟨before, after, rfl, hbefore, hcut⟩ := search_spec hsorted k
  rcases hcut with ⟨found, rest, rfl, hfound, hrest, hsearch⟩ | ⟨hafter, hsearch⟩
  · obtain rfl := ok.inj (h.symm.trans hsearch)
    rw [getElem?_length_append, head?_cons]
    exact ((lookup_eq_some hsorted).2 ⟨by simp, hfound⟩).symm
  · rw [hsearch] at h
    cases h

end

end SortedList
