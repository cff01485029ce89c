/-
Malm.Config.ValueLimits — what the limits of a value are
(`malm-config/src/rich.rs`, `rich_eval.rs`).

Validation succeeds exactly when every text and collection is within its own limit, and
height and size are within theirs. The three measures are followed through replacements
at a path.
-/
import Malm.Config.ValuePaths

namespace Malm.Config

open Pack Checks List SortedMap Option

namespace TypedValue

/-! ## 1. Measures -/

mutual

/-- The depth of the deepest value, where the value itself is at depth one. -/
def height : TypedValue → Nat
  | list values => 1 + itemsHeight values
  | record values => 1 + entriesHeight values
  | collection values => 1 + entriesHeight values
  | _ => 1

def itemsHeight : List TypedValue → Nat
  | [] => 0
  | first :: rest => max (height first) (itemsHeight rest)

def entriesHeight : List (RichKey × TypedValue) → Nat
  | [] => 0
  | (_, first) :: rest => max (height first) (entriesHeight rest)

end

mutual

def size : TypedValue → Nat
  | list values => 1 + itemsSize values
  | record values => 1 + entriesSize values
  | collection values => 1 + entriesSize values
  | _ => 1

def itemsSize : List TypedValue → Nat
  | [] => 0
  | first :: rest => size first + itemsSize rest

def entriesSize : List (RichKey × TypedValue) → Nat
  | [] => 0
  | (_, first) :: rest => size first + entriesSize rest

end

mutual

/-- Every text and every collection within is within its own limit. -/
def Bounded : TypedValue → Prop
  | string value => value.byteLen ≤ maxRichTextBytes
  | list values => values.length ≤ maxRichCollectionItems ∧ ItemsBounded values
  | record values => values.length ≤ maxRichCollectionItems ∧ EntriesBounded values
  | collection values => values.length ≤ maxRichCollectionItems ∧ EntriesBounded values
  | _ => True

def ItemsBounded : List TypedValue → Prop
  | [] => True
  | first :: rest => Bounded first ∧ ItemsBounded rest

def EntriesBounded : List (RichKey × TypedValue) → Prop
  | [] => True
  | (_, first) :: rest => Bounded first ∧ EntriesBounded rest

end

theorem height_pos (value : TypedValue) : 0 < value.height := by
  cases value <;> simp [height]

/-! ## 2. Validation -/

theorem countValue_ok {depth total r : Nat} :
    countValue depth total = .ok r ↔
      depth ≤ maxRichValueDepth ∧ total + 1 ≤ maxRichTotalValues ∧ r = total + 1 := by
  simp only [countValue, checkRichLimit, bind_ok, exists_unit, reject_ok, pure_ok, not_lt]
  exact and_congr_right fun _ => and_congr_right fun _ => eq_comm

theorem countValue_scalar {depth total r : Nat} :
    countValue depth total = .ok r ↔
      True ∧ depth + 1 ≤ maxRichValueDepth + 1 ∧ total + 1 ≤ maxRichTotalValues ∧
        r = total + 1 := by
  rw [countValue_ok, true_and]
  omega

/-- The checks of a value that holds others; one without items needs one level and one value. -/
theorem enclosed_ok {bounded isEmpty : Prop} {length inner items depth total r : Nat}
    (hinner : isEmpty → inner = 0) (hitems : isEmpty → items = 0) :
    (∃ count, (depth ≤ maxRichValueDepth ∧ total + 1 ≤ maxRichTotalValues ∧ count = total + 1) ∧
      ¬ maxRichCollectionItems < length ∧ bounded ∧
        (isEmpty ∨ depth + 1 + inner ≤ maxRichValueDepth + 1 ∧
          count + items ≤ maxRichTotalValues) ∧ r = count + items) ↔
      (length ≤ maxRichCollectionItems ∧ bounded) ∧
        depth + (1 + inner) ≤ maxRichValueDepth + 1 ∧ total + (1 + items) ≤ maxRichTotalValues ∧
          r = total + (1 + items) := by
  constructor
  · rintro ⟨count, ⟨hdepth, htotal, rfl⟩, hcount, hbound, hwithin, rfl⟩
    refine ⟨⟨by omega, hbound⟩, ?_, ?_, by omega⟩
    · rcases hwithin with hempty | hwithin
      · have := hinner hempty
        omega
      · omega
    · rcases hwithin with hempty | hwithin
      · have := hitems hempty
        omega
      · omega
  · rintro ⟨⟨hcount, hbound⟩, hdepth, htotal, rfl⟩
    exact ⟨total + 1, ⟨by omega, by omega, rfl⟩, by omega, hbound,
      .inr ⟨by omega, by omega⟩, by omega⟩

mutual

theorem validateAt_ok : ∀ (value : TypedValue) (depth total r : Nat),
    validateAt depth total value = .ok r ↔
      value.Bounded ∧ depth + value.height ≤ maxRichValueDepth + 1 ∧
        total + value.size ≤ maxRichTotalValues ∧ r = total + value.size
  | null, _, _, _ => by
    simp only [validateAt, countValue_scalar, Bounded, height, size]
  | boolean _, _, _, _ => by
    simp only [validateAt, countValue_scalar, Bounded, height, size]
  | integer _, _, _, _ => by
    simp only [validateAt, countValue_scalar, Bounded, height, size]
  | unsigned _, _, _, _ => by
    simp only [validateAt, countValue_scalar, Bounded, height, size]
  | float _, _, _, _ => by
    simp only [validateAt, countValue_scalar, Bounded, height, size]
  | path _, _, _, _ => by
    simp only [validateAt, countValue_scalar, Bounded, height, size]
  | string value, depth, total, r => by
    simp only [validateAt, bind_ok, exists_unit, countValue_ok, checkRichLimit,
      reject_ok, pure_ok, Bounded, height, size]
    constructor
    · rintro ⟨count, ⟨hdepth, htotal, rfl⟩, hbytes, rfl⟩
      omega
    · rintro ⟨hbytes, hdepth, htotal, rfl⟩
      exact ⟨total + 1, ⟨by omega, by omega, rfl⟩, by omega, rfl⟩
  | list vs, depth, total, r => by
    simp only [validateAt, bind_ok, exists_unit, countValue_ok, checkRichLimit,
      reject_ok, validateItems_ok vs, Bounded, height, size]
    exact enclosed_ok (fun h => by rw [h, itemsHeight]) (fun h => by rw [h, itemsSize])
  | record vs, depth, total, r => by
    simp only [validateAt, bind_ok, exists_unit, countValue_ok, checkRichLimit,
      reject_ok, validateFields_ok vs, Bounded, height, size]
    exact enclosed_ok (fun h => by rw [h, entriesHeight]) (fun h => by rw [h, entriesSize])
  | collection vs, depth, total, r => by
    simp only [validateAt, bind_ok, exists_unit, countValue_ok, checkRichLimit,
      reject_ok, validateFields_ok vs, Bounded, height, size]
    exact enclosed_ok (fun h => by rw [h, entriesHeight]) (fun h => by rw [h, entriesSize])

theorem validateItems_ok : ∀ (vs : List TypedValue) (depth total r : Nat),
    validateItems depth total vs = .ok r ↔
      ItemsBounded vs ∧
        (vs = [] ∨ depth + itemsHeight vs ≤ maxRichValueDepth + 1 ∧
          total + itemsSize vs ≤ maxRichTotalValues) ∧ r = total + itemsSize vs
  | [], depth, total, r => by
    simp [validateItems, ItemsBounded, itemsSize, eq_comm]
  | first :: rest, depth, total, r => by
    simp only [validateItems, bind_ok, validateAt_ok first, validateItems_ok rest,
      ItemsBounded, itemsHeight, itemsSize, reduceCtorEq, false_or]
    have hpos := first.height_pos
    constructor
    · rintro ⟨count, ⟨hfirst, hdepth, htotal, rfl⟩, hrest, hitems, rfl⟩
      refine ⟨⟨hfirst, hrest⟩, ?_, by omega⟩
      rcases hitems with rfl | h
      · simp only [itemsHeight, itemsSize]; omega
      · omega
    · rintro ⟨⟨hfirst, hrest⟩, ⟨hdepth, htotal⟩, rfl⟩
      exact ⟨total + first.size, ⟨hfirst, by omega, by omega, rfl⟩, hrest,
        .inr ⟨by omega, by omega⟩, by omega⟩

theorem validateFields_ok : ∀ (vs : List (RichKey × TypedValue)) (depth total r : Nat),
    validateFields depth total vs = .ok r ↔
      EntriesBounded vs ∧
        (vs = [] ∨ depth + entriesHeight vs ≤ maxRichValueDepth + 1 ∧
          total + entriesSize vs ≤ maxRichTotalValues) ∧ r = total + entriesSize vs
  | [], depth, total, r => by
    simp [validateFields, EntriesBounded, entriesSize, eq_comm]
  | (key, first) :: rest, depth, total, r => by
    simp only [validateFields, bind_ok, validateAt_ok first, validateFields_ok rest,
      EntriesBounded, entriesHeight, entriesSize, reduceCtorEq, false_or]
    have hpos := first.height_pos
    constructor
    · rintro ⟨count, ⟨hfirst, hdepth, htotal, rfl⟩, hrest, hitems, rfl⟩
      refine ⟨⟨hfirst, hrest⟩, ?_, by omega⟩
      rcases hitems with rfl | h
      · simp only [entriesHeight, entriesSize]; omega
      · omega
    · rintro ⟨⟨hfirst, hrest⟩, ⟨hdepth, htotal⟩, rfl⟩
      exact ⟨total + first.size, ⟨hfirst, by omega, by omega, rfl⟩, hrest,
        .inr ⟨by omega, by omega⟩, by omega⟩

end

variable {value : TypedValue} {key : RichKey} {entries : Entries}

theorem validate_ok :
    value.validate = .ok () ↔
      value.Bounded ∧ value.height ≤ maxRichValueDepth ∧ value.size ≤ maxRichTotalValues := by
  simp only [validate, bind_ok, pure_ok, validateAt_ok]
  constructor
  · rintro ⟨count, ⟨hbound, hdepth, htotal, -⟩, -⟩
    exact ⟨hbound, by omega, by omega⟩
  · rintro ⟨hbound, hdepth, htotal⟩
    exact ⟨value.size, ⟨hbound, by omega, by omega, by omega⟩, trivial⟩

/-! ## 3. Entries -/

theorem height_le_of_lookup :
    ∀ {entries : Entries}, entries.lookup key = some value →
      value.height ≤ entriesHeight entries
  | (first, found) :: rest, h => by
    rw [lookup_cons] at h
    rw [entriesHeight]
    split at h
    · cases h
      exact le_max_left _ _
    · exact (height_le_of_lookup h).trans (le_max_right _ _)

theorem bounded_of_lookup :
    ∀ {entries : Entries}, EntriesBounded entries → entries.lookup key = some value →
      value.Bounded
  | (first, found) :: rest, hentries, h => by
    rw [lookup_cons] at h
    rw [EntriesBounded] at hentries
    split at h
    · cases h
      exact hentries.1
    · exact bounded_of_lookup hentries.2 h

theorem replaceEntry_limits (value : TypedValue) {old : TypedValue} :
    ∀ {entries : Entries}, entries.lookup key = some old →
      entriesSize (replaceEntry key value entries) + old.size =
        entriesSize entries + value.size ∧
      entriesHeight (replaceEntry key value entries) ≤
        max (entriesHeight entries) value.height ∧
      (replaceEntry key value entries).length = entries.length ∧
      (EntriesBounded entries → value.Bounded → EntriesBounded (replaceEntry key value entries))
  | (first, found) :: rest, h => by
    rw [lookup_cons] at h
    rw [replaceEntry]
    by_cases hkey : first = key
    · subst hkey
      rw [beq_self_eq_true] at h
      cases h
      simp only [if_true, entriesSize, entriesHeight, EntriesBounded, length_cons]
      refine ⟨by omega, by omega, trivial, fun hentries hvalue => ⟨hvalue, hentries.2⟩⟩
    · rw [beq_eq_false_iff_ne.2 (Ne.symm hkey)] at h
      obtain ⟨hsize, hheight, hlen, hbound⟩ := replaceEntry_limits value h
      simp only [hkey, if_false, entriesSize, entriesHeight, EntriesBounded, length_cons]
      exact ⟨by omega, by omega, by omega,
        fun hentries hvalue => ⟨hentries.1, hbound hentries.2 hvalue⟩⟩

theorem insertEntry_limits (value : TypedValue) :
    ∀ {entries : Entries}, entries.lookup key = none →
      entriesSize (insertEntry key value entries) = entriesSize entries + value.size ∧
      entriesHeight (insertEntry key value entries) =
        max (entriesHeight entries) value.height ∧
      (insertEntry key value entries).length = entries.length + 1 ∧
      (EntriesBounded entries → value.Bounded →
        EntriesBounded (insertEntry key value entries))
  | [], _ => by
    simp [insertEntry, entriesSize, entriesHeight, EntriesBounded]
  | (first, found) :: rest, h => by
    rw [lookup_cons] at h
    have hkey : key ≠ first := by
      rintro rfl
      rw [beq_self_eq_true] at h
      cases h
    rw [beq_eq_false_iff_ne.2 hkey] at h
    obtain ⟨hsize, hheight, hlen, hbound⟩ := insertEntry_limits value h
    rw [insertEntry, if_neg hkey]
    split
    · simp only [entriesSize, entriesHeight, EntriesBounded, length_cons]
      exact ⟨by omega, by omega, trivial, fun hentries hvalue => ⟨hvalue, hentries⟩⟩
    · simp only [entriesSize, entriesHeight, EntriesBounded, length_cons]
      exact ⟨by omega, by omega, by omega,
        fun hentries hvalue => ⟨hentries.1, hbound hentries.2 hvalue⟩⟩

theorem dropEntry_limits {key : RichKey} :
    ∀ entries : Entries,
      entriesSize (dropEntry entries key) ≤ entriesSize entries ∧
      entriesHeight (dropEntry entries key) ≤ entriesHeight entries ∧
      (dropEntry entries key).length ≤ entries.length ∧
      (EntriesBounded entries → EntriesBounded (dropEntry entries key))
  | [] => by simp [dropEntry]
  | (first, found) :: rest => by
    obtain ⟨hsize, hheight, hlen, hbound⟩ := dropEntry_limits rest
    unfold dropEntry at *
    by_cases hkey : first = key
    · rw [filter_cons_of_neg (by simp [hkey])]
      simp only [entriesSize, entriesHeight, EntriesBounded, length_cons]
      exact ⟨by omega, by omega, by omega, fun hentries => hbound hentries.2⟩
    · rw [filter_cons_of_pos (by simp [hkey])]
      simp only [entriesSize, entriesHeight, EntriesBounded, length_cons]
      exact ⟨by omega, by omega, by omega, fun hentries => ⟨hentries.1, hbound hentries.2⟩⟩

def sizeOfFound : Option TypedValue → Nat
  | some value => value.size
  | none => 0

theorem putEntry_limits {entries : Entries} {key : RichKey} {value : TypedValue} :
    entriesSize (putEntry entries key value) + sizeOfFound (entries.lookup key) =
        entriesSize entries + value.size ∧
      entriesHeight (putEntry entries key value) ≤ max (entriesHeight entries) value.height ∧
      (putEntry entries key value).length =
        entries.length + (if entries.lookup key = none then 1 else 0) ∧
      (EntriesBounded entries → value.Bounded → EntriesBounded (putEntry entries key value)) := by
  unfold putEntry
  cases h : entries.lookup key with
  | none =>
    obtain ⟨hsize, hheight, hlen, hbound⟩ := insertEntry_limits value h
    simp only [isSome_none, Bool.false_eq_true, if_false, sizeOfFound, if_true]
    exact ⟨by omega, by omega, by omega, hbound⟩
  | some old =>
    obtain ⟨hsize, hheight, hlen, hbound⟩ := replaceEntry_limits value h
    simp only [isSome_some, if_true, sizeOfFound, reduceCtorEq, if_false]
    exact ⟨by omega, by omega, by omega, hbound⟩

/-! ## 4. Replacement at a path -/

theorem children_cases (h : value.children = some entries) :
    value = record entries ∨ value = collection entries := by
  cases value <;> simp_all [children]

theorem select_cons {rest : List RichKey} {found : TypedValue}
    (h : value.select (key :: rest) = some found) :
    ∃ entries child, value.children = some entries ∧ entries.lookup key = some child ∧
      child.select rest = some found := by
  simp only [select, bind_eq_bind, bind_eq_some_iff] at h
  obtain ⟨entries, hentries, child, hchild, hrest⟩ := h
  exact ⟨entries, child, hentries, hchild, hrest⟩

theorem replaceAt_cons {rest : List RichKey} {child replacement : TypedValue}
    (hentries : value.children = some entries) (hchild : entries.lookup key = some child) :
    value.replaceAt (key :: rest) replacement =
      value.withChildren (replaceEntry key (child.replaceAt rest replacement) entries) := by
  simp [replaceAt, hentries, hchild, putEntry]

theorem replaceAt_limits (replacement : TypedValue) :
    ∀ {segs : List RichKey} {value old : TypedValue}, value.select segs = some old →
      (value.replaceAt segs replacement).size + old.size = value.size + replacement.size ∧
      (value.replaceAt segs replacement).height ≤
        max value.height (segs.length + replacement.height) ∧
      (value.Bounded → replacement.Bounded → (value.replaceAt segs replacement).Bounded)
  | [], value, old, h => by
    rw [select] at h
    cases h
    rw [replaceAt]
    exact ⟨Nat.add_comm _ _, by simp, fun _ hreplacement => hreplacement⟩
  | key :: rest, value, old, h => by
    obtain ⟨entries, child, hentries, hchild, hrest⟩ := select_cons h
    obtain ⟨hsize, hheight, hbound⟩ := replaceAt_limits replacement hrest
    obtain ⟨hsizes, hheights, hlen, hall⟩ :=
      replaceEntry_limits (child.replaceAt rest replacement) hchild
    have hinner := height_le_of_lookup hchild
    rw [replaceAt_cons hentries hchild, length_cons]
    rcases children_cases hentries with rfl | rfl
    · simp only [withChildren, size, height, Bounded]
      refine ⟨by omega, by omega, fun hvalue hreplacement => ⟨by omega, hall hvalue.2 ?_⟩⟩
      exact hbound (bounded_of_lookup hvalue.2 hchild) hreplacement
    · simp only [withChildren, size, height, Bounded]
      refine ⟨by omega, by omega, fun hvalue hreplacement => ⟨by omega, hall hvalue.2 ?_⟩⟩
      exact hbound (bounded_of_lookup hvalue.2 hchild) hreplacement

theorem bounded_of_select : ∀ {segs : List RichKey} {value found : TypedValue},
    value.Bounded → value.select segs = some found → found.Bounded
  | [], value, found, hvalue, h => by
    rw [select] at h
    cases h
    exact hvalue
  | key :: rest, value, found, hvalue, h => by
    obtain ⟨entries, child, hentries, hchild, hrest⟩ := select_cons h
    refine bounded_of_select ?_ hrest
    rcases children_cases hentries with rfl | rfl
    · exact bounded_of_lookup hvalue.2 hchild
    · exact bounded_of_lookup hvalue.2 hchild

theorem height_of_select : ∀ {segs : List RichKey} {value found : TypedValue},
    value.select segs = some found → segs.length + found.height ≤ value.height
  | [], value, found, h => by
    rw [select] at h
    cases h
    simp
  | key :: rest, value, found, h => by
    obtain ⟨entries, child, hentries, hchild, hrest⟩ := select_cons h
    have hbelow := height_of_select hrest
    have hchildren := height_le_of_lookup hchild
    rw [length_cons]
    rcases children_cases hentries with rfl | rfl <;> rw [height] <;> omega

/-! ## 5. Parts of valid values -/

theorem size_le_of_lookup :
    ∀ {entries : Entries}, entries.lookup key = some value → value.size ≤ entriesSize entries
  | (first, found) :: rest, h => by
    rw [lookup_cons] at h
    rw [entriesSize]
    split at h
    · cases h
      exact Nat.le_add_right _ _
    · exact (size_le_of_lookup h).trans (Nat.le_add_left _ _)

theorem item_limits :
    ∀ {vs : List TypedValue}, ItemsBounded vs → value ∈ vs →
      value.Bounded ∧ value.height ≤ itemsHeight vs ∧ value.size ≤ itemsSize vs
  | first :: rest, hvalues, hmem => by
    rw [ItemsBounded] at hvalues
    rw [itemsHeight, itemsSize]
    rcases mem_cons.1 hmem with rfl | hrest
    · exact ⟨hvalues.1, le_max_left _ _, Nat.le_add_right _ _⟩
    · obtain ⟨hbound, hheight, hsize⟩ := item_limits hvalues.2 hrest
      exact ⟨hbound, by omega, by omega⟩

theorem entry_limits {e : RichKey × TypedValue} :
    ∀ {entries : Entries}, EntriesBounded entries → e ∈ entries →
      e.2.Bounded ∧ e.2.height ≤ entriesHeight entries ∧
        e.2.size ≤ entriesSize entries
  | (key, first) :: rest, hentries, hmem => by
    rw [EntriesBounded] at hentries
    rw [entriesHeight, entriesSize]
    rcases mem_cons.1 hmem with rfl | hrest
    · exact ⟨hentries.1, le_max_left _ _, Nat.le_add_right _ _⟩
    · obtain ⟨hbound, hheight, hsize⟩ := entry_limits hentries.2 hrest
      exact ⟨hbound, by omega, by omega⟩

theorem validate_of_lookup {child : TypedValue} (hvalue : value.validate = .ok ())
    (hentries : value.children = some entries) (hchild : entries.lookup key = some child) :
    child.validate = .ok () := by
  rw [validate_ok] at hvalue ⊢
  have hheight := height_le_of_lookup hchild
  have hsize := size_le_of_lookup hchild
  obtain ⟨hbound, hdepth, htotal⟩ := hvalue
  rcases children_cases hentries with rfl | rfl <;> rw [height] at hdepth <;>
    rw [size] at htotal <;> rw [Bounded] at hbound
  · exact ⟨bounded_of_lookup hbound.2 hchild, by omega, by omega⟩
  · exact ⟨bounded_of_lookup hbound.2 hchild, by omega, by omega⟩

theorem validate_of_item {vs : List TypedValue} (h : (list vs).validate = .ok ())
    (hmem : value ∈ vs) : value.validate = .ok () := by
  rw [validate_ok, Bounded, height, size] at h
  obtain ⟨hbound, hheight, hsize⟩ := item_limits h.1.2 hmem
  exact validate_ok.2 ⟨hbound, by omega, by omega⟩

theorem validate_of_entry {e : RichKey × TypedValue}
    (h : (collection entries).validate = .ok ()) (hmem : e ∈ entries) :
    e.2.validate = .ok () := by
  rw [validate_ok, Bounded, height, size] at h
  obtain ⟨hbound, hheight, hsize⟩ := entry_limits h.1.2 hmem
  exact validate_ok.2 ⟨hbound, by omega, by omega⟩

end TypedValue

end Malm.Config
