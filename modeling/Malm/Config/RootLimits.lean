/-
Malm.Config.RootLimits — the value limits along the changes of a root
(`malm-config/src/rich_eval.rs`).

A run changes its root by a chain of recorded changes (`Reached`). What a change writes
replaces one value of the root, so the sizes differ by those of the two values, and only
the written value can be too deep.
-/
import Malm.Config.Evaluation
import Malm.Config.ValueLimits

namespace Malm.Config

open Pack Checks List Option RootChange

variable {after es fields : Entries}

/-! ## 1. Chains of changes -/

/-- The texts and the collections of the operands are within their own limits. -/
def RootChange.OperandsBounded : RootChange → Prop
  | emit _ value => value.Bounded
  | set _ value => value.Bounded
  | unset _ _ => True
  | listAppend _ value => value.Bounded
  | collectionInsert _ _ value => value.Bounded
  | collectionReplace _ _ value => value.Bounded
  | collectionRemove _ _ _ => True
  | collectionReplaceAll _ values => (TypedValue.collection values).Bounded

/-- The root of a run at a time, with its provenance and its history. -/
structure Snapshot where
  root : Entries
  provenance : DocumentProvenance
  history : List RootStep

def Snapshot.step (before : Snapshot) (change : RootChange) (after : Entries)
    (target : RichValuePath) (record : ProvenanceRecord) : Snapshot where
  root := after
  provenance := Evaluator.addRecord (Evaluator.dropBelow change target before.provenance)
    target record
  history := before.history ++ [⟨before.root, change, after, target, record⟩]

/-- The snapshots from the empty root, each with a later sequence number. -/
inductive Reached : Snapshot → Prop
  | start : Reached ⟨[], .empty, []⟩
  | step {before : Snapshot} {change : RootChange} {after : Entries} {target : RichValuePath}
      {record : ProvenanceRecord} : Reached before → change.OperandsBounded →
      change.apply before.root = .ok after → change.target = .ok target →
      (∀ earlier ∈ before.history, earlier.record.sequence < record.sequence) →
      Reached (before.step change after target record)

/-! ## 2. The condition -/

def WithinLimits (root : Entries) : Prop :=
  (TypedValue.record root).validate = .ok ()

/-- The number of entries beside the last segment of a path. -/
def siblingCount (root : Entries) (path : RichValuePath) : Nat :=
  match (TypedValue.record root).select path.segments.dropLast with
  | some parent => (parent.children.getD []).length
  | none => 0

/-- A value fits at a path: not too deep, not too many values, and no entry too many. -/
def FitsAt (root : Entries) (path : RichValuePath) (value : TypedValue) : Prop :=
  path.segments.length + value.height ≤ maxRichValueDepth ∧
    (TypedValue.record root).size + value.size ≤
      maxRichTotalValues + TypedValue.sizeOfFound (getPath root path) ∧
    (getPath root path = none → siblingCount root path + 1 ≤ maxRichCollectionItems)

/-- A value fits one level below a path, in the place of another one or of none. -/
def FitsBelow (root : Entries) (path : RichValuePath) (value : TypedValue)
    (replaced : Option TypedValue) : Prop :=
  path.segments.length + 1 + value.height ≤ maxRichValueDepth ∧
    (TypedValue.record root).size + value.size ≤ maxRichTotalValues + TypedValue.sizeOfFound replaced

/-- A change fits the root before it; the code checks the lengths of lists. -/
def RootChange.Fits (root : Entries) : RootChange → Prop
  | emit key value => FitsAt root (.root key) value
  | set path value => FitsAt root path value
  | unset _ _ => True
  | listAppend path value => FitsBelow root path value none
  | collectionInsert path _ value => FitsBelow root path value none
  | collectionReplace path key value =>
    FitsBelow root path value
      (((getPath root path).bind TypedValue.children).bind (List.lookup key))
  | collectionRemove _ _ _ => True
  | collectionReplaceAll path values =>
    path.segments.length + (TypedValue.collection values).height ≤ maxRichValueDepth ∧
      (TypedValue.record root).size + (TypedValue.collection values).size ≤
        maxRichTotalValues + TypedValue.sizeOfFound (getPath root path)

instance (root : Entries) : Decidable (WithinLimits root) := inferInstanceAs (Decidable (_ = _))

instance (root : Entries) (path : RichValuePath) (value : TypedValue) :
    Decidable (FitsAt root path value) := inferInstanceAs (Decidable (_ ∧ _ ∧ (_ → _)))

instance (root : Entries) (path : RichValuePath) (value : TypedValue)
    (replaced : Option TypedValue) : Decidable (FitsBelow root path value replaced) :=
  inferInstanceAs (Decidable (_ ∧ _))

instance (root : Entries) : ∀ change : RootChange, Decidable (change.Fits root)
  | .emit key value => inferInstanceAs (Decidable (FitsAt root (.root key) value))
  | .set path value => inferInstanceAs (Decidable (FitsAt root path value))
  | .unset _ _ => inferInstanceAs (Decidable True)
  | .listAppend path value => inferInstanceAs (Decidable (FitsBelow root path value none))
  | .collectionInsert path _ value => inferInstanceAs (Decidable (FitsBelow root path value none))
  | .collectionReplace path _ value =>
    inferInstanceAs (Decidable (FitsBelow root path value _))
  | .collectionRemove _ _ _ => inferInstanceAs (Decidable True)
  | .collectionReplaceAll _ _ => inferInstanceAs (Decidable (_ ∧ _))

/-! ## 3. Writing -/

variable {root : Entries} {path : RichValuePath} {old value : TypedValue}

theorem record_writePath (h : getPath root path = some old) :
    TypedValue.record (writePath root path value) =
      (TypedValue.record root).replaceAt path.segments value := by
  obtain ⟨segs, hne, hbounded⟩ := path
  cases segs with
  | nil => exact absurd rfl hne
  | cons key rest =>
    obtain ⟨es, child, hentries, hchild, -⟩ := TypedValue.select_cons h
    cases hentries
    simp only [writePath]
    rw [TypedValue.replaceAt_cons rfl hchild]
    rfl

theorem parentOf_ok {last : RichKey} {parent : Option RichValuePath}
    (h : parentOf root path = .ok (parent, fields, last)) :
    path.segments = path.segments.dropLast ++ [last] ∧
      (TypedValue.record root).select path.segments.dropLast = some (.record fields) ∧
      ∀ stored, TypedValue.record (storeParent root parent stored) =
        (TypedValue.record root).replaceAt path.segments.dropLast (.record stored) := by
  unfold parentOf at h
  cases hlast : path.segments.getLast? with
  | none =>
    rw [hlast] at h
    cases h
  | some found =>
    rw [hlast] at h
    have hsplit : path.segments = path.segments.dropLast ++ [found] :=
      (dropLast_append_getLast? found hlast).symm
    simp only at h
    split at h
    · next hempty =>
      cases h
      exact ⟨hsplit, by rw [hempty]; rfl, fun stored => by rw [hempty]; rfl⟩
    · split at h
      · cases h
      · next parentPath hnew =>
        have hsegs : parentPath.segments = path.segments.dropLast := by
          unfold RichValuePath.new at hnew
          split_ifs at hnew
          cases hnew
          rfl
        split at h
        · cases h
        · next hfound =>
          cases h
          refine ⟨hsplit, by rw [← hsegs]; exact hfound, fun stored => ?_⟩
          rw [← hsegs]
          exact record_writePath hfound
        · cases h

theorem select_append {before behind : List RichKey} :
    ∀ {value mid : TypedValue}, value.select before = some mid →
      value.select (before ++ behind) = mid.select behind := by
  induction before with
  | nil =>
    intro value mid h
    rw [TypedValue.select] at h
    cases h
    rfl
  | cons key rest ih =>
    intro value mid h
    obtain ⟨es, child, hentries, hchild, hrest⟩ := TypedValue.select_cons h
    rw [cons_append, TypedValue.select, hentries]
    simp only [bind_eq_bind, bind_some, hchild]
    exact ih hrest

theorem getPath_parent {last : RichKey}
    (hsplit : path.segments = path.segments.dropLast ++ [last])
    (hparent : (TypedValue.record root).select path.segments.dropLast = some (.record fields)) :
    getPath root path = fields.lookup last := by
  rw [getPath, hsplit, select_append hparent, TypedValue.select]
  simp [TypedValue.children, TypedValue.select]

/-! ## 4. Changes that fit -/

theorem within_of_replaceAt {stored : Entries} {segs : List RichKey}
    {replacement : TypedValue} (hroot : WithinLimits root)
    (hold : (TypedValue.record root).select segs = some old)
    (hstored : TypedValue.record stored = (TypedValue.record root).replaceAt segs replacement)
    (hbounded : replacement.Bounded)
    (hheight : segs.length + replacement.height ≤ maxRichValueDepth)
    (hsize : (TypedValue.record root).size + replacement.size ≤ maxRichTotalValues + old.size) :
    WithinLimits stored := by
  obtain ⟨hrootBounded, hrootHeight, hrootSize⟩ := TypedValue.validate_ok.1 hroot
  obtain ⟨hsizes, hheights, hbound⟩ := TypedValue.replaceAt_limits replacement hold
  refine TypedValue.validate_ok.2 ?_
  rw [hstored]
  exact ⟨hbound hrootBounded hbounded, by omega, by omega⟩

theorem setPath_within {root after : Entries} {path : RichValuePath} {value : TypedValue}
    (hroot : WithinLimits root) (hvalue : value.Bounded) (hfits : FitsAt root path value)
    (h : setPath root path value = .ok after) : WithinLimits after := by
  simp only [setPath, bind_ok, pure_ok] at h
  obtain ⟨⟨parent, fields, last⟩, hparent, rfl⟩ := h
  obtain ⟨hsplit, hselect, hstore⟩ := parentOf_ok hparent
  obtain ⟨hdepth, htotal, hcount⟩ := hfits
  rw [getPath_parent hsplit hselect] at htotal hcount
  have hrec := TypedValue.bounded_of_select (TypedValue.validate_ok.1 hroot).1 hselect
  have hheight := TypedValue.height_of_select hselect
  have hrootHeight := (TypedValue.validate_ok.1 hroot).2.1
  obtain ⟨hsizes, hheights, hlen, hall⟩ := @TypedValue.putEntry_limits fields last value
  have hlengths : path.segments.length = path.segments.dropLast.length + 1 := by
    rw [hsplit]
    simp
  refine within_of_replaceAt hroot hselect (hstore _) ?_ ?_ ?_
  · refine ⟨?_, hall hrec.2 hvalue⟩
    have hfields := hrec.1
    rw [hlen]
    split
    · next habsent =>
      have hsiblings := hcount habsent
      rw [siblingCount, hselect] at hsiblings
      exact hsiblings
    · exact hfields
  · simp only [TypedValue.height] at hheight hrootHeight ⊢
    omega
  · simp only [TypedValue.size] at htotal ⊢
    omega

theorem removePath_within {found : Bool} (hroot : WithinLimits root)
    (h : removePath root path = .ok (after, found)) : WithinLimits after := by
  simp only [removePath, bind_ok, pure_ok] at h
  obtain ⟨⟨parent, fields, last⟩, hparent, hstored⟩ := h
  cases hstored
  obtain ⟨hsplit, hselect, hstore⟩ := parentOf_ok hparent
  have hrec := TypedValue.bounded_of_select (TypedValue.validate_ok.1 hroot).1 hselect
  have hheight := TypedValue.height_of_select hselect
  have hlimits := (TypedValue.validate_ok.1 hroot).2
  obtain ⟨hsizes, hheights, hlen, hall⟩ := @TypedValue.dropEntry_limits last fields
  refine within_of_replaceAt hroot hselect (hstore _) ?_ ?_ ?_
  · exact ⟨hlen.trans hrec.1, hall hrec.2⟩
  · simp only [TypedValue.height] at hheight hlimits ⊢
    omega
  · simp only [TypedValue.size] at hlimits ⊢
    omega

theorem writePath_within (hroot : WithinLimits root) (hold : getPath root path = some old)
    (hvalue : value.Bounded) (hheight : path.segments.length + value.height ≤ maxRichValueDepth)
    (hsize : (TypedValue.record root).size + value.size ≤ maxRichTotalValues + old.size) :
    WithinLimits (writePath root path value) :=
  within_of_replaceAt hroot hold (record_writePath hold) hvalue hheight hsize

theorem collectionAt_ok (h : collectionAt root path = .ok es) :
    getPath root path = some (.collection es) := by
  unfold collectionAt at h
  split at h
  · cases h
  · next hfound =>
    cases h
    exact hfound
  · cases h

theorem listAt_ok {vs : List TypedValue} (h : listAt root path = .ok vs) :
    getPath root path = some (.list vs) := by
  unfold listAt at h
  split at h
  · cases h
  · next hfound =>
    cases h
    exact hfound
  · cases h

theorem append_limits {value : TypedValue} (vs : List TypedValue) :
    TypedValue.itemsSize (vs ++ [value]) = TypedValue.itemsSize vs + value.size ∧
      TypedValue.itemsHeight (vs ++ [value]) =
        max (TypedValue.itemsHeight vs) value.height ∧
      (TypedValue.ItemsBounded vs → value.Bounded →
        TypedValue.ItemsBounded (vs ++ [value])) := by
  induction vs with
  | nil => simp [TypedValue.itemsSize, TypedValue.itemsHeight, TypedValue.ItemsBounded]
  | cons first rest ih =>
    obtain ⟨hsize, hheight, hbounded⟩ := ih
    simp only [cons_append, TypedValue.itemsSize, TypedValue.itemsHeight, TypedValue.ItemsBounded]
    exact ⟨by omega, by omega, fun hvalues hvalue => ⟨hvalues.1, hbounded hvalues.2 hvalue⟩⟩

theorem putCollection_within {key : RichKey} (hroot : WithinLimits root)
    (hold : getPath root path = some (.collection es)) (hvalue : value.Bounded)
    (hfits : FitsBelow root path value (es.lookup key))
    (hroom : es.lookup key = none → es.length < maxRichCollectionItems) :
    WithinLimits (writePath root path (.collection (putEntry es key value))) := by
  obtain ⟨hdepth, htotal⟩ := hfits
  have hcollection := TypedValue.bounded_of_select (TypedValue.validate_ok.1 hroot).1 hold
  have hheight := TypedValue.height_of_select hold
  have hlimits := (TypedValue.validate_ok.1 hroot).2
  obtain ⟨hsizes, hheights, hlen, hall⟩ := @TypedValue.putEntry_limits es key value
  refine writePath_within hroot hold ?_ ?_ ?_
  · refine ⟨?_, hall hcollection.2 hvalue⟩
    rw [hlen]
    split
    · next habsent => exact hroom habsent
    · exact hcollection.1
  · simp only [TypedValue.height] at hheight hlimits ⊢
    omega
  · simp only [TypedValue.size] at htotal ⊢
    omega

/-- **A change that fits** keeps the root within the limits. -/
theorem apply_within {change : RootChange} (hroot : WithinLimits root)
    (hbounded : change.OperandsBounded) (hfits : change.Fits root)
    (h : change.apply root = .ok after) : WithinLimits after := by
  cases change with
  | emit key value =>
    refine @setPath_within root after (.root key) value hroot hbounded hfits ?_
    rw [← h]
    rfl
  | set path value => exact setPath_within hroot hbounded hfits h
  | unset path isOptional =>
    simp only [apply, bind_ok, exists_unit, pure_ok] at h
    obtain ⟨⟨stored, found⟩, hremoved, -, rfl⟩ := h
    exact removePath_within hroot hremoved
  | listAppend path value =>
    simp only [apply, bind_ok, exists_unit, reject_ok, pure_ok] at h
    obtain ⟨vs, hvalues, hroom, rfl⟩ := h
    have hold := listAt_ok hvalues
    obtain ⟨hdepth, htotal⟩ := hfits
    have hlist := TypedValue.bounded_of_select (TypedValue.validate_ok.1 hroot).1 hold
    have hheight := TypedValue.height_of_select hold
    have hlimits := (TypedValue.validate_ok.1 hroot).2
    obtain ⟨hsizes, hheights, hall⟩ := @append_limits value vs
    refine writePath_within hroot hold ?_ ?_ ?_
    · refine ⟨?_, hall hlist.2 hbounded⟩
      rw [length_append, length_singleton]
      omega
    · simp only [TypedValue.height] at hheight hlimits ⊢
      omega
    · simp only [TypedValue.size, TypedValue.sizeOfFound] at htotal ⊢
      omega
  | collectionInsert path key value =>
    simp only [apply, bind_ok, exists_unit, reject_ok, pure_ok] at h
    obtain ⟨es, hentries, habsent, hroom, rfl⟩ := h
    have hnone : es.lookup key = none := not_isSome_iff_eq_none.1 habsent
    refine putCollection_within hroot (collectionAt_ok hentries) hbounded ?_ fun _ => by omega
    rw [hnone]
    exact hfits
  | collectionReplace path key value =>
    simp only [apply, bind_ok, exists_unit, reject_ok, pure_ok] at h
    obtain ⟨es, hentries, hpres, rfl⟩ := h
    have hold := collectionAt_ok hentries
    refine putCollection_within hroot hold hbounded ?_ fun hnone => ?_
    · rw [RootChange.Fits, hold] at hfits
      exact hfits
    · rw [hnone] at hpres
      exact absurd rfl hpres
  | collectionRemove path key isOptional =>
    simp only [apply, bind_ok, exists_unit, pure_ok] at h
    obtain ⟨es, hentries, -, rfl⟩ := h
    have hold := collectionAt_ok hentries
    have hcollection := TypedValue.bounded_of_select (TypedValue.validate_ok.1 hroot).1 hold
    have hheight := TypedValue.height_of_select hold
    have hlimits := (TypedValue.validate_ok.1 hroot).2
    obtain ⟨hsizes, hheights, hlen, hall⟩ := @TypedValue.dropEntry_limits key es
    refine writePath_within hroot hold ?_ ?_ ?_
    · exact ⟨hlen.trans hcollection.1, hall hcollection.2⟩
    · simp only [TypedValue.height] at hheight hlimits ⊢
      omega
    · simp only [TypedValue.size] at hlimits ⊢
      omega
  | collectionReplaceAll path vs =>
    simp only [apply, bind_ok, pure_ok] at h
    obtain ⟨es, hentries, rfl⟩ := h
    have hold := collectionAt_ok hentries
    rw [RootChange.Fits, hold] at hfits
    exact writePath_within hroot hold hbounded hfits.1 hfits.2

theorem reached_within {snap : Snapshot} (h : Reached snap)
    (hfits : ∀ step ∈ snap.history, step.change.Fits step.before) :
    WithinLimits snap.root ∧
      ∀ step ∈ snap.history, WithinLimits step.before ∧ WithinLimits step.after := by
  induction h with
  | start => exact ⟨rfl, fun step hstep => absurd hstep not_mem_nil⟩
  | step hbefore hbounded happly htarget hlater ih =>
    obtain ⟨hroot, hsteps⟩ := ih fun step hstep => hfits step (mem_append_left _ hstep)
    have hafter := apply_within hroot hbounded
      (hfits _ (mem_append_right _ mem_cons_self)) happly
    refine ⟨hafter, fun step hstep => ?_⟩
    rcases mem_append.1 hstep with hearlier | hlast
    · exact hsteps step hearlier
    · cases mem_singleton.1 hlast
      exact ⟨hroot, hafter⟩

end Malm.Config
