/-
Malm.Config.ProvenanceTheorems — who assigned a value last
(`malm-config/src/rich_eval.rs`).

A change touches what is at its target or below, and makes nothing else appear. So a
path that is present was assigned by the last change whose target it lies below, and
every other record above the path is of an earlier change.
-/
import Malm.Config.RootLimits

namespace Malm.Config

open Pack Checks List SortedMap Option RootChange Evaluator

/-! ## 1. Entries by key -/

variable {key other : RichKey} {value old : TypedValue} {es : Entries} {below : List RichKey}
  {replacement : TypedValue} {root after : Entries} {segments path : List RichKey}
  {target : RichValuePath} {change : RootChange} {provenance : DocumentProvenance}
  {records : List ProvenanceRecord} {snapshot : Snapshot}

theorem lookup_replaceEntry_ne (h : other ≠ key) :
    ∀ es : Entries, (replaceEntry key value es).lookup other = es.lookup other
  | [] => rfl
  | (first, found) :: rest => by
    rw [replaceEntry]
    by_cases hkey : first = key
    · subst hkey
      rw [if_pos rfl, lookup_cons, lookup_cons, beq_eq_false_iff_ne.2 h]
    · rw [if_neg hkey, lookup_cons, lookup_cons, lookup_replaceEntry_ne h rest]

theorem lookup_replaceEntry_self :
    ∀ {es : Entries}, es.lookup key = some old →
      (replaceEntry key value es).lookup key = some value
  | (first, found) :: rest, h => by
    rw [replaceEntry]
    by_cases hkey : first = key
    · rw [if_pos hkey, lookup_cons, beq_self_eq_true]
    · rw [lookup_cons, beq_eq_false_iff_ne.2 (Ne.symm hkey)] at h
      rw [if_neg hkey, lookup_cons, beq_eq_false_iff_ne.2 (Ne.symm hkey)]
      exact lookup_replaceEntry_self h

theorem lookup_insertEntry_ne (h : other ≠ key) :
    ∀ es : Entries,
      (insertEntry key value es).lookup other = es.lookup other
  | [] => by
    rw [insertEntry, lookup_cons, beq_eq_false_iff_ne.2 h]
  | (first, found) :: rest => by
    rw [insertEntry]
    split
    · rw [lookup_cons, beq_eq_false_iff_ne.2 h]
    · split
      · next hkey =>
        subst hkey
        rw [lookup_cons, lookup_cons, beq_eq_false_iff_ne.2 h]
      · rw [lookup_cons, lookup_cons, lookup_insertEntry_ne h rest]

theorem lookup_putEntry_ne (h : other ≠ key) :
    (putEntry es key value).lookup other = es.lookup other := by
  unfold putEntry
  split
  · exact lookup_replaceEntry_ne h es
  · exact lookup_insertEntry_ne h es

theorem lookup_dropEntry {key : RichKey} (other : RichKey) :
    ∀ es : Entries,
      (dropEntry es key).lookup other = if other = key then none else es.lookup other
  | [] => by simp [dropEntry]
  | (first, found) :: rest => by
    have ih := @lookup_dropEntry key other rest
    unfold dropEntry at *
    by_cases hfirst : first = key
    · subst hfirst
      rw [filter_cons_of_neg (by simp), ih]
      split
      · rfl
      · next hother => rw [lookup_cons, beq_eq_false_iff_ne.2 hother]
    · rw [filter_cons_of_pos (by simp [hfirst]), lookup_cons, lookup_cons, ih]
      by_cases hother : other = first
      · subst hother
        simp [hfirst]
      · rw [beq_eq_false_iff_ne.2 hother]

/-! ## 2. What a change touches -/

theorem select_in {rest : List RichKey} (h : value.children = some es) :
    value.select (key :: rest) = (es.lookup key).bind (TypedValue.select rest) := by
  simp [TypedValue.select, h]

theorem children_withChildren {replaced : Entries} (h : value.children = some es) :
    (value.withChildren replaced).children = some replaced := by
  rcases TypedValue.children_cases h with rfl | rfl <;> rfl

theorem select_replaceAt :
    ∀ {segments : List RichKey} {value old : TypedValue}, value.select segments = some old →
      (value.replaceAt segments replacement).select (segments ++ below) =
        replacement.select below
  | [], value, old, _ => by rw [TypedValue.replaceAt, nil_append]
  | key :: rest, value, old, h => by
    obtain ⟨es, child, hentries, hchild, hrest⟩ := TypedValue.select_cons h
    rw [TypedValue.replaceAt_cons hentries hchild, cons_append,
      select_in (children_withChildren hentries), lookup_replaceEntry_self hchild, bind_some]
    exact select_replaceAt hrest

theorem present_replaceAt :
    ∀ {segments path : List RichKey} {value old : TypedValue}, value.select segments = some old →
      ¬ segments <+: path →
      ((value.replaceAt segments replacement).select path).isSome = (value.select path).isSome
  | [], path, value, old, _, hpath => absurd nil_prefix hpath
  | key :: rest, [], value, old, _, _ => rfl
  | key :: rest, other :: path, value, old, h, hpath => by
    obtain ⟨es, child, hentries, hchild, hrest⟩ := TypedValue.select_cons h
    rw [TypedValue.replaceAt_cons hentries hchild, select_in (children_withChildren hentries),
      select_in hentries]
    by_cases hkey : other = key
    · subst hkey
      rw [lookup_replaceEntry_self hchild, hchild, bind_some, bind_some]
      exact present_replaceAt hrest fun hstart => hpath ((prefix_cons_inj other).2 hstart)
    · rw [lookup_replaceEntry_ne hkey]

/-- A root after a write: the value at some segments was replaced. -/
def PathWrites (root after : Entries) (segments : List RichKey) (old replacement : TypedValue) :
    Prop :=
  (TypedValue.record root).select segments = some old ∧
    TypedValue.record after = (TypedValue.record root).replaceAt segments replacement

def Present (root : Entries) (path : List RichKey) : Prop :=
  ((TypedValue.record root).select path).isSome = true

section

variable (h : PathWrites root after segments old replacement)

include h

theorem PathWrites.present (hpath : ¬ segments <+: path) (hafter : Present after path) :
    Present root path := by
  rw [Present, h.2, present_replaceAt h.1 hpath] at hafter
  exact hafter

theorem PathWrites.select_below :
    (TypedValue.record after).select (segments ++ below) = replacement.select below := by
  rw [h.2]
  exact select_replaceAt h.1

theorem PathWrites.present_of_entry {replaced : Entries} (hold : old.children = some es)
    (hreplaced : replacement.children = some replaced)
    (hsame : ∀ other, other ≠ key → replaced.lookup other = es.lookup other)
    (hpath : ¬ segments ++ [key] <+: path) (hafter : Present after path) : Present root path := by
  by_cases hbelow : segments <+: path
  · obtain ⟨below, rfl⟩ := hbelow
    rw [Present, select_append h.1]
    rw [Present, h.select_below] at hafter
    cases below with
    | nil => rfl
    | cons other rest =>
      rw [select_in hreplaced] at hafter
      rw [select_in hold]
      have hother : other ≠ key := by
        rintro rfl
        refine hpath ((prefix_append_right_inj segments).2 ?_)
        exact (prefix_cons_inj other).2 nil_prefix
      rw [hsame other hother] at hafter
      exact hafter
  · exact h.present hbelow hafter

end

/-! ## 3. Changes -/

/-- The changes that leave a value at their target. -/
def RootChange.Assigns : RootChange → Prop
  | unset _ _ => False
  | collectionRemove _ _ _ => False
  | _ => True

theorem writes_parent {fields stored : Entries} {path : RichValuePath} {last : RichKey}
    {parent : Option RichValuePath} (h : parentOf root path = .ok (parent, fields, last)) :
    PathWrites root (storeParent root parent stored) path.segments.dropLast (.record fields)
      (.record stored) := by
  obtain ⟨-, hselect, hstore⟩ := parentOf_ok h
  exact ⟨hselect, hstore stored⟩

theorem writes_path {path : RichValuePath} (h : getPath root path = some old) :
    PathWrites root (writePath root path replacement) path.segments old replacement :=
  ⟨h, record_writePath h⟩

theorem withSuffix_ok {path : RichValuePath}
    (h : (path.withSuffix key).mapError PatchError.value = .ok target) :
    target.segments = path.segments ++ [key] := by
  rw [mapError_ok, RichValuePath.withSuffix, RichValuePath.new] at h
  split_ifs at h
  cases h
  rfl

theorem setPath_keeps {root after : Entries} {path : RichValuePath} {value : TypedValue}
    (h : setPath root path value = .ok after) {other : List RichKey}
    (hother : ¬ path.segments <+: other) (hafter : Present after other) : Present root other := by
  simp only [setPath, bind_ok, pure_ok] at h
  obtain ⟨⟨parent, fields, last⟩, hparent, rfl⟩ := h
  rw [(parentOf_ok hparent).1] at hother
  exact (writes_parent hparent).present_of_entry rfl rfl
    (fun _ hne => lookup_putEntry_ne hne) hother hafter

/-- **A change touches what is at its target or below.** -/
theorem apply_keeps (h : change.apply root = .ok after) (htarget : change.target = .ok target)
    (hpath : ¬ target.segments <+: path) (hafter : Present after path) : Present root path := by
  cases change with
  | emit key value =>
    cases htarget
    refine @setPath_keeps root after (.root key) value ?_ path hpath hafter
    rw [← h]
    rfl
  | set place value =>
    cases htarget
    exact setPath_keeps h hpath hafter
  | unset place isOptional =>
    cases htarget
    simp only [apply, removePath, bind_ok, exists_unit, pure_ok] at h
    obtain ⟨removed, ⟨⟨parent, fields, last⟩, hparent, rfl⟩, -, rfl⟩ := h
    rw [(parentOf_ok hparent).1] at hpath
    exact (writes_parent hparent).present_of_entry rfl rfl
      (fun other hne => by rw [lookup_dropEntry, if_neg hne]) hpath hafter
  | listAppend place value =>
    cases htarget
    simp only [apply, bind_ok, exists_unit, pure_ok] at h
    obtain ⟨vs, hvalues, -, rfl⟩ := h
    exact (writes_path (listAt_ok hvalues)).present hpath hafter
  | collectionInsert place key value =>
    rw [withSuffix_ok htarget] at hpath
    simp only [apply, bind_ok, exists_unit, pure_ok] at h
    obtain ⟨es, hentries, -, -, rfl⟩ := h
    exact (writes_path (collectionAt_ok hentries)).present_of_entry rfl rfl
      (fun _ hne => lookup_putEntry_ne hne) hpath hafter
  | collectionReplace place key value =>
    rw [withSuffix_ok htarget] at hpath
    simp only [apply, bind_ok, exists_unit, pure_ok] at h
    obtain ⟨es, hentries, -, rfl⟩ := h
    exact (writes_path (collectionAt_ok hentries)).present_of_entry rfl rfl
      (fun _ hne => lookup_putEntry_ne hne) hpath hafter
  | collectionRemove place key isOptional =>
    rw [withSuffix_ok htarget] at hpath
    simp only [apply, bind_ok, exists_unit, pure_ok] at h
    obtain ⟨es, hentries, -, rfl⟩ := h
    exact (writes_path (collectionAt_ok hentries)).present_of_entry rfl rfl
      (fun other hne => by rw [lookup_dropEntry, if_neg hne]) hpath hafter
  | collectionReplaceAll place vs =>
    cases htarget
    simp only [apply, bind_ok, pure_ok] at h
    obtain ⟨es, hentries, rfl⟩ := h
    exact (writes_path (collectionAt_ok hentries)).present hpath hafter

theorem absent_of_dropped {fields : Entries} (h : PathWrites root after segments old replacement)
    (hreplacement : replacement.children = some (dropEntry fields key)) :
    ¬ Present after (segments ++ [key] ++ below) := by
  rw [Present, append_assoc, h.select_below, singleton_append, select_in hreplacement,
    lookup_dropEntry, if_pos rfl]
  simp

theorem removal_absent (h : change.apply root = .ok after) (htarget : change.target = .ok target)
    (hrem : ¬ change.Assigns) (hpath : target.segments <+: path) : ¬ Present after path := by
  obtain ⟨below, rfl⟩ := hpath
  cases change with
  | unset place isOptional =>
    cases htarget
    simp only [apply, removePath, bind_ok, exists_unit, pure_ok] at h
    obtain ⟨removed, ⟨⟨parent, fields, last⟩, hparent, rfl⟩, -, rfl⟩ := h
    rw [(parentOf_ok hparent).1]
    exact absent_of_dropped (writes_parent hparent) rfl
  | collectionRemove place key isOptional =>
    rw [withSuffix_ok htarget]
    simp only [apply, bind_ok, exists_unit, pure_ok] at h
    obtain ⟨es, hentries, -, rfl⟩ := h
    exact absent_of_dropped (writes_path (collectionAt_ok hentries)) rfl
  | _ => exact absurd trivial hrem

/-! ## 4. Records -/

theorem get?_addRecord {path other : RichValuePath} {rec : ProvenanceRecord} :
    (addRecord provenance path rec).get? other =
      if other = path then some ((provenance.get? path).getD [] ++ [rec])
      else provenance.get? other := by
  rw [addRecord, SortedMap.get?_insert]
  by_cases h : other = path <;> simp [h]

theorem get?_dropBelow_of_not_below {path : RichValuePath}
    (h : ¬ target.segments <+: path.segments) :
    (dropBelow change target provenance).get? path = provenance.get? path := by
  unfold dropBelow
  split
  · rw [SortedMap.get?_filterKeys, if_pos]
    have hstart : target.segments.isPrefixOf path.segments = false :=
      Bool.eq_false_iff.2 fun htrue => h (List.isPrefixOf_iff_prefix.1 htrue)
    simp [pathIsStrictPrefix, hstart]
  · rfl

theorem get?_dropBelow {path : RichValuePath}
    (h : (dropBelow change target provenance).get? path = some records) :
    provenance.get? path = some records := by
  unfold dropBelow at h
  split at h
  · rw [SortedMap.get?_filterKeys] at h
    split at h
    · exact h
    · cases h
  · exact h

/-- The records of the changes that had a path for their target, in their order. -/
def recordsOf (history : List RootStep) (path : RichValuePath) : List ProvenanceRecord :=
  (history.filter fun step => step.target = path).map RootStep.record

theorem recordsOf_append (history : List RootStep) (step : RootStep) (path : RichValuePath) :
    recordsOf (history ++ [step]) path =
      recordsOf history path ++ if step.target = path then [step.record] else [] := by
  unfold recordsOf
  rw [filter_append, map_append]
  by_cases h : step.target = path <;> simp [h]

theorem reached_records (h : Reached snapshot) {path : RichValuePath}
    (hrecords : snapshot.provenance.get? path = some records) :
    records.Sublist (recordsOf snapshot.history path) := by
  induction h generalizing path records with
  | start => cases hrecords
  | @step before change after target rec hbefore hbound happly htarget hlater ih =>
    rw [Snapshot.step, get?_addRecord] at hrecords
    rw [Snapshot.step, recordsOf_append]
    split at hrecords
    · next hpath =>
      subst hpath
      cases hrecords
      rw [if_pos rfl]
      refine List.Sublist.append ?_ (List.Sublist.refl _)
      cases hdrop : (dropBelow change path before.provenance).get? path with
      | none => exact nil_sublist _
      | some kept => exact ih (get?_dropBelow hdrop)
    · next hpath =>
      rw [if_neg (Ne.symm hpath), append_nil]
      exact ih (get?_dropBelow hrecords)

theorem reached_sequences (h : Reached snapshot) :
    snapshot.history.Pairwise fun earlier later =>
      earlier.record.sequence < later.record.sequence := by
  induction h with
  | start => exact .nil
  | step _ _ _ _ hlater ih =>
    refine pairwise_append.2 ⟨ih, pairwise_singleton _ _, fun earlier hearlier last hlast => ?_⟩
    cases mem_singleton.1 hlast
    exact hlater earlier hearlier

/-! ## 5. The last writer -/

/-- The last step at or above a path, which assigned there, and whose record is kept. -/
structure LastWriter (snapshot : Snapshot) (path : List RichKey) (step : RootStep)
    (later : List RootStep) : Prop where
  split : ∃ earlier, snapshot.history = earlier ++ step :: later
  assigns : step.change.Assigns
  above : step.target.segments <+: path
  last : ∀ other ∈ later, ¬ other.target.segments <+: path
  kept : ∃ records, snapshot.provenance.get? step.target = some records ∧ step.record ∈ records

theorem LastWriter.mem {step : RootStep} {later : List RootStep}
    (h : LastWriter snapshot path step later) : step ∈ snapshot.history := by
  obtain ⟨earlier, hsplit⟩ := h.split
  rw [hsplit]
  exact mem_append_right earlier mem_cons_self

/-- Every present path has a last writer: the change, or the one from before. -/
theorem reached_last_writer (h : Reached snapshot) (hpath : path ≠ [])
    (hpres : Present snapshot.root path) :
    ∃ step later, LastWriter snapshot path step later := by
  induction h with
  | start =>
    cases path with
    | nil => exact absurd rfl hpath
    | cons key rest => cases hpres
  | @step before change after target rec hbefore hbound happly htarget hlater ih =>
    by_cases habove : target.segments <+: path
    · have hassigns : change.Assigns := by
        by_contra hrem
        exact removal_absent happly htarget hrem habove hpres
      refine ⟨⟨before.root, change, after, target, rec⟩, [], ⟨before.history, rfl⟩, hassigns,
        habove, by simp, ?_⟩
      let records := ((dropBelow change target before.provenance).get? target).getD []
      refine ⟨records ++ [rec], ?_, mem_append_right records mem_cons_self⟩
      rw [Snapshot.step, get?_addRecord, if_pos rfl]
    · obtain ⟨step, later, hwriter⟩ := ih (apply_keeps happly htarget habove hpres)
      obtain ⟨earlier, hsplit⟩ := hwriter.split
      obtain ⟨records, hrecords, hmem⟩ := hwriter.kept
      have hkept : ¬ target.segments <+: step.target.segments := fun hstart =>
        habove (hstart.trans hwriter.above)
      refine ⟨step, later ++ [⟨before.root, change, after, target, rec⟩], ⟨earlier, ?_⟩,
        hwriter.assigns, hwriter.above, fun other hother => ?_, ?_⟩
      · rw [Snapshot.step, hsplit]
        simp
      · rcases mem_append.1 hother with hbetween | hlast
        · exact hwriter.last other hbetween
        · cases mem_singleton.1 hlast
          exact habove
      · refine ⟨records, ?_, hmem⟩
        rw [Snapshot.step, get?_addRecord, if_neg, get?_dropBelow_of_not_below hkept, hrecords]
        intro htargets
        exact hkept (htargets ▸ prefix_rfl)

/-- The last writer's record has the greatest sequence number at or above a path. -/
theorem LastWriter.greatest (h : Reached snapshot) {step : RootStep} {later : List RootStep}
    (hwriter : LastWriter snapshot path step later) {ancestor : RichValuePath}
    {rec : ProvenanceRecord} (hrecords : snapshot.provenance.get? ancestor = some records)
    (hmem : rec ∈ records) (habove : ancestor.segments <+: path) :
    rec.sequence ≤ step.record.sequence := by
  have hof := (reached_records h hrecords).subset hmem
  obtain ⟨other, hother, rfl⟩ := List.mem_map.1 hof
  obtain ⟨hhistory, htarget⟩ := mem_filter.1 hother
  have hsame : other.target = ancestor := by simpa using htarget
  obtain ⟨earlier, hsplit⟩ := hwriter.split
  have hsequences := reached_sequences h
  rw [hsplit] at hhistory hsequences
  rcases mem_append.1 hhistory with hbefore | hrest
  · exact UInt64.le_of_lt
      ((pairwise_append.1 hsequences).2.2 other hbefore step mem_cons_self)
  · rcases mem_cons.1 hrest with rfl | hafter
    · exact UInt64.le_refl _
    · exact absurd (hsame ▸ habove) (hwriter.last other hafter)

theorem reached_unique (h : Reached snapshot) {first second : RootStep}
    (hfirst : first ∈ snapshot.history) (hsecond : second ∈ snapshot.history)
    (hsame : first.record.sequence = second.record.sequence) : first = second := by
  have hnodup : (snapshot.history.map fun step => step.record.sequence).Nodup :=
    pairwise_map.2 ((reached_sequences h).imp fun hlt => UInt64.ne_of_lt hlt)
  exact inj_on_of_nodup_map hnodup hfirst hsecond hsame

end Malm.Config
