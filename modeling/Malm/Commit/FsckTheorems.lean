/-
Malm.Commit.FsckTheorems — what the steps of a check leave behind.

Every step of the scan has one lemma: in a scan that ends without an error, what the step
returned and which findings it appended.
-/
import Malm.Commit.FsckAuthority
import Malm.Commit.PruneTheorems

namespace Malm.Commit

open Store Checks Scan List Scan.Emits SortedMap FsckAuthorityRoots

variable {codec : ObjectCodec} {machine : Machine} {store : ObjectStore}

variable {change : FsckScan → FsckScan} {root : Root} {roots : FsckAuthorityRoots}
  {states : List StateTargetState}

/-! ## 1. Findings -/

/-- A scan has failed when it has an error finding; a limit is only noted with
one. -/
def fsckLedger : Scan.Ledger FsckScan FsckFinding where
  findings := FsckScan.findings
  failed scan := ∃ finding ∈ scan.findings, finding.severity = .error
  sound scan := (scan.traversalLimitReported ∨ scan.decodedByteLimitReported ∨
    scan.findingsTruncated) → ∃ finding ∈ scan.findings, finding.severity = .error

/-- What a step of the scan does when the scan ends without an error. -/
abbrev Emits {α : Type} (step : FsckM α) (post : α → List FsckFinding → Prop) : Prop :=
  Scan.Emits fsckLedger step post

theorem finding_cases (scan : FsckScan) (finding : FsckFinding) :
    scan.finding finding = { scan with findings := scan.findings ++ [finding] } ∨
      scan.finding finding = scan ∧ scan.findingsTruncated = true ∨
      fsckLedger.failed (scan.finding finding) := by
  unfold FsckScan.finding
  split
  · exact .inl rfl
  · split
    · rename_i htruncated
      exact .inr (.inl ⟨rfl, htruncated⟩)
    · refine .inr (.inr ⟨_, mem_append_right _ mem_cons_self, rfl⟩)

theorem finding_sound {scan : FsckScan} (hsound : fsckLedger.sound scan) (finding : FsckFinding) :
    fsckLedger.sound (scan.finding finding) := by
  rcases finding_cases scan finding with hsame | ⟨hsame, -⟩ | hfailed
  · rw [hsame]
    intro hnoted
    obtain ⟨known, hknown, herror⟩ := hsound hnoted
    exact ⟨known, mem_append_left _ hknown, herror⟩
  · rw [hsame]
    exact hsound
  · exact fun _ => hfailed

theorem finding_clean {scan : FsckScan} (hsound : fsckLedger.sound scan) {finding : FsckFinding}
    (hclean : ¬ fsckLedger.failed (scan.finding finding)) :
    Scan.Outcome fsckLedger scan (scan.finding finding) [finding] ∧
      finding.severity ≠ .error := by
  rcases finding_cases scan finding with hsame | ⟨hsame, htruncated⟩ | hfailed
  · rw [hsame] at hclean ⊢
    refine ⟨⟨?_, rfl⟩, ?_⟩
    · rintro ⟨known, hknown, herror⟩
      exact hclean ⟨known, mem_append_left _ hknown, herror⟩
    · intro herror
      exact hclean ⟨finding, mem_append_right _ mem_cons_self, herror⟩
  · rw [hsame] at hclean
    exact absurd (hsound (.inr (.inr htruncated))) hclean
  · exact absurd hfailed hclean

theorem fsckError_emits (code : FsckFindingCode) (subj : FsckSubject) (detail : String) :
    Emits (fsckError code subj detail) fun _ _ => False := by
  refine ⟨?_, ?_⟩
  · intro scan hsound
    exact @finding_sound { scan with complete := false } hsound _
  · intro scan hsound hclean
    exact absurd rfl (@finding_clean { scan with complete := false } hsound _ hclean).2

theorem fsckWarning_emits (code : FsckFindingCode) (subj : FsckSubject) (detail : String) :
    Emits (fsckWarning code subj detail) fun _ emitted =>
      emitted = [⟨code, .warning, subj, detail⟩] := by
  refine ⟨?_, ?_⟩
  · intro scan hsound
    exact finding_sound hsound _
  · intro scan hsound hclean
    exact ⟨_, (finding_clean hsound hclean).1, rfl⟩

theorem finding_fails {scan : FsckScan}
    (htruncated : scan.findingsTruncated = true → fsckLedger.failed scan) {finding : FsckFinding}
    (herror : finding.severity = .error) : fsckLedger.failed (scan.finding finding) := by
  rcases finding_cases scan finding with hsame | ⟨hsame, hnoted⟩ | hfailed
  · rw [hsame]
    exact ⟨finding, mem_append_right _ mem_cons_self, herror⟩
  · rw [hsame]
    exact htruncated hnoted
  · exact hfailed

theorem noteError_emits {note : FsckScan → FsckScan}
    (hfindings : ∀ scan, (note scan).findings = scan.findings)
    (htruncated : ∀ scan, (note scan).findingsTruncated = scan.findingsTruncated)
    (code : FsckFindingCode) (subj : FsckSubject) (detail : String) :
    Emits (modify note >>= fun _ => fsckError code subj detail) fun _ _ => False := by
  have hfails : ∀ scan, fsckLedger.sound scan → fsckLedger.failed
      ((modify note >>= fun _ => fsckError code subj detail : FsckM Unit).run scan).2 := by
    intro scan hsound
    refine @finding_fails { note scan with complete := false } ?_ ⟨code, .error, subj, detail⟩ rfl
    show (note scan).findingsTruncated = true → ∃ finding ∈ (note scan).findings, _
    rw [htruncated, hfindings]
    exact fun hnoted => hsound (.inr (.inr hnoted))
  refine ⟨fun scan hsound _ => hfails scan hsound, ?_⟩
  intro scan hsound hclean
  exact absurd (hfails scan hsound) hclean

theorem get_emits : Emits get fun scan emitted =>
    scan.traversalLimitReported = false ∧ scan.decodedByteLimitReported = false ∧
      emitted = [] := by
  refine ⟨fun _ h => h, ?_⟩
  intro scan hsound hclean
  refine ⟨[], ⟨hclean, (append_nil _).symm⟩, ?_, ?_, rfl⟩
  · rw [← Bool.not_eq_true]
    exact fun hnoted => hclean (hsound (.inl hnoted))
  · rw [← Bool.not_eq_true]
    exact fun hnoted => hclean (hsound (.inr (.inl hnoted)))

theorem counters_emits (hfindings : ∀ scan, (change scan).findings = scan.findings)
    (htraversal : ∀ scan, (change scan).traversalLimitReported = scan.traversalLimitReported)
    (hdecoded : ∀ scan, (change scan).decodedByteLimitReported = scan.decodedByteLimitReported)
    (htruncated : ∀ scan, (change scan).findingsTruncated = scan.findingsTruncated) :
    Emits (modify change) fun _ emitted => emitted = [] := by
  refine emits_modify hfindings ?_ ?_
  · intro scan
    show (∃ finding ∈ (change scan).findings, _) ↔ ∃ finding ∈ scan.findings, _
    rw [hfindings]
  · intro scan hsound hnoted
    rw [htraversal, hdecoded, htruncated] at hnoted
    rw [hfindings]
    exact hsound hnoted

/-! ## 2. Budgets -/

theorem reportTraversalLimit_emits (subj : FsckSubject) (detail : String) :
    Emits (reportTraversalLimit subj detail) fun _ _ => False := by
  refine mono (bind get_emits fun scan => ite (emits_pure ())
    (@noteError_emits (fun scan => { scan with traversalLimitReported := true }) (fun _ => rfl)
      (fun _ => rfl) _ _ _)) ?_
  rintro - - ⟨scan, -, -, ⟨hfalse, -, -⟩, ⟨hnoted, -⟩ | ⟨-, hfalse'⟩, -⟩
  · rw [hfalse] at hnoted
    cases hnoted
  · exact hfalse'

theorem reportDecodedByteLimit_emits (subj : FsckSubject) (detail : String) :
    Emits (reportDecodedByteLimit subj detail) fun _ _ => False := by
  refine mono (bind get_emits fun scan => ite (emits_pure ())
    (@noteError_emits (fun scan => { scan with decodedByteLimitReported := true }) (fun _ => rfl)
      (fun _ => rfl) _ _ _)) ?_
  rintro - - ⟨scan, -, -, ⟨-, hfalse, -⟩, ⟨hnoted, -⟩ | ⟨-, hfalse'⟩, -⟩
  · rw [hfalse] at hnoted
    cases hnoted
  · exact hfalse'

variable {α β : Type} {next : α → FsckM β} {c : Prop} {inst : Decidable c}

theorem limited_emits {c : FsckScan → Prop} {inst : ∀ scan, Decidable (c scan)}
    {exceeded : FsckScan → FsckM α} {value : α}
    (hexceeded : ∀ scan, Emits (exceeded scan) fun _ _ => False)
    (hchange : Emits (modify change) fun _ emitted => emitted = []) :
    Emits (do
      let scan ← get
      if c scan then exceeded scan else do
        modify change
        pure value) fun r emitted => r = value ∧ emitted = [] := by
  refine mono (bind get_emits fun scan => ite (hexceeded scan)
    (bind hchange fun _ => emits_pure value)) ?_
  rintro r emitted ⟨scan, begun, rest, ⟨-, -, rfl⟩, hrest, rfl⟩
  rcases hrest with ⟨-, hfalse⟩ | ⟨-, -, -, -, rfl, ⟨rfl, rfl⟩, rfl⟩
  · exact hfalse.elim
  · exact ⟨rfl, rfl⟩

theorem never_emits {report : FsckM α} {post : α → β → List FsckFinding → Prop}
    (hreport : Emits report fun _ _ => False) (hnext : ∀ value, Emits (next value) (post value)) :
    Emits (report >>= next) fun _ _ => False := by
  refine mono (bind hreport hnext) ?_
  rintro - - ⟨-, -, -, hfalse, -⟩
  exact hfalse

theorem chargeObject_emits (subj : FsckSubject) :
    Emits (chargeObject subj) fun charged emitted => charged = true ∧ emitted = [] :=
  limited_emits
    (fun _ => never_emits (reportTraversalLimit_emits _ _) fun _ => emits_pure false)
    (counters_emits (fun _ => rfl) (fun _ => rfl) (fun _ => rfl) fun _ => rfl)

theorem chargeBytes_emits (bytes : Nat) (subj : FsckSubject) :
    Emits (chargeBytes bytes subj) fun charged emitted => charged = true ∧ emitted = [] :=
  limited_emits
    (fun _ => never_emits (reportDecodedByteLimit_emits _ _) fun _ => emits_pure false)
    (counters_emits (fun _ => rfl) (fun _ => rfl) (fun _ => rfl) fun _ => rfl)

theorem directoryEntries_emits (area : FsckStoreArea) (names : List α) :
    Emits (directoryEntries area names) fun r emitted => r = names ∧ emitted = [] := by
  refine mono (bind get_emits fun scan => ite
    (bind (counters_emits (fun _ => rfl) (fun _ => rfl) (fun _ => rfl) fun _ => rfl)
      fun _ => bind (reportTraversalLimit_emits _ _) fun _ => emits_pure _)
    (bind (counters_emits (fun _ => rfl) (fun _ => rfl) (fun _ => rfl) fun _ => rfl)
      fun _ => emits_pure names)) ?_
  rintro r emitted ⟨scan, begun, rest, ⟨-, -, rfl⟩, hrest, rfl⟩
  rcases hrest with ⟨-, -, -, -, -, ⟨-, -, -, hfalse, -⟩, -⟩ |
    ⟨-, -, -, -, rfl, ⟨rfl, rfl⟩, rfl⟩
  · exact hfalse.elim
  · exact ⟨rfl, rfl⟩

theorem check_emits (code : FsckFindingCode) (subj : FsckSubject) (detail : String) :
    Emits (if c then pure () else fsckError code subj detail) fun _ emitted =>
      c ∧ emitted = [] := by
  refine mono (ite (emits_pure ()) (fsckError_emits _ _ _)) ?_
  rintro - emitted (⟨hc, -, rfl⟩ | ⟨-, hfalse⟩)
  · exact ⟨hc, rfl⟩
  · exact hfalse.elim

theorem reject_emits (code : FsckFindingCode) (subj : FsckSubject) (detail : String) :
    Emits (if c then fsckError code subj detail else pure ()) fun _ emitted =>
      ¬ c ∧ emitted = [] := by
  refine mono (ite (fsckError_emits _ _ _) (emits_pure ())) ?_
  rintro - emitted (⟨-, hfalse⟩ | ⟨hc, -, rfl⟩)
  · exact hfalse.elim
  · exact ⟨hc, rfl⟩

theorem charged_emits {charge : FsckM Bool} {skip next : FsckM α}
    {skipped post : α → List FsckFinding → Prop}
    (hcharge : Emits charge fun charged emitted => charged = true ∧ emitted = [])
    (hskip : Emits skip skipped) (hnext : Emits next post) :
    Emits (charge >>= fun charged => if charged = false then skip else next) post := by
  refine mono (bind hcharge fun _ => ite hskip hnext) ?_
  rintro r emitted ⟨charged, begun, rest, ⟨rfl, rfl⟩, hrest, rfl⟩
  rcases hrest with ⟨hfalse, -⟩ | ⟨-, hpost⟩
  · cases hfalse
  · exact hpost

theorem unless_emits {failing next : FsckM α} {post : α → List FsckFinding → Prop}
    (hfailing : Emits failing fun _ _ => False) (hnext : Emits next post) :
    Emits (if c then failing else next) post := by
  refine mono (ite hfailing hnext) ?_
  rintro r emitted (⟨-, hfalse⟩ | ⟨-, hpost⟩)
  · exact hfalse.elim
  · exact hpost

section

variable {step : FsckM α} {first : α → Prop}
  (hstep : Emits step fun value emitted => first value ∧ emitted = [])
include hstep

theorem quiet_bind {snd : α → β → List FsckFinding → Prop}
    (hnext : ∀ value, Emits (next value) (snd value)) :
    Emits (step >>= next) fun r emitted => ∃ value, first value ∧ snd value r emitted := by
  refine mono (bind hstep hnext) ?_
  rintro r emitted ⟨value, begun, rest, ⟨hfirst, rfl⟩, hsecond, rfl⟩
  exact ⟨value, hfirst, hsecond⟩

theorem silent_bind {snd : α → β → Prop}
    (hnext : ∀ value, Emits (next value) fun r emitted => snd value r ∧ emitted = []) :
    Emits (step >>= next) fun r emitted =>
      (∃ value, first value ∧ snd value r) ∧ emitted = [] := by
  refine (quiet_bind hstep hnext).mono ?_
  rintro r emitted ⟨value, hfirst, hsecond, rfl⟩
  exact ⟨⟨value, hfirst, hsecond⟩, rfl⟩

end

/-! ## 3. The layout -/

theorem inspectDirectoryShape_emits (area : FsckStoreArea) (allowed names : List Text) :
    Emits (inspectDirectoryShape area allowed names) fun _ emitted => True ∧ emitted = [] := by
  refine mono (silent_bind (directoryEntries_emits area names) fun es =>
    emits_checks (fun name => check_emits _ _ _) es) ?_
  rintro - emitted ⟨-, rfl⟩
  exact ⟨trivial, rfl⟩

theorem inspectStoreShape_emits (layout : StoreLayout) :
    Emits (inspectStoreShape layout) fun _ emitted => True ∧ emitted = [] := by
  refine mono (silent_bind (inspectDirectoryShape_emits _ _ _) fun _ =>
    silent_bind (emits_checks (fun _ => inspectDirectoryShape_emits _ _ _) _) fun _ =>
      silent_bind (emits_checks (fun _ => inspectDirectoryShape_emits _ _ _) _) fun _ =>
        emits_checks (fun _ => inspectDirectoryShape_emits _ _ _) _) ?_
  rintro - emitted ⟨-, rfl⟩
  exact ⟨trivial, rfl⟩

/-! ## 4. Loaded areas -/

def FsckArea.Decodes {κ α β : Type} (area : FsckArea κ α β) (key : κ) (file : StoreFile α)
    (value : β) : Prop :=
  ∃ bytes, file = ⟨true, true, true, bytes⟩ ∧ area.sizeOf bytes ≤ area.limit ∧
    area.decode key bytes = .ok value

theorem readImmutableEntry_emits {sizeOf : α → Nat} {limit : Nat} (code : FsckFindingCode)
    (subj : FsckSubject) (file : StoreFile α) :
    Emits (readImmutableEntry sizeOf limit code subj file) fun found emitted =>
      readImmutable sizeOf limit (some file) = .ok found ∧ emitted = [] := by
  refine unless_emits (never_emits (fsckError_emits _ _ _) fun _ => emits_pure none)
    (charged_emits (chargeBytes_emits _ _) (emits_pure none) ?_)
  cases readImmutable sizeOf limit (some file) with
  | ok found =>
    refine (emits_pure found).mono ?_
    rintro r emitted ⟨rfl, rfl⟩
    exact ⟨rfl, rfl⟩
  | error reason =>
    refine (never_emits (fsckError_emits _ _ _) fun _ => emits_pure none).mono ?_
    rintro - - hfalse
    exact hfalse.elim

section Area

variable {κ α β : Type} [LinearOrder κ] {area : FsckArea κ α β}

theorem decodeEntry_emits (loaded : SortedMap κ β) (key : κ) (found : Option α) :
    Emits (decodeEntry area loaded key found) fun r emitted =>
      (∀ bytes, found = some bytes →
        ∃ value, area.decode key bytes = .ok value ∧ r = loaded.insert key value) ∧
        emitted = [] := by
  unfold decodeEntry
  cases found with
  | none =>
    refine (emits_pure loaded).mono ?_
    rintro r emitted ⟨-, rfl⟩
    refine ⟨?_, rfl⟩
    intro bytes hnone
    cases hnone
  | some bytes =>
    dsimp only
    cases hdecode : area.decode key bytes with
    | ok value =>
      refine (emits_pure _).mono ?_
      rintro r emitted ⟨rfl, rfl⟩
      refine ⟨?_, rfl⟩
      intro other hother
      cases hother
      exact ⟨value, hdecode, rfl⟩
    | error detail =>
      refine (never_emits (fsckError_emits _ _ _) fun _ => emits_pure loaded).mono ?_
      rintro - - hfalse
      exact hfalse.elim

theorem readImmutable_some {sizeOf : α → Nat} {limit : Nat} {file : StoreFile α}
    {found : Option α} (h : readImmutable sizeOf limit (some file) = .ok found) :
    ∃ bytes, found = some bytes ∧ file = ⟨true, true, true, bytes⟩ ∧ sizeOf bytes ≤ limit := by
  cases found with
  | none =>
    unfold readImmutable at h
    dsimp only at h
    split at h <;> cases h
  | some bytes =>
    obtain ⟨hfile, hsize⟩ := readImmutable_ok h
    exact ⟨bytes, rfl, Option.some.inj hfile, hsize⟩

theorem loadEntryOf_emits (loaded : SortedMap κ β) (e : κ × StoreFile α) :
    Emits (loadEntryOf area loaded e) fun r emitted =>
      (∃ value, area.Decodes e.1 e.2 value ∧ r = loaded.insert e.1 value) ∧
        emitted = [] := by
  refine charged_emits (chargeObject_emits _) (emits_pure loaded)
    (mono (bind
      (counters_emits (fun _ => rfl) (fun _ => rfl) (fun _ => rfl) fun _ => rfl) fun _ =>
        silent_bind (readImmutableEntry_emits _ _ _) fun found =>
          decodeEntry_emits loaded e.1 found) ?_)
  rintro r - ⟨-, -, -, rfl, ⟨⟨found, hread, hdecoded⟩, rfl⟩, rfl⟩
  obtain ⟨bytes, rfl, hfile, hsize⟩ := readImmutable_some hread
  obtain ⟨value, hvalue, rfl⟩ := hdecoded bytes rfl
  exact ⟨⟨value, ⟨bytes, hfile, hsize, hvalue⟩, rfl⟩, rfl⟩

/-- What the loop has loaded: the values of some entries, and nothing new elsewhere. -/
def LoadedSoFar (area : FsckArea κ α β) (loaded : SortedMap κ β) (done : List (κ × StoreFile α))
    (result : SortedMap κ β) : Prop :=
  (done.map Prod.fst).Nodup →
    (∀ entry ∈ done, ∃ value, area.Decodes entry.1 entry.2 value ∧
      result.get? entry.1 = some value) ∧
    ∀ key, key ∉ done.map Prod.fst → result.get? key = loaded.get? key

theorem LoadedSoFar.snoc {loaded r : SortedMap κ β} {done : List (κ × StoreFile α)}
    {e : κ × StoreFile α} {value : β} (h : LoadedSoFar area loaded done r)
    (hdecodes : area.Decodes e.1 e.2 value) :
    LoadedSoFar area loaded (done ++ [e]) (r.insert e.1 value) := by
  intro hnodup
  rw [map_append, nodup_append] at hnodup
  obtain ⟨hdone, -, hdisjoint⟩ := hnodup
  have hfresh : ∀ other ∈ done, other.1 ≠ e.1 := by
    intro other hother
    exact hdisjoint other.1 (mem_map_of_mem hother) e.1 mem_cons_self
  obtain ⟨hall, hkeep⟩ := h hdone
  refine ⟨?_, ?_⟩
  · intro other hother
    rcases mem_append.1 hother with hother | hother
    · obtain ⟨known, hknown, hget⟩ := hall other hother
      refine ⟨known, hknown, ?_⟩
      rw [get?_insert, if_neg (hfresh other hother)]
      exact hget
    · rw [mem_singleton.1 hother]
      refine ⟨value, hdecodes, ?_⟩
      rw [get?_insert, if_pos rfl]
  · intro key hkey
    rw [map_append, mem_append, not_or] at hkey
    rw [get?_insert, if_neg ?_]
    · exact hkeep key hkey.1
    · rintro rfl
      exact hkey.2 mem_cons_self

theorem loadEntriesOf_emits (loaded : SortedMap κ β) (es : List (κ × StoreFile α)) :
    Emits (es.foldlM (loadEntryOf area) loaded) fun r emitted =>
      LoadedSoFar area loaded es r ∧ emitted = [] := by
  refine mono (emits_foldlM (fun value e => loadEntryOf_emits value e)
    (fun done r emitted => LoadedSoFar area loaded done r ∧ emitted = []) ?_ es
    loaded) ?_
  · rintro done value emitted e next more ⟨hdone, rfl⟩ ⟨⟨found, hdecodes, rfl⟩, rfl⟩
    exact ⟨hdone.snoc hdecodes, rfl⟩
  · intro r emitted hloop
    refine hloop [] [] ⟨?_, rfl⟩
    intro _
    refine ⟨?_, fun _ _ => rfl⟩
    intro e hentry
    cases hentry

omit [LinearOrder κ] in
theorem FsckArea.Decodes.unique {key : κ} {file : StoreFile α} {first second : β}
    (hfirst : area.Decodes key file first) (hsecond : area.Decodes key file second) :
    first = second := by
  obtain ⟨bytes, rfl, -, hvalue⟩ := hfirst
  obtain ⟨other, hsame, -, hother⟩ := hsecond
  cases hsame
  rw [hvalue] at hother
  exact Except.ok.inj hother

/-- **A loaded area** holds the value of every file, on top of what was loaded before. -/
theorem loadAreaOf_emits (files : SortedMap κ (StoreFile α)) (loaded : SortedMap κ β) :
    Emits (loadAreaOf area files loaded) fun r emitted =>
      ((∀ key file, files.get? key = some file →
          ∃ value, area.Decodes key file value ∧ r.get? key = some value) ∧
        ∀ key, files.get? key = none → r.get? key = loaded.get? key) ∧ emitted = [] := by
  refine mono (silent_bind (directoryEntries_emits area.area files.entries)
    fun es => loadEntriesOf_emits loaded es) ?_
  rintro r emitted ⟨⟨es, rfl, hloaded⟩, rfl⟩
  obtain ⟨hall, hkeep⟩ := hloaded files.nodup_keys
  refine ⟨⟨?_, ?_⟩, rfl⟩
  · intro key file hget
    exact hall (key, file) (get?_eq_some.1 hget)
  · intro key hnone
    exact hkeep key (get?_eq_none.1 hnone)

theorem loadAreaOf_empty (files : SortedMap κ (StoreFile α)) :
    Emits (loadAreaOf area files .empty) fun r emitted =>
      SortedMap.DerivedFrom files area.Decodes r ∧ emitted = [] := by
  refine (loadAreaOf_emits files .empty).mono ?_
  rintro r emitted ⟨⟨hall, hkeep⟩, rfl⟩
  exact ⟨⟨hall, hkeep⟩, rfl⟩

end Area

/-! ## 5. The loaded world -/

theorem decodeOr_ok {ε : Type} {r : Except ε β} {detail : String} {value : β} :
    decodeOr r detail = .ok value ↔ r = .ok value :=
  mapError_ok

def GenerationsFrom (codec : ObjectCodec) (store : ObjectStore)
    (generations : SortedMap Digest StateGeneration) : Prop :=
  ∀ digest gen, generations.get? digest = some gen ↔
    loadGeneration codec store digest = .ok gen

/-- What a clean scan has loaded of a store. -/
structure WorldFrom (codec : ObjectCodec) (state : StoreState) (world : FsckWorld) : Prop where
  catalog : world.catalog = some state.catalog
  plans : ∀ planId record, world.prepared.get? planId = some record ↔
    loadPrepared codec state.objects planId = .ok record
  planKeys : ∀ planId, planId ∈ world.prepared.keys ↔ planId ∈ state.objects.prepared.keys
  generations : ∀ digest gen, world.generations.get? digest = some gen ↔
    loadGeneration codec state.objects digest = .ok gen
  generationKeys : ∀ digest,
    digest ∈ world.generations.keys ↔ digest ∈ state.objects.generations.keys
  blobKeys : ∀ digest, digest ∈ world.blobs.keys ↔ digest ∈ state.objects.blobs.keys
  packKeys : ∀ digest, digest ∈ world.packs.keys ↔
    digest ∈ state.objects.packs.keys ∨ digest ∈ state.objects.packManifests.keys
  members : ∀ digest, ∀ member ∈ storedMembers state.objects digest,
    member.blob ∈ state.objects.blobs.keys
  fileKeys : ∀ digest, digest ∈ world.canonical.files.keys ↔ digest ∈ state.objects.files.keys
  symlinkKeys : ∀ digest,
    digest ∈ world.canonical.symlinks.keys ↔ digest ∈ state.objects.symlinks.keys
  treeKeys : ∀ digest, digest ∈ world.canonical.trees.keys ↔ digest ∈ state.objects.trees.keys
  trees : ∀ digest tree, world.canonical.trees.get? digest = some tree ↔
    ∃ bytes, storedTree codec state.objects digest = some (tree, bytes)

theorem fsckLoadCatalog_emits (catalog : StateCatalog) :
    Emits (fsckLoadCatalog codec store catalog) fun found emitted =>
      found = some catalog ∧ emitted = [] := by
  refine charged_emits (chargeObject_emits _) (emits_pure none)
    (unless_emits (never_emits (fsckError_emits _ _ _) fun _ => emits_pure none)
      (charged_emits (chargeBytes_emits _ _) (emits_pure none) ?_))
  cases validateCatalogLineages codec store none .full catalog with
  | ok =>
    refine (emits_pure (some catalog)).mono ?_
    rintro found emitted ⟨rfl, rfl⟩
    exact ⟨rfl, rfl⟩
  | error reason =>
    refine (never_emits (fsckError_emits _ _ _) fun _ => emits_pure (some catalog)).mono ?_
    rintro - - hfalse
    exact hfalse.elim

theorem memberStored_iff {member : PackMember} :
    memberStored store member = true ↔
      ∃ file, store.blobs.get? member.blob = some file ∧ file.bytes.byteLen = member.byteLen := by
  unfold memberStored
  cases store.blobs.get? member.blob with
  | none => simp
  | some file => simp

theorem packManifestArea_members {digest : Digest}
    {file : StoreFile (Encoded (List PackMember))} {value : Unit}
    (h : (packManifestArea store).Decodes digest file value) :
    ∃ members, file = ⟨true, true, true, .canonical members⟩ ∧
      ∀ member ∈ members, memberStored store member = true := by
  obtain ⟨bytes, rfl, -, hdecode⟩ := h
  cases bytes with
  | other data => cases hdecode
  | canonical members =>
    refine ⟨members, rfl, ?_⟩
    simp only [packManifestArea, decodePackManifestMembers] at hdecode
    split at hdecode
    · cases hdecode
    · rename_i decoded hdecoded
      split at hdecoded
      · cases hdecoded
      · cases hdecoded
        split at hdecode
        · rename_i hall
          exact all_eq_true.1 hall
        · cases hdecode

theorem fsckLoadPacks_emits (packEnvelope : PackEnvelope) :
    Emits (fsckLoadPacks packEnvelope store) fun packs emitted =>
      ((∀ digest, digest ∈ packs.keys ↔
          digest ∈ store.packs.keys ∨ digest ∈ store.packManifests.keys) ∧
        ∀ digest, ∀ member ∈ storedMembers store digest, member.blob ∈ store.blobs.keys) ∧
      emitted = [] := by
  refine Scan.Emits.mono (silent_bind (loadAreaOf_empty store.packs)
    fun packs => loadAreaOf_emits store.packManifests packs) ?_
  rintro r emitted ⟨⟨packs, hpacks, hall, hkeep⟩, rfl⟩
  refine ⟨⟨?_, ?_⟩, rfl⟩
  · intro digest
    cases hfile : store.packManifests.get? digest with
    | none =>
      have hnone : digest ∉ store.packManifests.keys := SortedMap.get?_eq_none.1 hfile
      rw [← hpacks.mem_keys_iff digest, SortedMap.mem_keys, SortedMap.mem_keys, hkeep digest hfile]
      simp [hnone]
    | some file =>
      obtain ⟨value, -, hvalue⟩ := hall digest file hfile
      have hstored : digest ∈ store.packManifests.keys := mem_keys.2 ⟨file, hfile⟩
      have hfound : digest ∈ r.keys := mem_keys.2 ⟨value, hvalue⟩
      simp [hstored, hfound]
  · intro digest member hmember
    unfold storedMembers at hmember
    cases hfile : store.packManifests.get? digest with
    | none => simp [hfile] at hmember
    | some file =>
      obtain ⟨value, hdecodes, -⟩ := hall digest file hfile
      obtain ⟨members, rfl, hstored⟩ := packManifestArea_members hdecodes
      rw [hfile] at hmember
      obtain ⟨blob, hblob, -⟩ := memberStored_iff.1 (hstored member hmember)
      exact mem_keys.2 ⟨blob, hblob⟩

theorem storedTree_iff {digest : Digest} {tree : TreeObject} :
    (∃ file, store.trees.get? digest = some file ∧ (treeArea codec).Decodes digest file tree) ↔
      ∃ size, storedTree codec store digest = some (tree, size) := by
  unfold storedTree FsckArea.Decodes
  simp only [storedObject_iff, treeArea, decodeOr_ok]
  constructor
  · rintro ⟨file, hfile, bytes, rfl, hsize, hdecode⟩
    exact ⟨_, bytes, hfile, hsize, hdecode, rfl⟩
  · rintro ⟨size, bytes, hfile, hsize, hdecode, -⟩
    exact ⟨_, hfile, bytes, rfl, hsize, hdecode⟩

theorem fsckLoadCanonicalObjects_emits :
    Emits (fsckLoadCanonicalObjects codec store) fun objects emitted =>
      ((∀ digest, digest ∈ objects.files.keys ↔ digest ∈ store.files.keys) ∧
        (∀ digest, digest ∈ objects.symlinks.keys ↔ digest ∈ store.symlinks.keys) ∧
        (∀ digest, digest ∈ objects.trees.keys ↔ digest ∈ store.trees.keys) ∧
        ∀ digest tree, objects.trees.get? digest = some tree ↔
          ∃ size, storedTree codec store digest = some (tree, size)) ∧ emitted = [] := by
  refine mono (silent_bind (loadAreaOf_empty store.files) fun files =>
    silent_bind (loadAreaOf_empty store.symlinks) fun symlinks =>
      silent_bind (loadAreaOf_empty store.trees) fun trees =>
        emits_pure (CanonicalObjects.mk files symlinks trees)) ?_
  rintro objects emitted ⟨⟨files, hfiles, symlinks, hsymlinks, trees, htrees, rfl⟩, rfl⟩
  refine ⟨⟨hfiles.mem_keys_iff, hsymlinks.mem_keys_iff, htrees.mem_keys_iff, ?_⟩, rfl⟩
  intro digest tree
  rw [← storedTree_iff]
  exact htrees.get?_iff (fun _ _ _ _ => FsckArea.Decodes.unique) digest tree

/-- **The world of a clean scan** is the store. -/
theorem loadWorld_emits (packEnvelope : PackEnvelope) (s : StoreState) :
    Emits (loadWorld codec packEnvelope s) fun world emitted =>
      WorldFrom codec s world ∧ emitted = [] := by
  refine mono (silent_bind (fsckLoadCatalog_emits s.catalog) fun catalog =>
    silent_bind (loadAreaOf_empty s.objects.prepared) fun prep =>
      silent_bind (loadAreaOf_empty s.objects.generations) fun generations =>
        silent_bind (loadAreaOf_empty s.objects.blobs) fun blobs =>
          silent_bind (fsckLoadPacks_emits packEnvelope) fun packs =>
            silent_bind fsckLoadCanonicalObjects_emits fun canonical =>
              emits_pure (FsckWorld.mk catalog prep generations blobs packs canonical)) ?_
  rintro world emitted ⟨⟨catalog, rfl, prep, hprep, generations, hgens, blobs,
    hblobs, packs, ⟨hpacks, hmembers⟩, canonical, ⟨hfiles, hsymlinks, htreeKeys, htrees⟩, rfl⟩,
    rfl⟩
  refine ⟨⟨rfl, ?_, hprep.mem_keys_iff, ?_, hgens.mem_keys_iff, hblobs.mem_keys_iff,
    hpacks, hmembers, hfiles, hsymlinks, htreeKeys, htrees⟩, rfl⟩
  · intro planId rec
    rw [loadPrepared_iff_decodes,
      hprep.get?_iff (fun _ _ _ _ => FsckArea.Decodes.unique) planId rec]
    simp only [FsckArea.Decodes, DecodesTo, preparedArea, decodeOr_ok]
  · intro digest gen
    rw [loadGeneration_iff_decodes,
      hgens.get?_iff (fun _ _ _ _ => FsckArea.Decodes.unique) digest gen]
    simp only [FsckArea.Decodes, DecodesTo, generationArea, decodeOr_ok, asInvalidStore,
      mapError_ok]

/-! ## 6. Roots -/

def FsckAuthorityRoots.Holds (roots : FsckAuthorityRoots) : Root → Prop
  | .generation digest limit =>
    ∃ root ∈ roots.generations, root.digest = digest ∧ root.limit = limit
  | .plan planId => planId ∈ roots.plans
  | .blob digest => digest ∈ roots.blobs
  | .pack digest => digest ∈ roots.packs
  | .file digest => digest ∈ roots.files
  | .symlink digest => digest ∈ roots.symlinks
  | .tree digest => digest ∈ roots.trees

theorem addGeneration_holds {added : FsckGenerationRoot} :
    (roots.addGeneration added).Holds root ↔
      roots.Holds root ∨ root = .generation added.digest added.limit := by
  cases root <;>
    simp [addGeneration, FsckAuthorityRoots.Holds, or_and_right, exists_or, eq_comm]

theorem pin_holds {pin : RetentionObject} :
    (roots.pin pin).Holds root ↔ roots.Holds root ∨ root = pinRoot pin := by
  cases pin with
  | stateGeneration digest => exact addGeneration_holds
  | _ => cases root <;> simp [pin, pinRoot, FsckAuthorityRoots.Holds, or_comm]

theorem pins_hold (pins : List RetentionObject) :
    ∀ roots : FsckAuthorityRoots, (pins.foldl pin roots).Holds root ↔
      roots.Holds root ∨ root ∈ pins.map pinRoot := by
  induction pins with
  | nil => simp
  | cons pin pins ih =>
    intro roots
    rw [foldl_cons, ih, pin_holds, map_cons, mem_cons, or_assoc]

theorem collectRestorePoint_emits (generations : SortedMap Digest StateGeneration)
    (roots : FsckAuthorityRoots) (point : RestorePoint) :
    Emits (collectRestorePoint generations roots point) fun r emitted =>
      (∀ root, r.Holds root ↔ roots.Holds root ∨ root = .generation point.generation 1) ∧
        emitted = [] := by
  unfold collectRestorePoint
  cases generations.get? point.generation with
  | none =>
    refine (never_emits (fsckError_emits _ _ _) fun _ => emits_pure roots).mono ?_
    rintro - - hfalse
    exact hfalse.elim
  | some gen =>
    dsimp only
    cases validateRestorePointReference point point.generation gen with
    | ok =>
      refine (emits_pure _).mono ?_
      rintro r emitted ⟨rfl, rfl⟩
      exact ⟨fun root => addGeneration_holds, rfl⟩
    | error reason =>
      refine (never_emits (fsckError_emits _ _ _) fun _ => emits_pure roots).mono ?_
      rintro - - hfalse
      exact hfalse.elim

theorem collectEach_emits {σ : Type} (holds : σ → Root → Prop) {collect : σ → α → FsckM σ}
    {adds : α → Root → Prop} (hstep : ∀ s e, Emits (collect s e) fun r emitted =>
      (∀ root, holds r root ↔ holds s root ∨ adds e root) ∧ emitted = []) (es : List α) (s : σ) :
    Emits (es.foldlM collect s) fun r emitted =>
      (∀ root, holds r root ↔ holds s root ∨ ∃ e ∈ es, adds e root) ∧
        emitted = [] := by
  refine mono (emits_foldlM hstep (fun done r emitted =>
    (∀ root, holds r root ↔ holds s root ∨ ∃ e ∈ done, adds e root) ∧
      emitted = []) ?_ es s) ?_
  · rintro done value emitted e next more ⟨hdone, rfl⟩ ⟨hnext, rfl⟩
    refine ⟨?_, rfl⟩
    intro root
    rw [hnext, hdone, or_assoc]
    simp [or_and_right, exists_or]
  · intro r emitted hloop
    exact hloop [] [] ⟨by simp, rfl⟩

theorem collectAuthority_emits (generations : SortedMap Digest StateGeneration)
    (restorePoint : Option RestorePoint) (auth : RetentionAuthority)
    (roots : FsckAuthorityRoots) :
    Emits (collectAuthority generations restorePoint auth roots) fun r emitted =>
      (∀ root, r.Holds root ↔
        roots.Holds root ∨ root ∈ recordRoots restorePoint auth) ∧ emitted = [] := by
  refine mono (silent_bind
    (collectEach_emits FsckAuthorityRoots.Holds
      (fun roots point => collectRestorePoint_emits generations roots point)
      (restorePoint.toList ++ auth.restorePoints) roots)
    fun mid => emits_pure (auth.explicitPins.foldl pin mid)) ?_
  rintro r emitted ⟨⟨mid, hpoints, rfl⟩, rfl⟩
  refine ⟨?_, rfl⟩
  intro root
  rw [pins_hold, hpoints, or_assoc, recordRoots, mem_append]
  simp only [mem_map, eq_comm]

def HeadAdds (generations : SortedMap Digest StateGeneration) (head : NamespaceHead)
    (root : Root) : Prop :=
  ∃ gen, generations.get? head.generation = some gen ∧
    (root = .generation head.generation gen.retention.history ∨
      root ∈ recordRoots gen.restorePoint gen.retention)

theorem collectHead_emits (generations : SortedMap Digest StateGeneration) (heads : FsckHeads)
    (head : NamespaceHead) :
    Emits (collectHead generations heads head) fun r emitted =>
      (∀ root, r.roots.Holds root ↔ heads.roots.Holds root ∨ HeadAdds generations head root) ∧
        emitted = [] := by
  unfold collectHead HeadAdds
  cases generations.get? head.generation with
  | none =>
    refine (never_emits (fsckError_emits _ _ _) fun _ => emits_pure heads).mono ?_
    rintro - - hfalse
    exact hfalse.elim
  | some gen =>
    refine mono (silent_bind (check_emits _ _ _) fun _ =>
      silent_bind (collectAuthority_emits generations gen.restorePoint
        gen.retention _) fun roots =>
          emits_pure (FsckHeads.mk roots
            (heads.selected ++ [(head.namespaceName, gen)]))) ?_
    rintro r emitted ⟨⟨-, -, roots, hroots, rfl⟩, rfl⟩
    refine ⟨?_, rfl⟩
    intro root
    rw [hroots, addGeneration_holds, or_assoc]
    simp

theorem collectPlans_emits {world : FsckWorld} (start : FsckAuthorityRoots) :
    Emits (world.prepared.entries.foldlM (collectPlan world.generations) start)
      fun roots emitted => (∀ root, roots.Holds root ↔ start.Holds root ∨
        ∃ plan ∈ world.prepared.entries,
          root ∈ recordRoots plan.2.restorePoint plan.2.retention) ∧ emitted = [] :=
  collectEach_emits FsckAuthorityRoots.Holds (fun roots plan => collectAuthority_emits
    world.generations plan.2.restorePoint plan.2.retention roots) world.prepared.entries start

theorem planRoot_iff {s : StoreState} {world : FsckWorld}
    (hworld : WorldFrom codec s world) (root : Root) :
    (∃ plan ∈ world.prepared.entries,
        root ∈ recordRoots plan.2.restorePoint plan.2.retention) ↔
      PlanRoot codec s.objects [] root := by
  simp only [PlanRoot, Prod.exists, ← get?_eq_some, hworld.plans, not_mem_nil,
    not_false_eq_true, true_and]

/-! ## 7. Generations -/

section Generations

variable {prep : SortedMap PreparedId PreparedRecord}
  {generations : SortedMap Digest StateGeneration}

section

variable (digest : Digest) (gen : StateGeneration)
include digest gen

theorem validateAboveFloor_emits (rec : PreparedRecord) :
    Emits (validateAboveFloor codec generations digest gen rec) fun _ emitted =>
      True ∧ emitted = [] := by
  unfold validateAboveFloor
  cases gen.previousGeneration with
  | none =>
    exact (check_emits _ _ _).mono fun _ _ h => ⟨trivial, h.2⟩
  | some missing =>
    dsimp only [Option.bind_some]
    cases generations.get? missing with
    | none => exact (fsckError_emits _ _ _).mono fun _ _ hfalse => hfalse.elim
    | some prev => exact (check_emits _ _ _).mono fun _ _ h => ⟨trivial, h.2⟩

theorem validateGenerationTransitionRecord_emits (atRetainedFloor : Bool) :
    Emits (validateGenerationTransitionRecord codec prep generations digest gen
      atRetainedFloor) fun _ emitted => True ∧ emitted = [] := by
  unfold validateGenerationTransitionRecord
  cases prep.get? gen.planId with
  | none => exact (fsckError_emits _ _ _).mono fun _ _ hfalse => hfalse.elim
  | some rec =>
    refine mono (ite (check_emits _ _ _)
      (validateAboveFloor_emits digest gen rec)) ?_
    rintro - emitted (⟨-, -, rfl⟩ | ⟨-, -, rfl⟩)
    · exact ⟨trivial, rfl⟩
    · exact ⟨trivial, rfl⟩

theorem validateUnreachableGeneration_emits :
    Emits (validateUnreachableGeneration codec prep generations digest gen)
      fun _ emitted => True ∧ emitted = [] := by
  unfold validateUnreachableGeneration
  cases prep.get? gen.planId with
  | none => exact (fsckError_emits _ _ _).mono fun _ _ hfalse => hfalse.elim
  | some rec => exact (check_emits _ _ _).mono fun _ _ h => ⟨trivial, h.2⟩

end

variable (store)

theorem walkGenerations_emits (left : Nat) :
    ∀ (start : Option Digest) (ns : Option NamespaceName) (lineage : List Digest)
      (walk : FsckWalk),
      Emits (walkGenerations codec prep generations left start ns lineage walk)
        fun r emitted => (GenerationsFrom codec store generations → ∀ digest,
          digest ∈ r.reachable ↔ digest ∈ walk.reachable ∨
            ∃ first, start = some first ∧ digest ∈ chain store left first) ∧ emitted = [] := by
  induction left with
  | zero =>
    intro start ns lineage walk
    refine (emits_pure walk).mono ?_
    rintro r emitted ⟨rfl, rfl⟩
    exact ⟨by simp [chain], rfl⟩
  | succ left ih =>
    intro start ns lineage walk
    cases start with
    | none =>
      refine (emits_pure walk).mono ?_
      rintro r emitted ⟨rfl, rfl⟩
      exact ⟨by simp, rfl⟩
    | some first =>
      refine unless_emits (never_emits (fsckError_emits _ _ _) fun _ => emits_pure walk) ?_
      cases hfound : generations.get? first with
      | none =>
        refine (never_emits (fsckError_emits _ _ _) fun _ => emits_pure walk).mono ?_
        rintro - - hfalse
        exact hfalse.elim
      | some gen =>
        refine unless_emits (never_emits (fsckError_emits _ _ _) fun _ => emits_pure walk) ?_
        refine mono (silent_bind (reject_emits _ _ _) fun _ =>
          silent_bind (validateGenerationTransitionRecord_emits first gen _) fun _ =>
            ih gen.previousGeneration _ _ _) ?_
        rintro r emitted ⟨⟨-, -, -, -, hrest⟩, rfl⟩
        refine ⟨?_, rfl⟩
        intro hgens digest
        have hload := (hgens first gen).1 hfound
        have hchain : digest ∈ chain store (left + 1) first ↔ digest = first ∨
            ∃ prev, gen.previousGeneration = some prev ∧
              digest ∈ chain store left prev := by
          rw [chain, mem_cons, predecessor_of_load hload]
          cases gen.previousGeneration <;> simp
        simp only [hrest hgens, mem_cons, Option.some.injEq, exists_eq_left', hchain]
        tauto

theorem walkGenerationRoot_emits (walk : FsckWalk) (root : FsckGenerationRoot) :
    Emits (walkGenerationRoot codec prep generations walk root) fun r emitted =>
      (GenerationsFrom codec store generations → ∀ digest, digest ∈ r.reachable ↔
        digest ∈ walk.reachable ∨ digest ∈ chain store root.limit root.digest) ∧ emitted = [] := by
  refine mono (walkGenerations_emits store root.limit (some root.digest)
    root.namespaceName [] walk) ?_
  rintro r emitted ⟨hmem, rfl⟩
  refine ⟨?_, rfl⟩
  intro hgens digest
  rw [hmem hgens]
  simp

theorem walkRoots_emits (roots : List FsckGenerationRoot) (start : FsckWalk) :
    Emits (roots.foldlM (walkGenerationRoot codec prep generations) start)
      fun walk emitted => (GenerationsFrom codec store generations → ∀ digest,
        digest ∈ walk.reachable ↔ digest ∈ start.reachable ∨
          ∃ root ∈ roots, digest ∈ chain store root.limit root.digest) ∧ emitted = [] := by
  refine mono (emits_foldlM (fun walk root => walkGenerationRoot_emits store walk root)
    (fun done walk emitted => (GenerationsFrom codec store generations → ∀ digest,
      digest ∈ walk.reachable ↔ digest ∈ start.reachable ∨
        ∃ root ∈ done, digest ∈ chain store root.limit root.digest) ∧ emitted = []) ?_ roots
    start) ?_
  · rintro done value emitted e next more ⟨hdone, rfl⟩ ⟨hnext, rfl⟩
    refine ⟨?_, rfl⟩
    intro hgens digest
    rw [hnext hgens, hdone hgens, or_assoc]
    simp [or_and_right, exists_or]
  · intro walk emitted hloop
    exact hloop [] [] ⟨by simp, rfl⟩

variable {store}

/-- The warning about an object that nothing retains. -/
def unretained (subject : FsckSubject) (detail : String) : FsckFinding :=
  ⟨.unreachableImmutableObject, .warning, subject, detail⟩

theorem warnEach_emits {step : α → FsckM Unit} {warns : α → Prop} [DecidablePred warns]
    {warning : α → FsckFinding}
    (hstep : ∀ e, Emits (step e) fun _ emitted => emitted = if warns e then [warning e] else [])
    (es : List α) :
    Emits (es.forM step) fun _ emitted =>
      emitted = (es.filter fun e => warns e).map warning := by
  refine mono (emits_forM hstep (fun done emitted =>
    emitted = (done.filter fun e => warns e).map warning) ?_ es) ?_
  · rintro done _ e more rfl rfl
    by_cases h : warns e <;> simp [h]
  · intro _ emitted hloop
    exact hloop [] [] rfl

theorem reportUnreachable_emits (reachable : List Digest) (e : Digest × StateGeneration) :
    Emits (reportUnreachable codec prep generations reachable e) fun _ emitted =>
      emitted = if e.1 ∉ reachable then [unretained (.generation e.1)
        "the verified state generation is not retained by current authority"] else [] := by
  refine mono (ite (emits_pure ()) (bind
    (validateUnreachableGeneration_emits e.1 e.2) fun _ => fsckWarning_emits _ _ _)) ?_
  rintro - emitted (⟨hmem, -, rfl⟩ | ⟨hnot, -, begun, rest, ⟨-, rfl⟩, rfl, rfl⟩)
  · rw [if_neg (not_not.2 hmem)]
  · rw [if_pos hnot]
    rfl

end Generations

/-! ## 8. Dependencies -/

def SnapshotAdds (snapshot : DesiredSnapshot) (trackedRoot : Option TrackedRoot) : Root → Prop
  | .blob digest => ∃ file ∈ snapshotFiles snapshot, file.1 = digest
  | .symlink digest => digest ∈ stateSymlinks (snapshotStates snapshot)
  | .tree digest => digest ∈ snapshotTrees snapshot trackedRoot
  | _ => False

def PlanAdds (record : PreparedRecord) : Root → Prop
  | .blob digest => (∃ artifact ∈ record.artifacts, artifact.digest = digest) ∨
      SnapshotAdds record.desiredSnapshot record.trackedRoot (.blob digest)
  | .pack digest => digest ∈ recordPackRoots record
  | root => SnapshotAdds record.desiredSnapshot record.trackedRoot root

def GenerationAdds (generation : StateGeneration) : Root → Prop
  | .blob digest => (∃ artifact ∈ generation.artifacts, artifact.digest = digest) ∨
      SnapshotAdds generation.desiredSnapshot generation.trackedRoot (.blob digest)
  | root => SnapshotAdds generation.desiredSnapshot generation.trackedRoot root

def StateAdds (state : StateTargetState) : Root → Prop
  | .blob digest => ∃ file, state = .file (some file) ∧ file.digest = digest
  | .symlink digest => digest ∈ stateSymlinks [state]
  | .tree digest => digest ∈ stateTreeRoots [state]
  | _ => False

theorem recordStateDependencies_holds (found : FsckDependencies) (s : StateTargetState)
    (root : Root) :
    (recordStateDependencies found s).roots.Holds root ↔
      found.roots.Holds root ∨ StateAdds s root := by
  unfold recordStateDependencies
  cases root <;> (split <;> simp_all [FsckAuthorityRoots.Holds, StateAdds, stateSymlinks,
    stateTreeRoots, or_comm, eq_comm])

theorem recordStates_hold (root : Root) (states : List StateTargetState) :
    ∀ found : FsckDependencies,
      (states.foldl recordStateDependencies found).roots.Holds root ↔
        found.roots.Holds root ∨ ∃ s ∈ states, StateAdds s root := by
  induction states with
  | nil => simp
  | cons s states ih =>
    intro found
    rw [foldl_cons, ih, recordStateDependencies_holds, or_assoc]
    simp

theorem recordTrackedRoot_holds (found : FsckDependencies) (trackedRoot : Option TrackedRoot)
    (root : Root) :
    (recordTrackedRoot found trackedRoot).roots.Holds root ↔ found.roots.Holds root ∨
      ∃ tracked, trackedRoot = some tracked ∧ root = .tree tracked.rootTreeDigest := by
  cases trackedRoot with
  | none => simp [recordTrackedRoot]
  | some tracked =>
    cases root <;> simp [recordTrackedRoot, FsckAuthorityRoots.Holds, or_comm]

theorem mem_filterMap_singleton {α β : Type} {f : α → Option β} {items : List α} {b : β} :
    b ∈ items.filterMap f ↔ ∃ a ∈ items, b ∈ [a].filterMap f := by
  simp [mem_filterMap]

theorem mem_stateSymlinks {digest : Digest} :
    digest ∈ stateSymlinks states ↔ ∃ s ∈ states, digest ∈ stateSymlinks [s] :=
  mem_filterMap_singleton

theorem mem_stateTreeRoots {digest : Digest} :
    digest ∈ stateTreeRoots states ↔ ∃ s ∈ states, digest ∈ stateTreeRoots [s] :=
  mem_filterMap_singleton

theorem snapshotAdds_iff (snap : DesiredSnapshot) (trackedRoot : Option TrackedRoot)
    (root : Root) :
    (∃ s ∈ snapshotStates snap, StateAdds s root) ∨
        (∃ tracked, trackedRoot = some tracked ∧ root = .tree tracked.rootTreeDigest) ↔
      SnapshotAdds snap trackedRoot root := by
  cases root with
  | blob digest =>
    show (∃ s ∈ snapshotStates snap, ∃ file, s = .file (some file) ∧
      file.digest = digest) ∨ _ ↔ ∃ file ∈ snapshotFiles snap, file.1 = digest
    rw [mem_snapshotFiles]
    simp only [snapshotStates, mem_map, exists_exists_and_eq_and, reduceCtorEq, and_false,
      exists_false, or_false]
  | symlink digest =>
    show (∃ s ∈ snapshotStates snap, digest ∈ stateSymlinks [s]) ∨ _ ↔
      digest ∈ stateSymlinks (snapshotStates snap)
    rw [← mem_stateSymlinks]
    simp
  | tree digest =>
    show (∃ s ∈ snapshotStates snap, digest ∈ stateTreeRoots [s]) ∨ _ ↔
      digest ∈ snapshotTrees snap trackedRoot
    rw [← mem_stateTreeRoots, snapshotTrees, mem_append]
    cases trackedRoot <;> simp
  | _ => simp [StateAdds, SnapshotAdds]

theorem recordPreparedDependencies_holds (found : FsckDependencies) (rec : PreparedRecord)
    (root : Root) :
    (recordPreparedDependencies found rec).roots.Holds root ↔
      found.roots.Holds root ∨ PlanAdds rec root := by
  unfold recordPreparedDependencies
  dsimp only
  rw [recordTrackedRoot_holds, recordStates_hold, or_assoc, snapshotAdds_iff]
  cases root <;>
    simp [FsckAuthorityRoots.Holds, PlanAdds, SnapshotAdds, or_comm, or_left_comm]

theorem recordGenerationDependencies_holds (found : FsckDependencies)
    (gen : StateGeneration) (root : Root) :
    (recordGenerationDependencies found gen).roots.Holds root ↔
      found.roots.Holds root ∨ GenerationAdds gen root := by
  unfold recordGenerationDependencies
  dsimp only
  rw [recordTrackedRoot_holds, recordStates_hold, or_assoc, snapshotAdds_iff]
  cases root <;>
    simp [FsckAuthorityRoots.Holds, GenerationAdds, SnapshotAdds, or_comm, or_left_comm]

theorem recordGenerations_hold (root : Root) (generations : List StateGeneration) :
    ∀ found : FsckDependencies,
      (generations.foldl recordGenerationDependencies found).roots.Holds root ↔
        found.roots.Holds root ∨ ∃ gen ∈ generations, GenerationAdds gen root := by
  induction generations with
  | nil => simp
  | cons gen generations ih =>
    intro found
    rw [foldl_cons, ih, recordGenerationDependencies_holds, or_assoc]
    simp

theorem recordPlan_emits (prep : SortedMap PreparedId PreparedRecord)
    (found : FsckDependencies) (planId : PreparedId) :
    Emits (recordPlan prep found planId) fun r emitted =>
      (∃ rec, prep.get? planId = some rec ∧
        ∀ root, r.roots.Holds root ↔ found.roots.Holds root ∨ PlanAdds rec root) ∧
        emitted = [] := by
  unfold recordPlan
  cases prep.get? planId with
  | none =>
    refine (never_emits (fsckError_emits _ _ _) fun _ => emits_pure found).mono ?_
    rintro - - hfalse
    exact hfalse.elim
  | some rec =>
    refine (emits_pure _).mono ?_
    rintro r emitted ⟨rfl, rfl⟩
    exact ⟨⟨rec, rfl, recordPreparedDependencies_holds found rec⟩, rfl⟩

theorem recordPlans_emits (prep : SortedMap PreparedId PreparedRecord)
    (plans : List PreparedId) (start : FsckDependencies) :
    Emits (plans.foldlM (recordPlan prep) start) fun r emitted =>
      ((∀ planId ∈ plans, planId ∈ prep.keys) ∧
        ∀ root, r.roots.Holds root ↔ start.roots.Holds root ∨
          ∃ planId ∈ plans, ∃ rec, prep.get? planId = some rec ∧ PlanAdds rec root) ∧
        emitted = [] := by
  refine mono (emits_foldlM (recordPlan_emits prep) (fun done r emitted =>
    ((∀ planId ∈ done, planId ∈ prep.keys) ∧
      ∀ root, r.roots.Holds root ↔ start.roots.Holds root ∨
        ∃ planId ∈ done, ∃ rec, prep.get? planId = some rec ∧ PlanAdds rec root) ∧
      emitted = []) ?_ plans start) ?_
  · rintro done value emitted planId next more ⟨⟨hkeys, hdone⟩, rfl⟩ ⟨⟨rec, hrec, hnext⟩, rfl⟩
    refine ⟨⟨?_, ?_⟩, rfl⟩
    · intro other hother
      rcases mem_append.1 hother with hother | hother
      · exact hkeys other hother
      · rw [mem_singleton.1 hother]
        exact mem_keys.2 ⟨rec, hrec⟩
    · intro root
      rw [hnext, hdone, or_assoc]
      simp [or_and_right, exists_or, hrec]
  · intro r emitted hloop
    exact hloop [] [] ⟨⟨by simp, by simp⟩, rfl⟩

/-! ## 9. Retained objects -/

theorem validateBlobRoot_emits (lengths : List (Digest × Nat)) (blobs : SortedMap Digest Nat)
    (digest : Digest) :
    Emits (validateBlobRoot lengths blobs digest) fun _ emitted =>
      digest ∈ blobs.keys ∧ emitted = [] := by
  unfold validateBlobRoot
  cases hfound : blobs.get? digest with
  | none => exact (fsckError_emits _ _ _).mono fun _ _ hfalse => hfalse.elim
  | some actual =>
    exact (reject_emits _ _ _).mono fun _ _ h => ⟨mem_keys.2 ⟨actual, hfound⟩, h.2⟩

theorem validatePackRoot_emits (packs : SortedMap Digest Unit) (digest : Digest) :
    Emits (validatePackRoot packs digest) fun _ emitted => digest ∈ packs.keys ∧ emitted = [] :=
  (check_emits _ _ _).mono fun _ _ h => ⟨contains_iff.1 h.1, h.2⟩

section Canonical

variable {objects : CanonicalObjects}

theorem validateFileRoot_emits (digest : Digest) :
    Emits (validateFileRoot objects digest) fun _ emitted => True ∧ emitted = [] :=
  (check_emits _ _ _).mono fun _ _ h => ⟨trivial, h.2⟩

theorem validateSymlinkRoot_emits (digest : Digest) :
    Emits (validateSymlinkRoot objects digest) fun _ emitted => True ∧ emitted = [] := by
  unfold validateSymlinkRoot
  cases objects.safeSymlinkTarget digest with
  | ok t =>
    refine (emits_pure ()).mono ?_
    rintro - emitted ⟨-, rfl⟩
    exact ⟨trivial, rfl⟩
  | error reason =>
    refine mono (ite (fsckError_emits _ _ _) (fsckError_emits _ _ _)) ?_
    rintro - - (⟨-, hfalse⟩ | ⟨-, hfalse⟩)
    · exact hfalse.elim
    · exact hfalse.elim

theorem checkMarkedEntry_emits (e : TreeEntry) :
    Emits (checkMarkedEntry objects e) fun _ emitted => True ∧ emitted = [] := by
  unfold checkMarkedEntry
  cases e.kind with
  | directory digest =>
    refine (emits_pure ()).mono ?_
    rintro - emitted ⟨-, rfl⟩
    exact ⟨trivial, rfl⟩
  | symlink digest => exact (check_emits _ _ _).mono fun _ _ h => ⟨trivial, h.2⟩
  | file digest byteLen =>
    dsimp only
    cases objects.files.get? digest with
    | none => exact (fsckError_emits _ _ _).mono fun _ _ hfalse => hfalse.elim
    | some data => exact (check_emits _ _ _).mono fun _ _ h => ⟨trivial, h.2⟩

/-- Conditions on trees, files and symlinks that following references keeps. -/
structure MarkAllows (objects : CanonicalObjects) (tree file link : Digest → Prop) : Prop where
  entries : ∀ digest found, tree digest → objects.trees.get? digest = some found →
    ∀ entry ∈ found.entries, match entry.kind with
      | .file target _ => file target
      | .directory target => tree target
      | .symlink target => link target

def MarksInside (tree file link : Digest → Prop) (marks : FsckMarks) : Prop :=
  (∀ digest ∈ marks.trees, tree digest) ∧ (∀ digest ∈ marks.files, file digest) ∧
    ∀ digest ∈ marks.symlinks, link digest

/-- Every entry of a marked tree is marked or waits. -/
def MarksClosed (objects : CanonicalObjects) (marks : FsckMarks) (pending : List Digest) : Prop :=
  ∀ digest ∈ marks.trees, ∃ found, objects.trees.get? digest = some found ∧
    ∀ entry ∈ found.entries, match entry.kind with
      | .file target _ => target ∈ marks.files
      | .directory target => target ∈ marks.trees ∨ target ∈ pending
      | .symlink target => target ∈ marks.symlinks

def MarksGrow (before after : FsckMarks) : Prop :=
  before.trees ⊆ after.trees ∧ before.files ⊆ after.files ∧ before.symlinks ⊆ after.symlinks

variable {tree : TreeObject} {digest : Digest} {marks : FsckMarks}

theorem mem_treeDirectories :
    digest ∈ treeDirectories tree ↔ ∃ e ∈ tree.entries, e.kind = .directory digest := by
  simp only [treeDirectories, mem_filterMap]
  refine exists_congr fun e => and_congr_right fun _ => ?_
  cases e.kind <;> simp

theorem MarksGrow.refl (marks : FsckMarks) : MarksGrow marks marks :=
  ⟨List.Subset.refl _, List.Subset.refl _, List.Subset.refl _⟩

theorem MarksGrow.add (marks : FsckMarks) (digest : Digest) (tree : TreeObject) :
    MarksGrow marks (marks.add digest tree) :=
  ⟨subset_cons_self _ _, subset_append_right _ _, subset_append_right _ _⟩

theorem MarksGrow.trans {first snd third : FsckMarks} (h : MarksGrow first snd)
    (h' : MarksGrow snd third) : MarksGrow first third :=
  ⟨List.Subset.trans h.1 h'.1, List.Subset.trans h.2.1 h'.2.1, List.Subset.trans h.2.2 h'.2.2⟩

theorem mem_add_files {file : Digest} :
    file ∈ (marks.add digest tree).files ↔
      (∃ e ∈ tree.entries, ∃ byteLen, e.kind = .file file byteLen) ∨
        file ∈ marks.files := by
  simp only [FsckMarks.add, mem_append, mem_filterMap]
  refine or_congr_left (exists_congr fun e => and_congr_right fun _ => ?_)
  cases e.kind <;> simp

theorem mem_add_symlinks {link : Digest} :
    link ∈ (marks.add digest tree).symlinks ↔
      (∃ e ∈ tree.entries, e.kind = .symlink link) ∨ link ∈ marks.symlinks := by
  simp only [FsckMarks.add, mem_append, mem_filterMap]
  refine or_congr_left (exists_congr fun e => and_congr_right fun _ => ?_)
  cases e.kind <;> simp

section

variable {pending : List Digest}

/-- A marked tree stays closed when more is marked, and what waited is marked or waits. -/
theorem MarksClosed.entries {after : FsckMarks} {rest : List Digest} {other : Digest}
    (h : MarksClosed objects marks pending) (hgrows : MarksGrow marks after)
    (hpending : ∀ t ∈ pending, t ∈ after.trees ∨ t ∈ rest) (hother : other ∈ marks.trees) :
    ∃ found, objects.trees.get? other = some found ∧
      ∀ entry ∈ found.entries, match entry.kind with
        | .file target _ => target ∈ after.files
        | .directory target => target ∈ after.trees ∨ target ∈ rest
        | .symlink target => target ∈ after.symlinks := by
  obtain ⟨found, hfound, hentries⟩ := h other hother
  refine ⟨found, hfound, ?_⟩
  intro e hentry
  have hmarked := hentries e hentry
  cases hkind : e.kind with
  | file t byteLen =>
    rw [hkind] at hmarked
    exact hgrows.2.1 hmarked
  | symlink t =>
    rw [hkind] at hmarked
    exact hgrows.2.2 hmarked
  | directory t =>
    rw [hkind] at hmarked
    rcases hmarked with hmarked | hmarked
    · exact .inl (hgrows.1 hmarked)
    · exact hpending t hmarked

theorem MarksClosed.add (h : MarksClosed objects marks (digest :: pending))
    (hstored : objects.trees.get? digest = some tree) :
    MarksClosed objects (marks.add digest tree) ((treeDirectories tree).reverse ++ pending) := by
  intro other hother
  rcases mem_cons.1 hother with rfl | hother
  · refine ⟨tree, hstored, ?_⟩
    intro e hentry
    cases hkind : e.kind with
    | file t byteLen => exact mem_add_files.2 (.inl ⟨e, hentry, byteLen, hkind⟩)
    | symlink t => exact mem_add_symlinks.2 (.inl ⟨e, hentry, hkind⟩)
    | directory t =>
      refine .inr (mem_append_left _ (mem_reverse.2 ?_))
      exact mem_treeDirectories.2 ⟨e, hentry, hkind⟩
  · refine h.entries (.add marks digest tree) (fun t hwaits => ?_) hother
    rcases mem_cons.1 hwaits with rfl | hwaits
    · exact .inl mem_cons_self
    · exact .inr (mem_append_right _ hwaits)

theorem MarksClosed.skip (h : MarksClosed objects marks (digest :: pending))
    (hmarked : digest ∈ marks.trees) : MarksClosed objects marks pending := by
  refine fun _ => h.entries (.refl marks) fun t hwaits => ?_
  rcases mem_cons.1 hwaits with rfl | hwaits
  · exact .inl hmarked
  · exact .inr hwaits

theorem MarksClosed.weaken (h : MarksClosed objects marks []) (pending : List Digest) :
    MarksClosed objects marks pending :=
  fun _ => h.entries (.refl marks) fun _ hfalse => nomatch hfalse

end

theorem MarksInside.add {tree file link : Digest → Prop}
    (hallows : MarkAllows objects tree file link) (h : MarksInside tree file link marks)
    {found : TreeObject} (hdigest : tree digest)
    (hfound : objects.trees.get? digest = some found) :
    MarksInside tree file link (marks.add digest found) := by
  have hentries := hallows.entries digest found hdigest hfound
  refine ⟨?_, ?_, ?_⟩
  · intro other hother
    rcases mem_cons.1 hother with rfl | hother
    · exact hdigest
    · exact h.1 other hother
  · intro other hother
    rcases mem_add_files.1 hother with ⟨e, hentry, byteLen, hkind⟩ | hother
    · have hfile := hentries e hentry
      rw [hkind] at hfile
      exact hfile
    · exact h.2.1 other hother
  · intro other hother
    rcases mem_add_symlinks.1 hother with ⟨e, hentry, hkind⟩ | hother
    · have hlink := hentries e hentry
      rw [hkind] at hlink
      exact hlink
    · exact h.2.2 other hother

/-- What the marking loop leaves, from its marks and waiting trees. -/
structure MarkedFrom (objects : CanonicalObjects) (marks : FsckMarks) (pending : List Digest)
    (result : FsckMarks) : Prop where
  closed : MarksClosed objects marks pending → MarksClosed objects result []
  grows : MarksGrow marks result
  reached : ∀ digest ∈ pending, digest ∈ result.trees
  inside : ∀ tree file link, MarkAllows objects tree file link →
    MarksInside tree file link marks → (∀ digest ∈ pending, tree digest) →
      MarksInside tree file link result

theorem markPending_emits (marks : FsckMarks) (complete : Bool) (pending : List Digest) :
    Emits (markPending objects marks complete pending) fun r emitted =>
      MarkedFrom objects marks pending r.2 ∧ emitted = [] := by
  induction marks, complete, pending using markPending.induct objects with
  | case1 marks complete =>
    rw [markPending]
    refine (emits_pure _).mono ?_
    rintro r emitted ⟨rfl, rfl⟩
    refine ⟨⟨id, ⟨fun _ h => h, fun _ h => h, fun _ h => h⟩, ?_, fun _ _ _ _ h _ => h⟩, rfl⟩
    intro digest hdigest
    cases hdigest
  | case2 marks complete digest pending hmarked ih =>
    rw [markPending, dif_pos hmarked]
    refine ih.mono ?_
    rintro r emitted ⟨hres, rfl⟩
    refine ⟨⟨fun h => hres.closed (h.skip hmarked), hres.grows, ?_, ?_⟩, rfl⟩
    · intro other hother
      rcases mem_cons.1 hother with rfl | hother
      · exact hres.grows.1 hmarked
      · exact hres.reached other hother
    · intro tree file link hallows hinside hpend
      exact hres.inside tree file link hallows hinside
        fun other hother => hpend other (mem_cons_of_mem _ hother)
  | case3 marks complete digest pending hfresh hmiss ih =>
    rw [markPending, dif_neg hfresh]
    split
    · refine (never_emits (fsckError_emits _ _ _) fun _ => ih).mono ?_
      rintro - - hfalse
      exact hfalse.elim
    · rename_i tree hstored
      rw [hmiss] at hstored
      cases hstored
  | case4 marks complete digest pending hfresh tree hstored ih =>
    rw [markPending, dif_neg hfresh]
    split
    · rename_i hmiss
      rw [hstored] at hmiss
      cases hmiss
    · rename_i found hfound
      obtain rfl : tree = found := Option.some.inj (hstored.symm.trans hfound)
      refine (silent_bind (emits_checks (fun e => checkMarkedEntry_emits e)
        tree.entries) fun _ => ih).mono ?_
      rintro r emitted ⟨⟨-, -, hres⟩, rfl⟩
      refine ⟨⟨fun h => hres.closed (h.add hstored), (MarksGrow.add marks digest tree).trans
        hres.grows, ?_, ?_⟩, rfl⟩
      · intro other hother
        rcases mem_cons.1 hother with rfl | hother
        · exact hres.grows.1 mem_cons_self
        · exact hres.reached other (mem_append_right _ hother)
      · intro trees file link hallows hinside hpend
        have hdigest := hpend digest mem_cons_self
        refine hres.inside trees file link hallows (hinside.add hallows hdigest hstored) ?_
        intro other hother
        rcases mem_append.1 hother with hother | hother
        · obtain ⟨e, hentry, hkind⟩ := mem_treeDirectories.1 (mem_reverse.1 hother)
          have hchild := hallows.entries digest tree hdigest hstored e hentry
          rw [hkind] at hchild
          exact hchild
        · exact hpend other (mem_cons_of_mem _ hother)

theorem markTreeRoot_emits (marks : FsckMarks) (root : Digest) :
    Emits (markTreeRoot objects marks root) fun r emitted =>
      MarkedFrom objects marks [root] r ∧ emitted = [] := by
  refine mono (silent_bind (markPending_emits marks true [root]) fun marked =>
    silent_bind (reject_emits _ _ _) fun _ => emits_pure marked.2) ?_
  rintro r emitted ⟨⟨marked, hmarked, -, -, rfl⟩, rfl⟩
  exact ⟨hmarked, rfl⟩

/-- **The marks of the scan**: a closed set with the roots, and nothing they do not reach. -/
structure RootsMarked (objects : CanonicalObjects) (start : FsckMarks) (roots : List Digest)
    (result : FsckMarks) : Prop where
  closed : MarksClosed objects start [] → MarksClosed objects result []
  grows : MarksGrow start result
  reached : ∀ digest ∈ roots, digest ∈ result.trees
  inside : ∀ tree file link, MarkAllows objects tree file link →
    MarksInside tree file link start → (∀ digest ∈ roots, tree digest) →
      MarksInside tree file link result

theorem RootsMarked.snoc {start mid result : FsckMarks} {done : List Digest} {root : Digest}
    (h : RootsMarked objects start done mid) (hnext : MarkedFrom objects mid [root] result) :
    RootsMarked objects start (done ++ [root]) result := by
  refine ⟨fun hstart => hnext.closed ((h.closed hstart).weaken _), h.grows.trans hnext.grows,
    ?_, ?_⟩
  · intro digest hdigest
    rcases mem_append.1 hdigest with hdigest | hdigest
    · exact hnext.grows.1 (h.reached digest hdigest)
    · exact hnext.reached digest hdigest
  · intro tree file link hallows hinside hroots
    refine hnext.inside tree file link hallows (h.inside tree file link hallows hinside ?_) ?_
    · exact fun digest hdigest => hroots digest (mem_append_left _ hdigest)
    · exact fun digest hdigest => hroots digest (mem_append_right _ hdigest)

theorem validateCanonicalRoots_emits (roots : FsckAuthorityRoots) :
    Emits (validateCanonicalRoots objects roots) fun marks emitted =>
      RootsMarked objects ⟨roots.files, roots.symlinks, []⟩ (sortedSet roots.trees) marks ∧
        emitted = [] := by
  have hloop := emits_foldlM (fun marks root => @markTreeRoot_emits objects marks root)
    (fun done marks emitted =>
      RootsMarked objects ⟨roots.files, roots.symlinks, []⟩ done marks ∧ emitted = [])
    (by
      rintro done value emitted root next more ⟨hdone, rfl⟩ ⟨hnext, rfl⟩
      exact ⟨hdone.snoc hnext, rfl⟩)
    (sortedSet roots.trees) ⟨roots.files, roots.symlinks, []⟩
  have hmarks : Emits ((sortedSet roots.trees).foldlM (markTreeRoot objects)
      ⟨roots.files, roots.symlinks, []⟩) fun marks emitted =>
        RootsMarked objects ⟨roots.files, roots.symlinks, []⟩ (sortedSet roots.trees) marks ∧
          emitted = [] := by
    refine hloop.mono ?_
    intro marks emitted h
    refine h [] [] ⟨⟨id, ⟨fun _ h => h, fun _ h => h, fun _ h => h⟩, ?_, fun _ _ _ _ h _ => h⟩, rfl⟩
    intro digest hdigest
    cases hdigest
  refine mono (silent_bind (emits_checks (fun digest => validateFileRoot_emits digest)
    _) fun _ => silent_bind (emits_checks (fun digest => validateSymlinkRoot_emits digest) _)
      fun _ => hmarks) ?_
  rintro marks emitted ⟨⟨-, -, -, -, h⟩, rfl⟩
  exact ⟨h, rfl⟩

end Canonical

/-! ## 10. The report -/

theorem warnUnretained_emits (subj : Digest → FsckSubject) (detail : String)
    (retained stored : List Digest) :
    Emits (warnUnretained subj detail retained stored) fun _ emitted =>
      emitted = (stored.filter fun digest => digest ∉ retained).map fun digest =>
        unretained (subj digest) detail := by
  refine (emits_forM (fun digest => fsckWarning_emits _ _ _) (fun done emitted =>
    emitted = done.map fun digest => unretained (subj digest) detail) ?_ _).mono ?_
  · rintro done - digest more rfl rfl
    rw [map_append]
    rfl
  · rintro - emitted hloop
    exact hloop [] [] rfl

def Reports (findings : List FsckFinding) (subject : FsckSubject) : Prop :=
  ∃ finding ∈ findings, finding.code = .unreachableImmutableObject ∧ finding.subject = subject

theorem reports_append {first snd : List FsckFinding} {subject : FsckSubject} :
    Reports (first ++ snd) subject ↔ Reports first subject ∨ Reports snd subject := by
  simp [Reports, or_and_right, exists_or]

theorem reports_unretained {subj : Digest → FsckSubject} {detail : String}
    {retained stored : List Digest} {named : FsckSubject} :
    Reports ((stored.filter fun digest => digest ∉ retained).map fun digest =>
        unretained (subj digest) detail) named ↔
      ∃ digest ∈ stored, digest ∉ retained ∧ subj digest = named := by
  simp [Reports, unretained, and_assoc]

theorem reportTargetStatus_emits (t : StateTarget)
    (status : Except CommitError TargetStatusKind) :
    Emits (reportTargetStatus t status) fun _ emitted =>
      ∀ subject, ¬ Reports emitted subject := by
  have hdrift : ∀ (code : FsckFindingCode) (subject : FsckSubject) (detail : String),
      code ≠ .unreachableImmutableObject → Emits (fsckWarning code subject detail)
        fun _ emitted => ∀ subject, ¬ Reports emitted subject := by
    intro code subject detail hcode
    refine (fsckWarning_emits code subject detail).mono ?_
    rintro - emitted rfl other ⟨finding, hfinding, hsame, -⟩
    rw [mem_singleton.1 hfinding] at hsame
    exact hcode hsame
  cases status with
  | error reason =>
    refine mono (bind
      (counters_emits (fun _ => rfl) (fun _ => rfl) (fun _ => rfl) fun _ => rfl)
      fun _ => hdrift _ _ _ (by decide)) ?_
    rintro - emitted ⟨-, begun, rest, rfl, hrest, rfl⟩
    exact hrest
  | ok kind =>
    cases kind with
    | exact =>
      refine (emits_pure ()).mono ?_
      rintro - emitted ⟨-, rfl⟩ subject ⟨finding, hfinding, -⟩
      cases hfinding
    | modified => exact hdrift _ _ _ (by decide)
    | missing => exact hdrift _ _ _ (by decide)
    | unexpected => exact hdrift _ _ _ (by decide)

theorem observeSelectedTarget_emits (observe : TargetObserver) (canonical : CanonicalObjects)
    (going : Bool) (t : StateTarget) :
    Emits (observeSelectedTarget observe canonical going t) fun _ emitted =>
      ∀ subject, ¬ Reports emitted subject := by
  have hnone : ∀ subject, ¬ Reports [] subject := by
    rintro subject ⟨finding, hfinding, -⟩
    cases hfinding
  refine mono (bind get_emits fun scan => ite
    (emits_pure false) (unless_emits
      (never_emits (fsckError_emits _ _ _) fun _ => emits_pure false)
      (bind (counters_emits (fun _ => rfl) (fun _ => rfl) (fun _ => rfl) fun _ => rfl)
        fun _ => bind (reportTargetStatus_emits t _) fun _ =>
          emits_pure true))) ?_
  rintro r emitted ⟨scan, begun, rest, ⟨-, -, rfl⟩, hrest, rfl⟩
  rcases hrest with ⟨-, -, rfl⟩ | ⟨-, -, first, second, rfl, ⟨-, begun, last, hstatus, ⟨-, rfl⟩,
    rfl⟩, rfl⟩
  · exact hnone
  · intro subject
    show ¬ Reports (begun ++ []) subject
    rw [append_nil]
    exact hstatus subject

theorem observeSelectedTargets_emits (observe : TargetObserver) (canonical : CanonicalObjects)
    (sel : List (NamespaceName × StateGeneration)) :
    Emits (observeSelectedTargets observe canonical sel) fun _ emitted =>
      ∀ subject, ¬ Reports emitted subject := by
  have hloop := emits_foldlM
    (fun going t => observeSelectedTarget_emits observe canonical going t)
    (fun _ _ emitted => ∀ subject, ¬ Reports emitted subject)
    (by
      intro done value emitted t next more hdone hnext subject
      rw [reports_append, not_or]
      exact ⟨hdone subject, hnext subject⟩)
    (sel.flatMap fun e => e.2.targets) true
  refine mono (bind hloop fun _ => emits_pure ()) ?_
  rintro - - ⟨-, begun, -, hbegun, ⟨-, rfl⟩, rfl⟩
  rw [append_nil]
  refine hbegun [] [] ?_
  rintro subject ⟨finding, hfinding, -⟩
  cases hfinding

theorem reportUnretained_emits (world : FsckWorld) (roots : FsckAuthorityRoots)
    (marks : FsckMarks) :
    Emits (reportUnretained world roots marks) fun _ emitted => ∀ subject,
      Reports emitted subject ↔
        (∃ digest ∈ world.blobs.keys, digest ∉ roots.blobs ∧ .artifactBlob digest = subject) ∨
        (∃ digest ∈ world.packs.keys, digest ∉ roots.packs ∧ .packObject digest = subject) ∨
        (∃ digest ∈ world.canonical.files.keys, digest ∉ marks.files ∧
          .canonicalFile digest = subject) ∨
        (∃ digest ∈ world.canonical.symlinks.keys, digest ∉ marks.symlinks ∧
          .canonicalSymlink digest = subject) ∨
        ∃ digest ∈ world.canonical.trees.keys, digest ∉ marks.trees ∧
          .canonicalTree digest = subject := by
  refine mono (bind (warnUnretained_emits _ _ _ _) fun _ =>
    bind (warnUnretained_emits _ _ _ _) fun _ =>
      bind (warnUnretained_emits _ _ _ _) fun _ =>
        bind (warnUnretained_emits _ _ _ _) fun _ =>
          warnUnretained_emits _ _ _ _) ?_
  rintro - - ⟨-, -, -, rfl, ⟨-, -, -, rfl, ⟨-, -, -, rfl, ⟨-, -, -, rfl, rfl, rfl⟩, rfl⟩, rfl⟩,
    rfl⟩ subject
  simp only [reports_append, reports_unretained]

end Malm.Commit
