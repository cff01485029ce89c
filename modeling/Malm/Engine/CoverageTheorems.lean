/-
Malm.Engine.CoverageTheorems — every missing ancestor is created.

Synthesis has probed the paths that the walk to a destination opens, and the operations
stand in path order, so missing directories are created before the placements below them.
Only a request that declares something else there can prevent that.
-/
import Malm.Engine.UnmanagedTheorems

namespace Malm.Engine

open Store Commit Target Checks List

variable {key : TargetKey} {config : EngineConfig} {system : TargetSystem}
  {prev : Option StateGeneration} {observed : ObservedIdentities}
  {artifacts : List PreparedArtifact}

/-! ## 1. The walk and the probes -/

theorem probeFrom_notFound {rest : List Text} :
    ∀ {passed : List Text}, (∀ path ∈ passed, Opened config system (key.1, path)) →
      (rest = [] → system.entry key = none) →
      (∀ path ∈ rest.head?, system.entry (key.1, path) = none) →
      system.probeFrom key (passed ++ rest) = .notFound
  | path :: passed, hpassed, hend, hfirst => by
    obtain ⟨e, hentry, hkind, haccessible, -⟩ := (hpassed path mem_cons_self).passed
    rw [cons_append, TargetSystem.probeFrom, hentry]
    simp only [hkind, haccessible, ↓reduceIte]
    exact probeFrom_notFound (fun cand hcand =>
      hpassed cand (mem_cons_of_mem _ hcand)) hend hfirst
  | [], _, hend, hfirst => by
    cases rest with
    | nil =>
      rw [append_nil, TargetSystem.probeFrom, hend rfl]
      rfl
    | cons path rest =>
      have hnone := hfirst path rfl
      rw [nil_append, TargetSystem.probeFrom, hnone]

/-- The directories above a destination: the opened ones, and the missing ones below. -/
structure WalkedTo (config : EngineConfig) (system : TargetSystem) (key : TargetKey)
    (missing : List Text) : Prop where
  authority : key.1 ∈ config.targetAuthorities
  split : ∃ passed, key.2.ancestorPaths = passed ++ missing ∧
    ∀ path ∈ [] :: passed, Opened config system (key.1, path)
  first : ∀ path ∈ missing.head?, system.entry (key.1, path) = none

namespace WalkedTo

variable {key : TargetKey} {missing : List Text} {path : Text}

section

variable (h : WalkedTo config system key missing)
include h

theorem entry_eq_none (hpath : path ∈ missing) : system.entry (key.1, path) = none := by
  obtain ⟨passed, hsplit, -⟩ := h.split
  obtain ⟨front, behind, hfront⟩ := append_of_mem hpath
  cases front with
  | nil => exact h.first path (by rw [hfront]; rfl)
  | cons first front =>
    have hfirst := h.first first (by rw [hfront]; rfl)
    have habove : path.ancestorPaths = passed ++ first :: front := by
      have hlist : key.2.ancestorPaths = (passed ++ first :: front) ++ path :: behind := by
        rw [hsplit, hfront, append_assoc]
      exact ancestorPaths_split hlist
    cases hentry : system.entry (key.1, path) with
    | none => rfl
    | some e =>
      have hmem : first ∈ path.ancestorPaths := by
        rw [habove]
        simp
      have hne : path ≠ [] := by
        rintro rfl
        cases hmem
      obtain ⟨dir, hdir, -⟩ :=
        TargetSystem.directory_above hentry hne (mem_cons_of_mem _ hmem)
      rw [hfirst] at hdir
      cases hdir

theorem probe_eq_notFound (hpath : path ∈ missing) : system.probe (key.1, path) = .notFound := by
  obtain ⟨passed, hsplit, hpassed⟩ := h.split
  obtain ⟨front, behind, hfront⟩ := append_of_mem hpath
  have habove : path.ancestorPaths = passed ++ front := by
    have hlist : key.2.ancestorPaths = (passed ++ front) ++ path :: behind := by
      rw [hsplit, hfront, append_assoc]
    exact ancestorPaths_split hlist
  rw [TargetSystem.probe, directoriesAbove, habove, ← cons_append]
  refine probeFrom_notFound hpassed (fun _ => h.entry_eq_none hpath) ?_
  intro cand hcand
  refine h.entry_eq_none ?_
  rw [hfront]
  exact mem_append_left _ (mem_of_mem_head? hcand)

theorem probe_destination (hmiss : missing ≠ []) : system.probe key = .notFound := by
  obtain ⟨passed, hsplit, hpassed⟩ := h.split
  rw [TargetSystem.probe, directoriesAbove, hsplit, ← cons_append]
  exact probeFrom_notFound hpassed (fun hnil => absurd hnil hmiss) h.first

theorem mem_missing (hpath : path ∈ key.2.ancestorPaths)
    (hnone : system.entry (key.1, path) = none) : path ∈ missing := by
  obtain ⟨passed, hsplit, hpassed⟩ := h.split
  rw [hsplit] at hpath
  rcases mem_append.1 hpath with hpath | hpath
  · obtain ⟨e, hentry, -⟩ := (hpassed path (mem_cons_of_mem _ hpath)).passed
    rw [hnone] at hentry
    cases hentry
  · exact hpath

theorem mem_ancestorPaths (hpath : path ∈ missing) : path ∈ key.2.ancestorPaths := by
  obtain ⟨passed, hsplit, -⟩ := h.split
  rw [hsplit]
  exact mem_append_right _ hpath

end

end WalkedTo

variable {op : PrepareOperation}

theorem observeTarget_walked {obs : TargetObservation}
    (h : observeTarget config system prev op = .ok obs) :
    obs.key = op.key ∧
      WalkedTo config system op.key (missingPaths obs) := by
  have hat := observeTarget_ok h
  unfold observeTarget at h
  simp only [bind_ok, exists_unit, reject_ok, require_ok, asRecordError, mapError_ok, not_not] at h
  obtain ⟨-, -, root, hroot, anchor, hanchor, traversal, hwalk, -, -, hobs⟩ := h
  unfold withMissingAncestors at hobs
  simp only [bind_ok, exists_unit, pure_ok] at hobs
  obtain ⟨-, -, -, -, rfl⟩ := hobs
  obtain ⟨passed, missing, hsplit, hcount, hpassed, hfirst⟩ := walkParents_split hwalk
  have hmiss : op.key.2.ancestorPaths.drop
      (op.key.2.ancestorPaths.length - traversal.missingAncestors) = missing := by
    rw [hcount, hsplit, length_append, Nat.add_sub_cancel, drop_left]
  refine ⟨rfl, ?_⟩
  show WalkedTo config system op.key (op.key.2.ancestorPaths.drop
    (op.key.2.ancestorPaths.length - traversal.missingAncestors))
  rw [hmiss]
  refine ⟨hat.authority, ⟨passed, hsplit, ?_⟩, hfirst⟩
  intro path hpath
  rcases mem_cons.1 hpath with rfl | hpath
  · exact (openTargetDirectory_ok hroot hanchor).1
  · exact hpassed path hpath

theorem observeOperation_walked {placed : PrepareOperation} {op : PreparedOperation}
    (h : observeOperation config system prev placed = .ok op) :
    WalkedTo config system op.key (missingPaths op.observation) := by
  unfold observeOperation at h
  rw [bind_ok] at h
  obtain ⟨obs, hobserve, hprep⟩ := h
  obtain ⟨hkey, hwalked⟩ := observeTarget_walked hobserve
  have hobs := observation_of_prepared hprep
  have hsame : op.key = placed.key := by
    rw [← hkey, ← hobs]
    rfl
  rw [hsame, hobs]
  exact hwalked

/-! ## 2. The directories that are declared -/

def declaresDirectory : PrepareOperation → Bool
  | .ensureDirectory _ _ _ _ => true
  | .assertExact _ _ (.directory _) => true
  | _ => false

/-- Above a declared placement only directories are declared. -/
def DirectoriesAbove (requested : List PrepareOperation) : Prop :=
  ∀ placement ∈ requested, placement.declaresAbsence = false →
    ∀ other ∈ requested, other.key ∈ keysAbove placement.key → declaresDirectory other = true

instance (requested : List PrepareOperation) : Decidable (DirectoriesAbove requested) :=
  inferInstanceAs (Decidable (∀ placement ∈ requested, placement.declaresAbsence = false →
    ∀ other ∈ requested, other.key ∈ keysAbove placement.key → declaresDirectory other = true))

theorem synthesizeFrom_covers {decl : List TargetKey} (hauth : key.1 ∈ config.targetAuthorities)
    (hprobe : system.probe key = .notFound) (hdecl : key ∉ decl) :
    ∀ {keys missingRoots : List TargetKey} {operations : List PrepareOperation},
      synthesizeFrom config system prev decl keys missingRoots = .ok operations →
      key ∈ keys →
      ∃ mode, .ensureDirectory key.1 key.2 mode false ∈ operations
  | first :: rest, missingRoots, operations, h, hkey => by
    -- Another key than this one leaves it to the rest.
    have hlater : ∀ {roots : List TargetKey} {later : List PrepareOperation},
        first ≠ key → synthesizeFrom config system prev decl rest roots = .ok later →
        ∃ mode, .ensureDirectory key.1 key.2 mode false ∈ later := by
      intro roots later hne hrest
      have hmem := (mem_cons.1 hkey).resolve_left (Ne.symm hne)
      exact synthesizeFrom_covers hauth hprobe hdecl hrest hmem
    unfold synthesizeFrom at h
    split at h
    · rename_i hfirst
      refine hlater ?_ h
      rintro rfl
      exact hdecl hfirst
    · split at h
      · rename_i mode hmode
        simp only [bind_ok, pure_ok] at h
        obtain ⟨ensured, hchecked, later, hrest, rfl⟩ := h
        obtain rfl := checked_ok hchecked
        by_cases hsame : first = key
        · exact ⟨mode, by rw [hsame]; exact mem_cons_self⟩
        · obtain ⟨mode', hmem⟩ := hlater hsame hrest
          exact ⟨mode', mem_cons_of_mem _ hmem⟩
      · split at h
        · simp only [bind_ok, pure_ok] at h
          obtain ⟨ensured, hchecked, later, hrest, rfl⟩ := h
          obtain rfl := checked_ok hchecked
          by_cases hsame : first = key
          · exact ⟨synthesizedDirectoryMode, by rw [hsame]; exact mem_cons_self⟩
          · obtain ⟨mode', hmem⟩ := hlater hsame hrest
            exact ⟨mode', mem_cons_of_mem _ hmem⟩
        · rename_i hmiss
          refine hlater ?_ h
          rintro rfl
          exact hmiss (by simp [isMissing, hauth, hprobe])

theorem mem_ancestorKeys_of_declared {req : List PrepareOperation}
    {placement : PrepareOperation} (hplacement : placement ∈ req)
    (hpres : placement.declaresAbsence = false) (habove : key ∈ keysAbove placement.key) :
    key ∈ ancestorKeys config system prev req := by
  have hdecl : placement.key ∈ declaredPresent req :=
    mem_map_of_mem (mem_filter.2 ⟨hplacement, by simp [hpres]⟩)
  refine mem_map.2 ⟨toLex key, mem_sortedSet.2 (mem_map_of_mem ?_), rfl⟩
  exact mem_append_left _ (mem_flatMap.2 ⟨placement.key, hdecl, habove⟩)

theorem declaredState_declaresDirectory {state : Option StateTargetState}
    (hdir : declaresDirectory op = true)
    (h : declaredState prev artifacts op = .ok state) :
    ∃ dir, state = some (.directory (some dir)) := by
  cases op with
  | ensureDirectory auth path mode replaces =>
    exact ⟨_, declaredState_directory h⟩
  | assertExact auth path view =>
    cases view with
    | directory mode =>
      simp only [declaredState, targetStateRecord, bind_ok, exists_unit, pure_ok] at h
      obtain ⟨found, ⟨-, rfl⟩, rfl⟩ := h
      exact ⟨_, rfl⟩
    | _ => cases hdir
  | _ => cases hdir

theorem declaresAbsence_of_declaredState {s : StateTargetState}
    (h : declaredState prev artifacts op = .ok (some s))
    (hpres : s.isPresent = true) : op.declaresAbsence = false := by
  cases op with
  | removeLeaf auth path =>
    simp only [declaredState, Except.ok.injEq] at h
    obtain ⟨t, -, rfl⟩ := Option.map_eq_some_iff.1 h
    rcases t with ⟨authority', relativePath', s⟩
    cases s <;> cases hpres
  | assertAbsent auth path => cases h
  | _ => rfl

/-! ## 3. The directories that are created -/

namespace ManifestParts

variable {req synthesized : List PrepareOperation} {next : DesiredSnapshot}
  {required : List RequiredTargetMutation} {derived absences : List PreparedOperation}

variable {op : PreparedOperation}

section

variable
  (h : ManifestParts config system prev artifacts req synthesized next required derived absences)
include h

theorem absent_shaped (hop : op ∈ absences) : absenceShaped op = true := by
  obtain ⟨decl, -, habsence, hobs⟩ := h.absent op hop
  obtain ⟨obs, -, hprep⟩ := observeOperation_ok hobs
  cases decl with
  | removeLeaf auth path =>
    cases hprep
    rfl
  | assertAbsent auth path =>
    cases hprep
    rfl
  | _ => cases habsence

theorem created_of_effective {dir : StateDirectory}
    (heffective : effectiveTarget (some (.enabled, next)) key = some (.directory (some dir)))
    (hnone : system.entry key = none) : ∃ op ∈ derived, createdBy op = [key] := by
  have habsent : ∀ {obs : TargetObservation}, ObservedLeaf system key obs →
      obs.leaf = .absent := by
    intro obs hleaf
    rw [hleaf.leaf, hnone]
    rfl
  by_cases hsame : effectiveTarget (effectiveState prev) key =
      some (.directory (some dir))
  · -- The directory was there before: it is asserted, and the assertion restores it.
    have hmem : .assertExact key.1 key.2 (.directory (some dir)) ∈
        required := by
      refine (mem_required h.mutations).2 ?_
      show expectedMutation key _ _ (effectiveTarget (some (.enabled, next)) key) = _
      rw [heffective, expectedMutation_some]
      exact congrArg some (if_pos hsame)
    obtain ⟨op, hop, hderivation⟩ := exists_right_of_forall₂ h.derivations hmem
    refine ⟨op, hop, ?_⟩
    cases hderivation with
    | asserted hleaf hpres =>
      rw [habsent hleaf] at hpres
      cases hpres
    | restoredDirectory hleaf => exact congrArg (fun key => [key]) hleaf.destination
  · have hmem : .ensureDirectory key.1 key.2 dir.mode ∈ required := by
      refine (mem_required h.mutations).2 ?_
      show expectedMutation key _ _ (effectiveTarget (some (.enabled, next)) key) = _
      rw [heffective, expectedMutation_some]
      exact congrArg some (if_neg hsame)
    obtain ⟨op, hop, hderivation⟩ := exists_right_of_forall₂ h.derivations hmem
    refine ⟨op, hop, ?_⟩
    cases hderivation with
    | directory hleaf => exact congrArg (fun key => [key]) hleaf.destination
    | adopted hleaf howned hrequest =>
      rw [habsent hleaf] at hrequest
      cases hrequest

theorem effective_of_placed (hop : op ∈ derived)
    (hshape : absenceShaped op = false) :
    ∃ target ∈ next.targets, target.key = op.key ∧ target.isPresent = true := by
  obtain ⟨mutation, hmut, hderivation⟩ := exists_left_of_forall₂ h.derivations hop
  have hexp := (mem_required h.mutations).1 hmut
  rw [← hderivation.key] at hexp
  cases hafter : effectiveTarget (some (.enabled, next)) op.key with
  | some state =>
    obtain ⟨lifecycle, snapshot, target, hstate, -, hmem, hkey, rfl⟩ :=
      mem_of_effectiveTarget hafter
    cases hstate
    exact ⟨target, hmem, hkey, effectiveTarget_isPresent hafter⟩
  | none =>
    -- A slot that is not in the snapshot is removed.
    rw [hafter] at hexp
    have hrem : mutation = .removeLeaf op.key.1 op.key.2 := by
      cases hbefore : effectiveTarget (effectiveState prev) op.key with
      | none =>
        rw [hbefore] at hexp
        cases hexp
      | some before =>
        rw [hbefore, expectedMutation_removed] at hexp
        split at hexp
        · cases hexp
        · exact (Option.some.inj hexp).symm
    have habsence := congrArg Destination.absence hderivation.destination
    rw [hrem] at habsence
    have htrue : absenceShaped op = true := habsence
    rw [hshape] at htrue
    cases htrue

theorem declared_below (hop : op ∈ derived)
    (hshape : absenceShaped op = false) {missing : List Text} {path : Text}
    (hwalked : WalkedTo config system op.key missing) (hpath : path ∈ missing) :
    ∃ placement ∈ req, placement.declaresAbsence = false ∧
      (op.key.1, path) ∈ keysAbove placement.key := by
  have habove : path.isAncestor op.key.2 = true :=
    mem_ancestorPaths_iff.1 (hwalked.mem_ancestorPaths hpath)
  obtain ⟨t, htarget, hkey, hpres⟩ := h.effective_of_placed hop hshape
  rcases h.toDerived.slot htarget with ⟨decl, hdecl, hsame, hstate⟩ |
      ⟨gen, -, before, -, rfl⟩
  · have hkeys : decl.key = op.key := hsame.symm.trans hkey
    rcases mem_append.1 hdecl with hrequested | hsynthesized
    · refine ⟨decl, hrequested, declaresAbsence_of_declaredState hstate hpres, ?_⟩
      rw [hkeys]
      exact mem_keysAbove.2 ⟨rfl, habove⟩
    · rcases mem_ancestorKeys (h.toDerived.of_synthesized decl hsynthesized).above with
          ⟨placement, hplacement, hplaced, hbelow⟩ | ⟨gen, -, -, -, -, -, -, hexists⟩
      · refine ⟨placement, hplacement, hplaced, ?_⟩
        rw [hkeys] at hbelow
        obtain ⟨hauth, hbelow⟩ := mem_keysAbove.1 hbelow
        exact mem_keysAbove.2 ⟨hauth, isAncestor_trans habove hbelow⟩
      · -- An owned directory that is kept still exists, and so does all above it.
        have hprobe := hwalked.probe_destination (ne_nil_of_mem hpath)
        rw [hkeys] at hexists
        simp [targetLeafExists, hwalked.authority, hprobe] at hexists
  · simp [StateTarget.isPresent, StateTarget.tombstone] at hpres

/-- A missing directory above a declared placement is created. -/
theorem created_above {placement : PrepareOperation} (hplacement : placement ∈ req)
    (hpres : placement.declaresAbsence = false) (habove : key ∈ keysAbove placement.key)
    (hdirectories : ∀ other ∈ req, other.key = key → declaresDirectory other = true)
    (hauth : key.1 ∈ config.targetAuthorities) (hprobe : system.probe key = .notFound)
    (hnone : system.entry key = none) : ∃ creation ∈ derived, createdBy creation = [key] := by
  have hdecl : ∃ decl ∈ req ++ synthesized,
      decl.key = key ∧ declaresDirectory decl = true := by
    by_cases hasked : key ∈ req.map PrepareOperation.key
    · obtain ⟨other, hother, hkey⟩ := mem_map.1 hasked
      exact ⟨other, mem_append_left _ hother, hkey, hdirectories other hother hkey⟩
    · obtain ⟨mode, hmode⟩ := synthesizeFrom_covers hauth hprobe hasked h.directories
        (mem_ancestorKeys_of_declared hplacement hpres habove)
      exact ⟨_, mem_append_right _ hmode, rfl, rfl⟩
  obtain ⟨decl, hmem, hkey, hdir⟩ := hdecl
  obtain ⟨s, hstate, heffective⟩ := h.toDerived.effective_of_declared hmem
  obtain ⟨dir, rfl⟩ := declaredState_declaresDirectory hdir hstate
  have hslot := heffective _ rfl rfl
  rw [hkey] at hslot
  exact h.created_of_effective hslot hnone

theorem missing_created (hdirectories : DirectoriesAbove req)
    (hop : op ∈ derived) (hshape : absenceShaped op = false)
    {missing : List Text} {path : Text} (hwalked : WalkedTo config system op.key missing)
    (hpath : path ∈ missing) :
    ∃ creation ∈ derived, createdBy creation = [(op.key.1, path)] := by
  obtain ⟨placement, hplacement, hpres, habove⟩ :=
    h.declared_below hop hshape hwalked hpath
  refine h.created_above hplacement hpres habove ?_ hwalked.authority
    (hwalked.probe_eq_notFound hpath) (hwalked.entry_eq_none hpath)
  intro other hother hkey
  rw [← hkey] at habove
  exact hdirectories placement hplacement hpres other hother habove

end

end ManifestParts

/-! ## 4. The order of the operations -/

theorem toLex_lt_of_above {above : TargetKey} (h : above ∈ keysAbove key) :
    toLex above < toLex key := by
  obtain ⟨hauth, hbelow⟩ := mem_keysAbove.1 h
  obtain ⟨rest, hrest⟩ := Text.isAncestor_iff.1 hbelow
  have hle : above.2 ≤ key.2 := Segments.le_of_isPrefixOf ⟨'/' :: rest, hrest.symm⟩
  have hne : above.2 ≠ key.2 := by
    intro hsame
    rw [hsame, isAncestor_irrefl] at hbelow
    cases hbelow
  exact Prod.Lex.toLex_lt_toLex.2 (.inr ⟨hauth, lt_of_le_of_ne hle hne⟩)

theorem unionKeys_increasing {before : Option EffectiveState} {next : DesiredSnapshot} :
    (unionKeys before next).Pairwise fun left right => toLex left < toLex right := by
  have hsorted : (unionKeys before next).Pairwise fun left right => toLex left ≤ toLex right :=
    pairwise_insertionSort _ _
  refine (hsorted.and nodup_unionKeys).imp ?_
  intro left right h
  exact lt_of_le_of_ne h.1 fun hsame => h.2 (toLex.injective hsame)

/-- Operations in the order of their destinations, with the absences behind them. -/
def InOrder (operations : List PreparedOperation) : Prop :=
  operations.Pairwise fun left right =>
    absenceShaped right = true ∨ toLex left.key < toLex right.key

theorem ManifestParts.inOrder {req synthesized : List PrepareOperation}
    {next : DesiredSnapshot} {required : List RequiredTargetMutation}
    {derived absences : List PreparedOperation}
    (h : ManifestParts config system prev artifacts req synthesized next required
      derived absences) : InOrder (derived ++ absences) := by
  have hkeys : (derived.map PreparedOperation.key).Pairwise fun left right =>
      toLex left < toLex right := by
    rw [map_key_of_derivations h.derivations]
    exact unionKeys_increasing.sublist (required_keys_sublist h.mutations)
  refine pairwise_append.2 ⟨(pairwise_map.1 hkeys).imp .inr, ?_, ?_⟩
  · exact pairwise_of_forall_mem_list fun left _ right hright =>
      .inl (h.absent_shaped hright)
  · exact fun left _ right hright => .inl (h.absent_shaped hright)

namespace InOrder

variable {operations front behind : List PreparedOperation} {op creation : PreparedOperation}

theorem mem_front (h : InOrder (front ++ op :: behind))
    (hmem : creation ∈ front ++ op :: behind) (hcreates : createdBy creation = [key])
    (habove : key ∈ keysAbove op.key) :
    creation ∈ front := by
  have hkey : creation.key = key ∧ absenceShaped creation = false := by
    cases creation with
    | ensureDirectory obs mode => exact ⟨head_eq_of_cons_eq hcreates, rfl⟩
    | _ => cases hcreates
  have hlt := toLex_lt_of_above habove
  rw [← hkey.1] at hlt
  rcases mem_append.1 hmem with hfront | hrest
  · exact hfront
  · exfalso
    rcases mem_cons.1 hrest with rfl | hbehind
    · exact lt_irrefl _ hlt
    · obtain ⟨-, hordered, -⟩ := pairwise_append.1 h
      rcases (pairwise_cons.1 hordered).1 creation hbehind with habsence | hafter
      · rw [hkey.2] at habsence
        cases habsence
      · exact lt_asymm hlt hafter

theorem created_nodup (h : InOrder operations) : (operations.flatMap createdBy).Nodup := by
  refine nodup_flatMap.2 ⟨?_, List.Pairwise.imp ?_ h⟩
  · intro op _
    cases op <;> simp [createdBy]
  · intro left right hordered key hleft hright
    cases left with
    | ensureDirectory first mode =>
      cases right with
      | ensureDirectory snd mode' =>
        obtain rfl := mem_singleton.1 hleft
        have hsame : first.key = snd.key := mem_singleton.1 hright
        rcases hordered with habsence | hlt
        · cases habsence
        · have hlt : toLex first.key < toLex snd.key := hlt
          rw [hsame] at hlt
          exact lt_irrefl _ hlt
      | _ => cases hright
    | _ => cases hleft

end InOrder

/-! ## 5. Coverage -/

theorem coveredBy_ok {created : List TargetKey} {op : PreparedOperation} :
    coveredBy created op = .ok () ↔
      (absenceShaped op = false → ∀ path ∈ missingPaths op.observation,
        (op.key.1, path) ∈ created) := by
  simp only [coveredBy, when_ok, rejectSome_ok, List.find?_eq_none, decide_eq_true_eq, not_not]
  exact Iff.rfl

theorem coverageFrom_ok : ∀ {operations : List PreparedOperation} {created : List TargetKey},
    coverageFrom created operations = .ok () ↔
      ∀ front op behind, operations = front ++ op :: behind →
        absenceShaped op = false → ∀ path ∈ missingPaths op.observation,
          (op.key.1, path) ∈ created ∨ (op.key.1, path) ∈ front.flatMap createdBy
  | [], created => by
    refine ⟨fun _ front op behind h => ?_, fun _ => rfl⟩
    cases front <;> cases h
  | first :: rest, created => by
    rw [coverageFrom, bind_ok, exists_unit, coveredBy_ok, coverageFrom_ok]
    constructor
    · intro h front op behind hsplit hshape path hpath
      obtain ⟨hfirst, hrest⟩ := h
      cases front with
      | nil =>
        obtain ⟨rfl, rfl⟩ := cons.inj hsplit
        exact .inl (hfirst hshape path hpath)
      | cons other front =>
        rw [cons_append, cons.injEq] at hsplit
        obtain ⟨rfl, hsplit⟩ := hsplit
        rw [flatMap_cons, mem_append]
        have hlater := hrest front op behind hsplit hshape path hpath
        rw [mem_append] at hlater
        tauto
    · intro h
      constructor
      · intro hshape path hpath
        simpa using h [] first rest rfl hshape path hpath
      · intro front op behind hsplit hshape path hpath
        have hlater := h (first :: front) op behind (by rw [hsplit]; rfl) hshape path hpath
        rw [flatMap_cons, mem_append] at hlater
        rw [mem_append]
        tauto

/-- Where only directories are declared above declared placements, coverage is accepted, every
missing ancestor of a placement is created before it, and no directory twice. -/
theorem missing_ancestors_covered {req : List PrepareOperation} {next : DesiredSnapshot}
    {operations : List PreparedOperation} (hdirectories : DirectoriesAbove req)
    (hderived : derivedManifest config system prev observed artifacts req =
      .ok (next, operations)) :
    verifyMissingAncestorCoverage operations = .ok () ∧
      (∀ front op behind, operations = front ++ op :: behind →
        absenceShaped op = false → ∀ path ∈ op.key.2.ancestorPaths,
          system.entry (op.key.1, path) = none →
            ∃ creation ∈ front, createdBy creation = [(op.key.1, path)]) ∧
      (operations.flatMap createdBy).Nodup := by
  obtain ⟨synthesized, required, derived, absences, rfl, hparts⟩ := derivedManifest_parts hderived
  -- Whatever the walk to a placement missed is created before the placement.
  have hcreated : ∀ front op behind, derived ++ absences = front ++ op :: behind →
      absenceShaped op = false →
        WalkedTo config system op.key (missingPaths op.observation) ∧
          ∀ path ∈ missingPaths op.observation,
            ∃ creation ∈ front, createdBy creation = [(op.key.1, path)] := by
    intro front op behind hsplit hshape
    have hmem : op ∈ derived := by
      have hboth : op ∈ derived ++ absences := by
        rw [hsplit]
        exact mem_append_right _ mem_cons_self
      rcases mem_append.1 hboth with hmem | hmem
      · exact hmem
      · rw [hparts.absent_shaped hmem] at hshape
        cases hshape
    obtain ⟨placed, hobs⟩ := hparts.observed op hmem
    have hwalked := observeOperation_walked hobs
    refine ⟨hwalked, fun path hpath => ?_⟩
    obtain ⟨creation, hcreation, hcreates⟩ :=
      hparts.missing_created hdirectories hmem hshape hwalked hpath
    have hordered := hparts.inOrder
    have hboth := mem_append_left absences hcreation
    rw [hsplit] at hordered hboth
    refine ⟨creation, hordered.mem_front hboth hcreates ?_, hcreates⟩
    exact mem_keysAbove.2 ⟨rfl, mem_ancestorPaths_iff.1 (hwalked.mem_ancestorPaths hpath)⟩
  refine ⟨?_, ?_, hparts.inOrder.created_nodup⟩
  · refine coverageFrom_ok.2 fun front op behind hsplit hshape path hpath => .inr ?_
    obtain ⟨creation, hcreation, hcreates⟩ :=
      (hcreated front op behind hsplit hshape).2 path hpath
    refine mem_flatMap.2 ⟨creation, hcreation, ?_⟩
    rw [hcreates]
    exact mem_singleton_self _
  · intro front op behind hsplit hshape path hpath hnone
    obtain ⟨hwalked, hcover⟩ := hcreated front op behind hsplit hshape
    exact hcover path (hwalked.mem_missing hpath hnone)

/-- A file two missing directories below the existing one. -/
def nestedRequest : List PrepareOperation :=
  [.placeFile ['h'] ['d', '/', 'x', '/', 'y', '/', 'f'] ['a'] 0o600 false]

theorem missing_ancestors_covered_nested :
    ∃ next operations,
      derivedManifest sampleConfig directorySystem (some (enabledGeneration []))
          (fun _ => none) directoryArtifacts nestedRequest = .ok (next, operations) ∧
      verifyMissingAncestorCoverage operations = .ok () ∧
      operations.flatMap createdBy = [(['h'], ['d', '/', 'x']), (['h'], ['d', '/', 'x', '/', 'y'])] ∧
      (operations.flatMap createdBy).Nodup := by
  have hcheck : okAnd (derivedManifest sampleConfig directorySystem
      (some (enabledGeneration [])) (fun _ => none) directoryArtifacts nestedRequest)
      (fun derived => derived.2.flatMap createdBy =
        [(['h'], ['d', '/', 'x']), (['h'], ['d', '/', 'x', '/', 'y'])]) = true := by
    decide +kernel
  obtain ⟨⟨next, operations⟩, hderived, hcreated⟩ := okAnd_iff.1 hcheck
  obtain ⟨hcovered, -, hnodup⟩ := missing_ancestors_covered (by decide +kernel) hderived
  exact ⟨next, operations, hderived, hcovered, of_decide_eq_true hcreated, hnodup⟩

end Malm.Engine
