/-
Malm.Engine.ReconstructTheorems — a graph is rebuilt from what its
preparation recorded.

The proof follows the phases of `reconstruct_graph`: the profiles and packs of the
inputs are those of the lock, a candidate search finds the node the lock binds, and
the walk reaches every node with its edges. Collision freedom is needed where an
identity is taken back to its source.
-/
import Malm.Engine.ProfileSwitch
import Malm.Pack.LockTheorems

namespace Malm.Engine

open Store Pack Checks List SortedMap Except Function LockedDependency LockedComponent

/-- Node identities determine source, package and content. -/
def CollisionFree (codec : LockCodec) : Prop :=
  ∀ source packageId digest source' packageId' digest',
    codec.nodeId source packageId digest = codec.nodeId source' packageId' digest' →
      source = source' ∧ packageId = packageId' ∧ digest = digest'

/-- The inputs of a graph and others, which name no pack and no component profile. -/
def Records (inputCodec : InputCodec) {codec : LockCodec} (graph : AssembledLockedGraph codec)
    (inputs : List PreparedInput) : Prop :=
  ∃ others, inputs.Perm (graphInputs inputCodec graph ++ others) ∧
    ∀ input ∈ others, input.kind ≠ .source ∧
      stripName lockedComponentProfileName input.name = none ∧
      input.name ≠ lockedComponentProfilesInput

/-! ## 1. Lists -/

theorem exists_map_of_perm_map {α β : Type} {f : α → β} {images : List β} {elements : List α}
    (h : images.Perm (elements.map f)) :
    ∃ elements' : List α, elements'.Perm elements ∧ images = elements'.map f := by
  have hforall : List.Forall₂ (fun image e => image = f e) (elements.map f) elements := by
    rw [forall₂_map_left_iff, forall₂_same]
    exact fun _ _ => rfl
  obtain ⟨elements', himages, hperm⟩ := perm_comp_forall₂ h hforall
  refine ⟨elements', hperm, ?_⟩
  rw [← forall₂_eq_eq_eq, forall₂_map_right_iff]
  exact himages

theorem foldlM_filter {ε α β : Type} {f : β → α → Except ε β} {p : α → Bool} :
    ∀ {xs : List α} {start : β}, (∀ x ∈ xs, p x = false → ∀ state, f state x = .ok state) →
      xs.foldlM f start = (xs.filter p).foldlM f start
  | [], _, _ => rfl
  | x :: xs, start, h => by
    have hrest : ∀ y ∈ xs, p y = false → ∀ state, f state y = .ok state :=
      fun y hy => h y (mem_cons_of_mem _ hy)
    cases hx : p x with
    | false =>
      rw [foldlM_cons, h x mem_cons_self hx, filter_cons_of_neg (by simp [hx])]
      exact foldlM_filter hrest
    | true =>
      rw [filter_cons_of_pos hx, foldlM_cons, foldlM_cons]
      exact congrArg (f start x >>= ·) (funext fun mid => foldlM_filter hrest)

theorem filter_eq_singleton {α : Type} {p : α → Bool} {e : α} :
    ∀ {es : List α}, es.Nodup → e ∈ es → p e = true →
      (∀ other ∈ es, p other = true → other = e) → es.filter p = [e]
  | [], _, hmem, _, _ => by cases hmem
  | first :: rest, hnodup, hmem, hp, hunique => by
    rw [nodup_cons] at hnodup
    by_cases heq : first = e
    · subst heq
      rw [filter_cons_of_pos hp]
      congr 1
      rw [filter_eq_nil_iff]
      intro other hother hpother
      have := hunique other (mem_cons_of_mem _ hother) hpother
      exact hnodup.1 (this ▸ hother)
    · have hfirst : ¬ p first = true := fun hpfirst => heq (hunique first mem_cons_self hpfirst)
      rw [filter_cons_of_neg hfirst]
      refine filter_eq_singleton hnodup.2 ((mem_cons.1 hmem).resolve_left (Ne.symm heq)) hp ?_
      exact fun other hother => hunique other (mem_cons_of_mem _ hother)

theorem foldl_insert_perm {κ α : Type} [LinearOrder κ] {left right : List (κ × α)}
    (h : left.Perm right) (hnodup : (right.map Prod.fst).Nodup) :
    left.foldl (fun map e => map.insert e.1 e.2) empty =
      right.foldl (fun map e => map.insert e.1 e.2) empty := by
  refine ext_get? fun key => Option.ext fun v => ?_
  rw [get?_foldl_insert hnodup, get?_foldl_insert ((h.map Prod.fst).nodup_iff.2 hnodup), h.mem_iff,
    (h.map Prod.fst).mem_iff]

/-! ## 2. Component profiles -/

section Profiles

variable {ε : Type}

def componentKey (entry : PackNodeId × LockedComponent) : PackNodeId ×ₗ ContributionName :=
  toLex (entry.1, entry.2.name)

def componentText (entry : PackNodeId × LockedComponent) : Text :=
  componentProfileName entry.1 entry.2.name

def componentInput (entry : PackNodeId × LockedComponent) : PreparedInput :=
  ⟨.other, componentText entry, entry.2.executionProfile⟩

theorem parseComponentProfile_text (nodeId : PackNodeId) (name : ContributionName) :
    parseComponentProfile (ε := ε) (digestText nodeId ++ ':' :: name.val) = .ok (nodeId, name) := by
  simp only [parseComponentProfile, splitOnce_append (colon_notMem_digestText nodeId),
    parseDigest_digestText, contributionName_val, require, ok_bind, pure_eq]

theorem componentKey_of_text {left right : PackNodeId × LockedComponent}
    (h : componentText left = componentText right) : componentKey left = componentKey right := by
  have htext := append_cancel_left h
  have hparse := parseComponentProfile_text (ε := Unit) left.1 left.2.name
  rw [htext, parseComponentProfile_text] at hparse
  injection hparse with hpair
  rw [componentKey, componentKey, hpair]

theorem foldlM_collectProfile :
    ∀ {comps : List (PackNodeId × LockedComponent)} {encoded : SortedMap Text Digest}
      {profs : ComponentProfiles},
      (comps.map componentKey).Nodup →
      (∀ e ∈ comps, componentText e ∉ encoded.keys) →
      (∀ e ∈ comps, componentKey e ∉ profs.keys) →
      (comps.map componentInput).foldlM (collectProfile (ε := ε)) (encoded, profs) =
        .ok ((comps.map fun e => (componentText e, e.2.executionProfile)).foldl
              (fun map e => map.insert e.1 e.2) encoded,
            (comps.map fun e => (componentKey e, e.2.executionProfile)).foldl
              (fun map e => map.insert e.1 e.2) profs)
  | [], _, _, _, _, _ => rfl
  | first :: rest, encoded, profs, hnodup, htexts, hkeys => by
    rw [map_cons, nodup_cons] at hnodup
    have hfirst : collectProfile (ε := ε) (encoded, profs) (componentInput first) =
        .ok (encoded.insert (componentText first) first.2.executionProfile,
          profs.insert (componentKey first) first.2.executionProfile) := by
      have htext : ¬ encoded.contains (componentText first) = true := by
        rw [SortedMap.contains_iff]
        exact htexts first mem_cons_self
      have hkey : ¬ profs.contains (componentKey first) = true := by
        rw [SortedMap.contains_iff]
        exact hkeys first mem_cons_self
      have hstrip : stripName lockedComponentProfileName (componentText first) =
          some (digestText first.1 ++ ':' :: first.2.name.val) := stripName_append _ _
      simp only [collectProfile, componentInput, hstrip, parseComponentProfile_text]
      simp only [componentText, componentKey] at htext hkey ⊢
      simp [reject, htext, hkey, ok_bind, pure_eq]
    rw [map_cons, foldlM_cons, hfirst]
    have hdistinct : ∀ e ∈ rest, componentKey e ≠ componentKey first := by
      intro e hentry heq
      exact hnodup.1 (heq ▸ mem_map_of_mem hentry)
    refine foldlM_collectProfile hnodup.2 (fun e hentry => ?_) fun e hentry => ?_
    · rw [mem_keys_insert, not_or]
      refine ⟨fun heq => hdistinct e hentry (componentKey_of_text heq), ?_⟩
      exact htexts e (mem_cons_of_mem _ hentry)
    · rw [mem_keys_insert, not_or]
      exact ⟨hdistinct e hentry, hkeys e (mem_cons_of_mem _ hentry)⟩

theorem componentKeys_nodup {codec : LockCodec} (graph : AssembledLockedGraph codec) :
    ((lockedComponents graph).map componentKey).Nodup := by
  rw [lockedComponents, map_flatMap, nodup_flatMap]
  constructor
  · intro node _
    have hnames : (node.components.map name).Nodup :=
      node.names_sorted.imp fun h => ne_of_lt h
    refine List.Nodup.of_map (fun key : PackNodeId ×ₗ ContributionName => (ofLex key).2) ?_
    rw [map_map, map_map]
    exact hnames
  · have hids := pairwise_map.1 graph.lock.nodeIds_nodup
    refine hids.imp fun {left right} hne => ?_
    intro key hleft hright
    simp only [map_map, mem_map, comp_apply, componentKey] at hleft hright
    obtain ⟨_, -, rfl⟩ := hleft
    obtain ⟨_, -, heq⟩ := hright
    exact hne (congrArg (fun key => (ofLex key).1) heq).symm

theorem stripName_packInput (rest : Text) :
    stripName lockedComponentProfileName (packInputName ++ rest) = none := rfl

theorem packInput_ne_profiles (rest : Text) :
    packInputName ++ rest ≠ lockedComponentProfilesInput := by
  intro h
  have hstrip := stripName_append packInputName rest
  have hnone : stripName packInputName lockedComponentProfilesInput = none := rfl
  rw [h, hnone] at hstrip
  cases hstrip

theorem stripName_componentText (e : PackNodeId × LockedComponent) :
    stripName lockedComponentProfileName (componentText e) =
      some (digestText e.1 ++ ':' :: e.2.name.val) :=
  stripName_append _ _

theorem componentText_ne_profiles (e : PackNodeId × LockedComponent) :
    componentText e ≠ lockedComponentProfilesInput := by
  intro h
  have hstrip := stripName_componentText e
  have hnone : stripName lockedComponentProfileName lockedComponentProfilesInput = none := rfl
  rw [h, hnone] at hstrip
  cases hstrip

def lockedProfiles {codec : LockCodec} (graph : AssembledLockedGraph codec) : ComponentProfiles :=
  ((lockedComponents graph).map fun entry => (componentKey entry, entry.2.executionProfile)).foldl
    (fun map entry => map.insert entry.1 entry.2) .empty

/-- The names and profiles of the components of a lock. -/
def profileTexts {codec : LockCodec} (graph : AssembledLockedGraph codec) : SortedMap Text Digest :=
  ((lockedComponents graph).map fun entry => (componentText entry, entry.2.executionProfile)).foldl
    (fun map entry => map.insert entry.1 entry.2) .empty

def profilesSummary (inputCodec : InputCodec) {codec : LockCodec}
    (graph : AssembledLockedGraph codec) : PreparedInput :=
  ⟨.other, lockedComponentProfilesInput, inputCodec.profilesDigest (profileTexts graph).entries⟩

section Recorded

variable {inputCodec : InputCodec} {codec : LockCodec} {graph : AssembledLockedGraph codec}
  {inputs : List PreparedInput}

theorem mem_packInputs {input : PreparedInput} (h : input ∈ packInputs graph) :
    ∃ node : LockedPack codec, input = packInput node := by
  obtain ⟨nodeId, -, hinput⟩ := mem_filterMap.1 h
  obtain ⟨node, -, rfl⟩ := Option.map_eq_some_iff.1 hinput
  exact ⟨node, rfl⟩

theorem graphInputs_eq : graphInputs inputCodec graph =
    ⟨.lock, lockInputName, graph.graphDigest⟩ :: (packInputs graph ++
      ((lockedComponents graph).map componentInput ++ [profilesSummary inputCodec graph])) := by
  simp [graphInputs, lockedComponentProfileInputs, profilesSummary, profileTexts, componentInput,
    componentText, comp_def]

section

variable (h : Records inputCodec graph inputs)
include h

theorem Records.filter_summary :
    inputs.filter (fun input => input.name = lockedComponentProfilesInput) =
      [profilesSummary inputCodec graph] := by
  obtain ⟨others, hperm, hothers⟩ := h
  rw [graphInputs_eq] at hperm
  have hpacks : (packInputs graph).filter
      (fun input => input.name = lockedComponentProfilesInput) = [] := by
    rw [filter_eq_nil_iff]
    intro input hinput
    obtain ⟨node, rfl⟩ := mem_packInputs hinput
    exact decide_eq_true_iff.not.2 (packInput_ne_profiles (digestText node.nodeId))
  have hcomponents : ((lockedComponents graph).map componentInput).filter
      (fun input => input.name = lockedComponentProfilesInput) = [] := by
    rw [filter_eq_nil_iff]
    intro input hinput
    obtain ⟨e, -, rfl⟩ := mem_map.1 hinput
    exact decide_eq_true_iff.not.2 (componentText_ne_profiles e)
  have hrest : others.filter (fun input => input.name = lockedComponentProfilesInput) = [] := by
    rw [filter_eq_nil_iff]
    intro input hinput
    simpa using (hothers input hinput).2.2
  have hlock : ¬ lockInputName = lockedComponentProfilesInput := by decide
  refine perm_singleton.1 ((hperm.filter _).trans (List.Perm.of_eq ?_))
  simp [filter_append, hpacks, hcomponents, hrest, hlock, profilesSummary]

theorem Records.filter_profiles :
    (inputs.filter fun input => (stripName lockedComponentProfileName input.name).isSome).Perm
      ((lockedComponents graph).map componentInput) := by
  obtain ⟨others, hperm, hothers⟩ := h
  rw [graphInputs_eq] at hperm
  have hpacks : (packInputs graph).filter
      (fun input => (stripName lockedComponentProfileName input.name).isSome) = [] := by
    rw [filter_eq_nil_iff]
    intro input hinput
    obtain ⟨node, rfl⟩ := mem_packInputs hinput
    rw [packInput, stripName_packInput]
    simp
  have hcomponents : ((lockedComponents graph).map componentInput).filter
      (fun input => (stripName lockedComponentProfileName input.name).isSome) =
        (lockedComponents graph).map componentInput := by
    rw [filter_eq_self]
    intro input hinput
    obtain ⟨e, -, rfl⟩ := mem_map.1 hinput
    rw [componentInput, stripName_componentText]
    rfl
  have hrest : others.filter
      (fun input => (stripName lockedComponentProfileName input.name).isSome) = [] := by
    rw [filter_eq_nil_iff]
    intro input hinput
    rw [(hothers input hinput).2.1]
    simp
  have hlock : stripName lockedComponentProfileName lockInputName = none := by decide
  have hown : stripName lockedComponentProfileName lockedComponentProfilesInput = none := rfl
  refine (hperm.filter _).trans (List.Perm.of_eq ?_)
  simp [filter_append, hpacks, hcomponents, hrest, hlock, hown, profilesSummary]

theorem retainedComponentProfiles_recorded :
    retainedComponentProfiles (ε := ε) inputCodec inputs = .ok (lockedProfiles graph) := by
  have hskip : ∀ input ∈ inputs, (stripName lockedComponentProfileName input.name).isSome = false →
      ∀ state, collectProfile (ε := ε) state input = .ok state := by
    intro input _ hnone state
    rw [Option.isSome_eq_false_iff, Option.isNone_iff_eq_none] at hnone
    rw [collectProfile, hnone]
  have hfold : inputs.foldlM (collectProfile (ε := ε)) (.empty, .empty) =
      .ok (profileTexts graph, lockedProfiles graph) := by
    obtain ⟨comps, hcomponents, heq⟩ := exists_map_of_perm_map h.filter_profiles
    have hkeys : (comps.map componentKey).Nodup :=
      (hcomponents.map componentKey).nodup_iff.2 (componentKeys_nodup graph)
    have htexts : ((lockedComponents graph).map componentText).Nodup := by
      rw [List.Nodup, pairwise_map]
      refine (pairwise_map.1 (componentKeys_nodup graph)).imp fun {left right} hne heq => ?_
      exact hne (componentKey_of_text heq)
    rw [foldlM_filter hskip, heq,
      foldlM_collectProfile hkeys (fun _ _ => by simp [SortedMap.keys, SortedMap.empty])
        fun _ _ => by simp [SortedMap.keys, SortedMap.empty]]
    refine congrArg ok (Prod.ext ?_ ?_)
    · refine foldl_insert_perm (hcomponents.map _) ?_
      rw [map_map]
      exact htexts
    · refine foldl_insert_perm (hcomponents.map _) ?_
      rw [map_map]
      exact componentKeys_nodup graph
  rw [retainedComponentProfiles, h.filter_summary]
  simp [hfold, reject, ok_bind, pure_eq, profilesSummary]

theorem Records.filter_sources (horder : graph.dependencyOrder = graph.lock.dependencyOrder) :
    (inputs.filter fun input => input.kind = .source).Perm (graph.lock.nodes.map packInput) := by
  obtain ⟨others, hperm, hothers⟩ := h
  rw [graphInputs_eq] at hperm
  have hpacks : (packInputs graph).filter (fun input => input.kind = .source) =
      packInputs graph := by
    rw [filter_eq_self]
    intro input hinput
    obtain ⟨node, rfl⟩ := mem_packInputs hinput
    rfl
  have hcomponents : ((lockedComponents graph).map componentInput).filter
      (fun input => input.kind = .source) = [] := by
    rw [filter_eq_nil_iff]
    intro input hinput
    obtain ⟨e, -, rfl⟩ := mem_map.1 hinput
    simp [componentInput]
  have hrest : others.filter (fun input => input.kind = .source) = [] := by
    rw [filter_eq_nil_iff]
    intro input hinput
    simpa using (hothers input hinput).1
  have hnodes : (packInputs graph).Perm (graph.lock.nodes.map packInput) := by
    have hids := (graph.lock.dependencyOrder_perm).filterMap fun nodeId =>
      (findNode graph.lock.nodes nodeId).map packInput
    rw [packInputs, horder]
    refine hids.trans (List.Perm.of_eq ?_)
    rw [Lock.nodeIds, filterMap_map, ← filterMap_eq_map]
    refine filterMap_congr fun node hnode => ?_
    rw [comp_apply, graph.lock.findNode_eq_some.2 ⟨hnode, rfl⟩]
    rfl
  refine (hperm.filter _).trans ?_
  simpa [filter_append, hpacks, hcomponents, hrest, profilesSummary] using hnodes

end

end Recorded

end Profiles

/-! ## 3. The packs of the nodes -/

section Captured

variable {ε : Type} {packCodec : PackCodec} {codec : LockCodec}
  {objects : Digest → Except ε (List PackFile)} {lock : Lock codec}
  {packOf : LockedPack codec → VerifiedPack}

/-- A verified pack for every node, whose manifest agrees with the node. -/
structure Captured (packCodec : PackCodec) (objects : Digest → Except ε (List PackFile))
    (lock : Lock codec) (packOf : LockedPack codec → VerifiedPack) : Prop where
  loads : ∀ node ∈ lock.nodes, ∃ files, objects node.contentDigest = .ok files ∧
    VerifiedPack.fromFiles packCodec node.contentDigest files = .ok (packOf node)
  agrees : ∀ node ∈ lock.nodes, Agrees lock node (packOf node).manifest

def retained (packOf : LockedPack codec → VerifiedPack) (node : LockedPack codec) : RetainedPack :=
  ⟨node.contentDigest, (packOf node).manifest, packOf node⟩

def retainedPacks (lock : Lock codec) (packOf : LockedPack codec → VerifiedPack) : RetainedPacks :=
  ⟨lock.nodes.map fun node => (node.nodeId, retained packOf node), by
    rw [List.map_map]
    exact lock.nodeIds_sorted⟩

variable {node t : LockedPack codec} {declaration : PackDependency} {walk : Walk}

theorem retainedPacks_get? (hnode : node ∈ lock.nodes) :
    (retainedPacks lock packOf).get? node.nodeId = some (retained packOf node) :=
  get?_eq_some.2 (mem_map.2 ⟨node, hnode, rfl⟩)

theorem retainPack_packInput (h : Captured packCodec objects lock packOf)
    (hnode : node ∈ lock.nodes) {packs : RetainedPacks} (hfresh : node.nodeId ∉ packs.keys) :
    retainPack packCodec objects packs (packInput node) =
      .ok (packs.insert node.nodeId (retained packOf node)) := by
  obtain ⟨files, hload, hverify⟩ := h.loads node hnode
  have hnew : ¬ packs.contains node.nodeId = true := by
    rw [SortedMap.contains_iff]
    exact hfresh
  simp [retainPack, packInput, stripName_append, require, ok_bind, pure_eq,
    reject, hload, hverify, Except.mapError, hnew, retained]

theorem foldlM_retainPack (h : Captured packCodec objects lock packOf) {inputs : List PreparedInput}
    (hperm : inputs.Perm (lock.nodes.map packInput)) :
    inputs.foldlM (retainPack packCodec objects) .empty = .ok (retainedPacks lock packOf) := by
  obtain ⟨nodes, hnodes, rfl⟩ := exists_map_of_perm_map hperm
  have hids : (nodes.map fun node => node.nodeId).Perm lock.nodeIds := hnodes.map _
  rw [foldlM_map, foldlM_insert
    (fun node hnode packs => retainPack_packInput h (hnodes.mem_iff.1 hnode))
    (hids.nodup_iff.2 lock.nodeIds_nodup) fun _ _ => by simp [SortedMap.keys, SortedMap.empty]]
  refine congrArg ok (ext_get? fun key => Option.ext fun value => ?_)
  rw [get?_foldl_insert]
  · have hempty : (empty : RetainedPacks).get? key ≠ some value := by simp
    have hentries := (hnodes.map fun node => (node.nodeId, retained packOf node)).mem_iff
      (a := (key, value))
    have hget : (retainedPacks lock packOf).get? key = some value ↔
        (key, value) ∈ lock.nodes.map fun node => (node.nodeId, retained packOf node) :=
      get?_eq_some
    rw [hentries, hget]
    constructor
    · rintro (hmem | ⟨-, hget⟩)
      · exact hmem
      · exact absurd hget hempty
    · exact .inl
  · rw [map_map]
    exact hids.nodup_iff.2 lock.nodeIds_nodup

/-! ## 4. Candidates -/

section

variable (hfree : CollisionFree codec) (h : Captured packCodec objects lock packOf)

include hfree h

theorem rootCandidates_retained :
    rootCandidates codec (retainedPacks lock packOf) = [lock.rootNodeId] := by
  have hfilter : (lock.nodes.filter fun node =>
      codec.nodeId .root (packOf node).manifest.packageId node.contentDigest = node.nodeId) =
        lock.nodes.filter fun node => node.source = .root := by
    refine filter_congr fun node hnode => ?_
    rw [decide_eq_decide, ← (h.agrees node hnode).packageId, node.nodeId_eq]
    constructor
    · intro heq
      exact (hfree _ _ _ _ _ _ heq).1.symm
    · intro hroot
      rw [hroot]
  obtain ⟨node, hsingle, -, -, hid⟩ := lock.rootNode
  have hentries : (retainedPacks lock packOf).entries.filter (fun e =>
      codec.nodeId .root e.2.manifest.packageId e.2.digest = e.1) =
        (lock.nodes.filter fun node => node.source = .root).map
          fun node => (node.nodeId, retained packOf node) := by
    rw [retainedPacks, filter_map, ← hfilter]
    rfl
  rw [rootCandidates, hentries, hsingle, ← hid]
  rfl

theorem dependencyCandidates_retained (hbinds : Binds lock node declaration t) :
    dependencyCandidates codec (retainedPacks lock packOf) declaration
      (.fromDependency declaration.source) = [t.nodeId] := by
  obtain ⟨htarget, -, hpackage, hsource⟩ := hbinds
  have hnotroot : t.source ≠ .root := by
    rw [hsource]
    cases declaration.source <;> exact fun h => by cases h
  have hfilter : (lock.nodes.filter fun other =>
      (packOf other).manifest.packageId = declaration.packageId &&
        codec.nodeId (.fromDependency declaration.source) declaration.packageId
          other.contentDigest = other.nodeId) = [t] := by
    refine filter_eq_singleton (List.Nodup.of_map _ lock.nodeIds_nodup) htarget ?_ ?_
    · rw [Bool.and_eq_true, decide_eq_true_iff, decide_eq_true_iff]
      refine ⟨(h.agrees t htarget).packageId.symm.trans hpackage, ?_⟩
      rw [t.nodeId_eq, hsource, hpackage]
    · intro other hother hcand
      rw [Bool.and_eq_true, decide_eq_true_iff, decide_eq_true_iff, other.nodeId_eq] at hcand
      have hsame := (hfree _ _ _ _ _ _ hcand.2).1
      exact (lock.eq_of_source htarget hother hnotroot (hsource.trans hsame)).symm
  have hentries : (retainedPacks lock packOf).entries.filter (fun e =>
      e.2.manifest.packageId = declaration.packageId &&
        codec.nodeId (.fromDependency declaration.source) declaration.packageId
          e.2.digest = e.1) = [(t.nodeId, retained packOf t)] := by
    rw [retainedPacks, filter_map]
    exact congrArg (map fun node => (node.nodeId, retained packOf node)) hfilter
  rw [dependencyCandidates, hentries]
  rfl

end

/-! ## 5. The walk -/

/-- The edges a node declares, as the lock binds them. -/
def boundEdges (node : LockedPack codec) (declarations : List PackDependency) :
    List LockedDependency :=
  declarations.filterMap fun declaration =>
    node.dependencies.find? fun edge => edge.aliasName = declaration.aliasName

theorem find_edge (h : Binds lock node declaration t) :
    (node.dependencies.find? fun edge => edge.aliasName = declaration.aliasName) =
      some ⟨declaration.aliasName, t.nodeId⟩ := by
  have hnodup : (node.dependencies.map aliasName).Nodup :=
    node.aliases_sorted.imp fun h => ne_of_lt h
  exact (Keyed.find?_eq_some hnodup).2 ⟨h.2.1, rfl⟩

theorem boundEdges_perm {man : PackManifest} (h : Agrees lock node man) :
    (boundEdges node man.dependencies).Perm node.dependencies := by
  have hall : ∀ declaration ∈ man.dependencies,
      ∃ edge ∈ node.dependencies, edge.aliasName = declaration.aliasName ∧
        (node.dependencies.find? fun edge => edge.aliasName = declaration.aliasName) =
          some edge := by
    intro declaration hdeclaration
    obtain ⟨t, hbinds⟩ := h.dependencies declaration hdeclaration
    exact ⟨_, hbinds.2.1, rfl, find_edge hbinds⟩
  have haliases : ∀ decls : List PackDependency,
      (∀ declaration ∈ decls, declaration ∈ man.dependencies) →
      (boundEdges node decls).map aliasName =
        decls.map PackDependency.aliasName := by
    intro decls hsub
    induction decls with
    | nil => rfl
    | cons declaration rest ih =>
      obtain ⟨edge, -, halias, hfind⟩ := hall declaration (hsub declaration mem_cons_self)
      have hrest := ih fun other hother => hsub other (mem_cons_of_mem _ hother)
      simp only [boundEdges] at hrest
      simp only [boundEdges, filterMap_cons, hfind, map_cons, halias, hrest]
  have hmap := haliases man.dependencies fun _ h => h
  have hnodup : (boundEdges node man.dependencies).Nodup := by
    refine List.Nodup.of_map aliasName ?_
    rw [hmap]
    exact man.aliases_nodup
  have hsub : ∀ edge ∈ boundEdges node man.dependencies, edge ∈ node.dependencies := by
    intro edge hedge
    obtain ⟨declaration, -, hfind⟩ := mem_filterMap.1 hedge
    exact mem_of_find?_eq_some hfind
  have hlen : (boundEdges node man.dependencies).length = node.dependencies.length := by
    rw [h.dependencyCount, ← length_map (f := aliasName), hmap, length_map]
  exact (hnodup.subperm hsub).perm_of_length_le hlen.ge

/-- What the walk has reached are nodes of the lock under their sources. -/
structure Reached (lock : Lock codec) (walk : Walk) : Prop where
  sources : ∀ nodeId source, walk.sources.get? nodeId = some source →
    ∃ node ∈ lock.nodes, node.nodeId = nodeId ∧ node.source = source
  pending : ∀ nodeId ∈ walk.pending, nodeId ∈ walk.sources.keys
  pending_nodup : walk.pending.Nodup

/-- One dependency: its target is reached, and pending if it is new. -/
structure Followed (importer : PackNodeId) (edges : List LockedDependency) (walk walk' : Walk) :
    Prop where
  importer_edges : (walk'.edges.get? importer).getD [] =
    (walk.edges.get? importer).getD [] ++ edges
  other_edges : ∀ other, other ≠ importer → walk'.edges.get? other = walk.edges.get? other
  keys : ∀ nodeId, nodeId ∈ walk'.sources.keys ↔
    nodeId ∈ walk.sources.keys ∨ ∃ edge ∈ edges, edge.targetNodeId = nodeId
  pending : ∀ nodeId, nodeId ∈ walk'.pending ↔
    nodeId ∈ walk.pending ∨ nodeId ∈ walk'.sources.keys ∧ nodeId ∉ walk.sources.keys
  length : walk'.sources.entries.length + walk.pending.length =
    walk.sources.entries.length + walk'.pending.length

theorem Followed.refl (importer : PackNodeId) (walk : Walk) : Followed importer [] walk walk := by
  constructor <;> simp

theorem Followed.trans {importer : PackNodeId} {first snd : List LockedDependency}
    {mid walk' : Walk} (h : Followed importer first walk mid)
    (h' : Followed importer snd mid walk') :
    Followed importer (first ++ snd) walk walk' := by
  constructor
  case importer_edges => rw [h'.importer_edges, h.importer_edges, append_assoc]
  case other_edges =>
    intro other hother
    rw [h'.other_edges other hother, h.other_edges other hother]
  case keys =>
    intro nodeId
    rw [h'.keys, h.keys]
    simp only [mem_append, or_and_right, exists_or, or_assoc]
  case pending =>
    intro nodeId
    have hgrow : nodeId ∈ walk.sources.keys → nodeId ∈ mid.sources.keys :=
      fun hmem => (h.keys nodeId).2 (.inl hmem)
    have hgrow' : nodeId ∈ mid.sources.keys → nodeId ∈ walk'.sources.keys :=
      fun hmem => (h'.keys nodeId).2 (.inl hmem)
    rw [h'.pending, h.pending]
    tauto
  case length =>
    have := h.length
    have := h'.length
    omega

theorem followDependency_bound (hfree : CollisionFree codec)
    (hcaptured : Captured packCodec objects lock packOf)
    (hbinds : Binds lock node declaration t) (h : Reached lock walk) :
    ∃ walk', followDependency (ε := ε) codec (retainedPacks lock packOf) node.nodeId walk
        declaration = .ok walk' ∧ Reached lock walk' ∧
      Followed node.nodeId [⟨declaration.aliasName, t.nodeId⟩] walk walk' := by
  have hcands := dependencyCandidates_retained hfree hcaptured hbinds
  obtain ⟨htarget, -, -, hsource⟩ := hbinds
  have hown : ((pushEdge walk.edges node.nodeId
      ⟨declaration.aliasName, t.nodeId⟩).get? node.nodeId).getD [] =
        (walk.edges.get? node.nodeId).getD [] ++ [⟨declaration.aliasName, t.nodeId⟩] := by
    rw [pushEdge, get?_insert, if_pos rfl, Option.getD_some]
  have hothers : ∀ other, other ≠ node.nodeId → (pushEdge walk.edges node.nodeId
      ⟨declaration.aliasName, t.nodeId⟩).get? other = walk.edges.get? other := by
    intro other hother
    rw [pushEdge, get?_insert, if_neg hother]
  rw [followDependency, hcands]
  dsimp only
  cases hget : walk.sources.get? t.nodeId with
  | some prev =>
    have hmem : t.nodeId ∈ walk.sources.keys := mem_keys.2 ⟨prev, hget⟩
    obtain ⟨found, hfound, hid, hprev⟩ := h.sources _ _ hget
    have hsame : prev = .fromDependency declaration.source := by
      rw [← hprev, lock.eq_of_nodeId hfound htarget hid, hsource]
    refine ⟨_, if_neg (not_not.2 hsame), ⟨h.sources, h.pending, h.pending_nodup⟩, ?_⟩
    constructor
    case importer_edges => exact hown
    case other_edges => exact hothers
    case keys =>
      intro nodeId
      simp only [mem_singleton, exists_eq_left]
      exact ⟨.inl, fun hor => hor.elim id fun heq => heq ▸ hmem⟩
    case pending => simp
    case length => rfl
  | none =>
    have hnew : t.nodeId ∉ walk.sources.keys := get?_eq_none.1 hget
    refine ⟨_, rfl, ?_, ?_⟩
    · constructor
      case sources =>
        intro nodeId src hlookup
        dsimp only at hlookup
        rcases of_get?_insert hlookup with ⟨heq, rfl⟩ | hlookup
        · exact ⟨t, htarget, heq.symm, hsource⟩
        · exact h.sources nodeId src hlookup
      case pending =>
        intro nodeId hmem
        rw [mem_keys_insert]
        rcases mem_append.1 hmem with hmem | hmem
        · exact .inr (h.pending nodeId hmem)
        · exact .inl (mem_singleton.1 hmem)
      case pending_nodup =>
        rw [nodup_append]
        refine ⟨h.pending_nodup, nodup_singleton _, ?_⟩
        intro a ha b hb heq
        rw [mem_singleton.1 hb] at heq
        exact hnew (heq ▸ h.pending a ha)
    · constructor
      case importer_edges => exact hown
      case other_edges => exact hothers
      case keys =>
        intro nodeId
        rw [mem_keys_insert]
        simp [eq_comm, or_comm]
      case pending =>
        intro nodeId
        dsimp only
        rw [mem_keys_insert, mem_append, mem_singleton]
        constructor
        · rintro (hmem | rfl)
          · exact .inl hmem
          · exact .inr ⟨.inl rfl, hnew⟩
        · rintro (hmem | ⟨rfl | hkey, hnot⟩)
          · exact .inl hmem
          · exact .inr rfl
          · exact absurd hkey hnot
      case length =>
        dsimp only
        rw [length_insert_of_notMem hnew, length_append, length_singleton]
        omega

theorem foldlM_followDependency (hfree : CollisionFree codec)
    (hcaptured : Captured packCodec objects lock packOf) :
    ∀ {decls : List PackDependency} {walk : Walk},
      (∀ declaration ∈ decls, ∃ t, Binds lock node declaration t) →
      Reached lock walk →
      ∃ walk', decls.foldlM
          (followDependency (ε := ε) codec (retainedPacks lock packOf) node.nodeId) walk =
            .ok walk' ∧ Reached lock walk' ∧
        Followed node.nodeId (boundEdges node decls) walk walk'
  | [], walk, _, h => ⟨walk, rfl, h, Followed.refl _ walk⟩
  | declaration :: rest, walk, hbinds, h => by
    obtain ⟨t, hbind⟩ := hbinds declaration mem_cons_self
    obtain ⟨mid, hfollow, hreached, hfirst⟩ :=
      followDependency_bound (ε := ε) hfree hcaptured hbind h
    obtain ⟨walk', hfold, hreached', hrest⟩ := foldlM_followDependency hfree hcaptured
      (fun other hother => hbinds other (mem_cons_of_mem _ hother)) hreached
    refine ⟨walk', ?_, hreached', ?_⟩
    · rw [foldlM_cons, hfollow]
      exact hfold
    · have hedges : boundEdges node (declaration :: rest) =
          [⟨declaration.aliasName, t.nodeId⟩] ++ boundEdges node rest := by
        simp [boundEdges, find_edge hbind]
      rw [hedges]
      exact hfirst.trans hrest

/-- A node that was taken has its edges, and its targets are reached; others have none. -/
structure Walked (lock : Lock codec) (packOf : LockedPack codec → VerifiedPack) (walk : Walk) :
    Prop extends Reached lock walk where
  root : lock.rootNodeId ∈ walk.sources.keys
  taken : ∀ node ∈ lock.nodes, node.nodeId ∈ walk.sources.keys → node.nodeId ∉ walk.pending →
    (walk.edges.get? node.nodeId).getD [] = boundEdges node (packOf node).manifest.dependencies ∧
      ∀ edge ∈ node.dependencies, edge.targetNodeId ∈ walk.sources.keys
  untaken : ∀ nodeId, nodeId ∉ walk.sources.keys ∨ nodeId ∈ walk.pending →
    walk.edges.get? nodeId = none

theorem Reached.length_le (h : Reached lock walk) :
    walk.sources.entries.length ≤ lock.nodes.length := by
  have hsub : ∀ nodeId ∈ walk.sources.keys, nodeId ∈ lock.nodeIds := by
    intro nodeId hnodeId
    obtain ⟨src, hsource⟩ := mem_keys.1 hnodeId
    obtain ⟨node, hnode, rfl, -⟩ := h.sources nodeId src hsource
    exact mem_map_of_mem hnode
  have hlen := (walk.sources.nodup_keys.subperm hsub).length_le
  simpa [SortedMap.keys, Lock.nodeIds] using hlen

/-- One importer: its dependencies are followed and each new pack is queued once. -/
theorem Walked.step (hfree : CollisionFree codec)
    (hcaptured : Captured packCodec objects lock packOf) {walk : Walk} {importer : PackNodeId}
    {pending : List PackNodeId} (hpend : walk.pending = importer :: pending)
    (h : Walked lock packOf walk) :
    ∃ walk', (declaredDependencies (retainedPacks lock packOf) importer).foldlM
        (followDependency (ε := ε) codec (retainedPacks lock packOf) importer)
        { walk with pending := pending } = .ok walk' ∧ Walked lock packOf walk' ∧
      walk'.sources.entries.length + pending.length =
        walk.sources.entries.length + walk'.pending.length := by
  have himporter : importer ∈ walk.sources.keys := by
    refine h.pending importer ?_
    rw [hpend]
    exact mem_cons_self
  obtain ⟨src, hsource⟩ := mem_keys.1 himporter
  obtain ⟨node, hnode, rfl, -⟩ := h.sources _ _ hsource
  have hnodup := h.pending_nodup
  rw [hpend, nodup_cons] at hnodup
  have hstart : Reached lock { walk with pending := pending } := by
    refine ⟨h.sources, fun nodeId hmem => h.pending nodeId ?_, hnodup.2⟩
    rw [hpend]
    exact mem_cons_of_mem _ hmem
  have hagrees := hcaptured.agrees node hnode
  have hdecl : declaredDependencies (retainedPacks lock packOf) node.nodeId =
      (packOf node).manifest.dependencies := by
    rw [declaredDependencies, retainedPacks_get? hnode]
    rfl
  obtain ⟨walk', hfold, hreached, hfollowed⟩ :=
    foldlM_followDependency (ε := ε) hfree hcaptured hagrees.dependencies hstart
  have huntaken : walk.edges.get? node.nodeId = none := by
    refine h.untaken node.nodeId (.inr ?_)
    rw [hpend]
    exact mem_cons_self
  have htargets : ∀ edge, edge ∈ boundEdges node (packOf node).manifest.dependencies ↔
      edge ∈ node.dependencies := fun edge => (boundEdges_perm hagrees).mem_iff
  refine ⟨walk', by rw [hdecl]; exact hfold, ?_, hfollowed.length⟩
  refine { toReached := hreached, root := ?_, taken := ?_, untaken := ?_ }
  · exact (hfollowed.keys _).2 (.inl h.root)
  · intro other hother hkey hnot
    by_cases heq : other = node
    · subst heq
      constructor
      · have hedges := hfollowed.importer_edges
        dsimp only at hedges
        rw [huntaken] at hedges
        exact hedges
      · intro edge hedge
        exact (hfollowed.keys _).2 (.inr ⟨edge, (htargets edge).2 hedge, rfl⟩)
    · have hids : other.nodeId ≠ node.nodeId := fun hid => heq (lock.eq_of_nodeId hother hnode hid)
      rw [hfollowed.pending, not_or] at hnot
      dsimp only at hnot
      have hold : other.nodeId ∈ walk.sources.keys := by
        by_contra hnew
        exact hnot.2 ⟨hkey, hnew⟩
      have hnotpending : other.nodeId ∉ walk.pending := by
        rw [hpend, mem_cons, not_or]
        exact ⟨hids, hnot.1⟩
      obtain ⟨hedges, hreach⟩ := h.taken other hother hold hnotpending
      refine ⟨?_, fun edge hedge => (hfollowed.keys _).2 (.inl (hreach edge hedge))⟩
      rw [hfollowed.other_edges other.nodeId hids]
      exact hedges
  · intro nodeId hnodeId
    have hne : nodeId ≠ node.nodeId := by
      rintro rfl
      rcases hnodeId with hnot | hmem
      · exact hnot ((hfollowed.keys _).2 (.inl himporter))
      · rw [hfollowed.pending] at hmem
        rcases hmem with hmem | ⟨-, hnew⟩
        · exact hnodup.1 hmem
        · exact hnew himporter
    rw [hfollowed.other_edges nodeId hne]
    refine h.untaken nodeId ?_
    rcases hnodeId with hnot | hmem
    · exact .inl fun hold => hnot ((hfollowed.keys _).2 (.inl hold))
    · rw [hfollowed.pending] at hmem
      rcases hmem with hmem | ⟨-, hnew⟩
      · right
        rw [hpend]
        exact mem_cons_of_mem _ hmem
      · exact .inl hnew

theorem walkGraph_ok (hfree : CollisionFree codec)
    (hcaptured : Captured packCodec objects lock packOf) :
    ∀ {fuel : Nat} {walk : Walk}, Walked lock packOf walk →
      lock.nodes.length + walk.pending.length ≤ fuel + walk.sources.entries.length →
      ∃ walk', walkGraph (ε := ε) codec (retainedPacks lock packOf) fuel walk = .ok walk' ∧
        Walked lock packOf walk' ∧ walk'.pending = []
  | 0, walk, h, hfuel => by
    have hlen := h.toReached.length_le
    have hempty : walk.pending = [] := eq_nil_of_length_eq_zero (by omega)
    refine ⟨walk, ?_, h, hempty⟩
    rw [walkGraph, hempty]
    rfl
  | fuel + 1, walk, h, hfuel => by
    rw [walkGraph]
    cases hpend : walk.pending with
    | nil => exact ⟨walk, rfl, h, hpend⟩
    | cons importer pending =>
      obtain ⟨mid, hfold, hmiddle, hcount⟩ := h.step (ε := ε) hfree hcaptured hpend
      have hnext : lock.nodes.length + mid.pending.length ≤
          fuel + mid.sources.entries.length := by
        rw [hpend, length_cons] at hfuel
        omega
      obtain ⟨walk', hwalk, hwalked, hdone⟩ := walkGraph_ok hfree hcaptured hmiddle hnext
      refine ⟨walk', ?_, hwalked, hdone⟩
      dsimp only
      rw [hfold]
      exact hwalk

theorem Walked.complete (h : Walked lock packOf walk) (hdone : walk.pending = []) :
    (∀ node ∈ lock.nodes, walk.sources.get? node.nodeId = some node.source ∧
      (walk.edges.get? node.nodeId).getD [] =
        boundEdges node (packOf node).manifest.dependencies) ∧
      walk.sources.entries.length = lock.nodes.length := by
  have htaken : ∀ node ∈ lock.nodes, node.nodeId ∈ walk.sources.keys →
      (walk.edges.get? node.nodeId).getD [] = boundEdges node (packOf node).manifest.dependencies ∧
        ∀ edge ∈ node.dependencies, edge.targetNodeId ∈ walk.sources.keys := by
    intro node hnode hkey
    refine h.taken node hnode hkey ?_
    rw [hdone]
    exact not_mem_nil
  have hall : ∀ node ∈ lock.nodes, node.nodeId ∈ walk.sources.keys :=
    lock.node_induction h.root fun node hnode hkey => (htaken node hnode hkey).2
  constructor
  · intro node hnode
    obtain ⟨src, hsource⟩ := mem_keys.1 (hall node hnode)
    obtain ⟨found, hfound, hid, hfoundsource⟩ := h.sources _ _ hsource
    rw [lock.eq_of_nodeId hfound hnode hid] at hfoundsource
    exact ⟨hfoundsource ▸ hsource, (htaken node hnode (hall node hnode)).1⟩
  · refine le_antisymm h.toReached.length_le ?_
    have hsub : ∀ nodeId ∈ lock.nodeIds, nodeId ∈ walk.sources.keys := by
      intro nodeId hnodeId
      obtain ⟨node, hnode, rfl⟩ := mem_map.1 hnodeId
      exact hall node hnode
    have hlen := (lock.nodeIds_nodup.subperm hsub).length_le
    simpa [SortedMap.keys, Lock.nodeIds] using hlen

/-! ## 6. The rebuilt graph -/

/-- The profiles that are left are those of some components. -/
def ProfilesOf (profiles : ComponentProfiles) (components : List (PackNodeId × LockedComponent)) :
    Prop :=
  ∀ key profile, profiles.get? key = some profile ↔
    ∃ entry ∈ components, componentKey entry = key ∧ entry.2.executionProfile = profile

theorem takeProfiles_ok {nodeId : PackNodeId} {others : List (PackNodeId × LockedComponent)} :
    ∀ {comps : List LockedComponent} {decls : List BundledComponent}
      {profs : ComponentProfiles},
      comps.length = decls.length →
      (∀ pair ∈ comps.zip decls, pair.1.agreesWith pair.2 = true) →
      ((comps.map fun comp => (nodeId, comp)) ++ others).Pairwise
        (fun left right => componentKey left ≠ componentKey right) →
      ProfilesOf profs ((comps.map fun comp => (nodeId, comp)) ++ others) →
      ∃ rest, takeProfiles (ε := ε) nodeId decls profs = .ok (comps, rest) ∧
        ProfilesOf rest others
  | [], [], profs, _, _, _, h => ⟨profs, rfl, h⟩
  | comp :: comps, declaration :: decls, profs, hlen, hagrees, hdistinct,
      h => by
    have hagree := hagrees (comp, declaration) mem_cons_self
    simp only [agreesWith, Bool.and_eq_true, decide_eq_true_iff] at hagree
    obtain ⟨⟨⟨hname, hpath⟩, hdigest⟩, -⟩ := hagree
    have hinterface : comp.interface = declaration.interface := by
      cases comp.interface
      cases declaration.interface
      rfl
    have hlocked : fromDeclaration declaration comp.executionProfile =
        comp := by
      rw [fromDeclaration, ← hname, ← hpath, ← hdigest, ← hinterface]
    have hget : profs.get? (toLex (nodeId, declaration.name)) =
        some comp.executionProfile := by
      rw [h, ← hname]
      exact ⟨(nodeId, comp), by simp, rfl, rfl⟩
    rw [map_cons, cons_append, pairwise_cons] at hdistinct
    have hrest : ProfilesOf (profs.erase (toLex (nodeId, declaration.name)))
        ((comps.map fun comp => (nodeId, comp)) ++ others) := by
      intro key prof
      rw [get?_erase]
      by_cases hkey : key = toLex (nodeId, declaration.name)
      · rw [if_pos hkey]
        constructor
        · intro hnone
          cases hnone
        · rintro ⟨e, hentry, hown, -⟩
          refine absurd ?_ (hdistinct.1 e hentry)
          rw [hown, hkey, componentKey, hname]
      · rw [if_neg hkey, h, map_cons, cons_append]
        simp only [mem_cons, or_and_right, exists_or, exists_eq_left]
        refine or_iff_right fun hfirst => hkey ?_
        rw [← hfirst.1, componentKey, hname]
    obtain ⟨rest, htake, hprofiles⟩ := takeProfiles_ok (Nat.succ.inj hlen)
      (fun pair hpair => hagrees pair (mem_cons_of_mem _ hpair)) hdistinct.2 hrest
    refine ⟨rest, ?_, hprofiles⟩
    simp [takeProfiles, hget, htake, hlocked, require, ok_bind, pure_eq]

def nodeComponents (nodes : List (LockedPack codec)) : List (PackNodeId × LockedComponent) :=
  nodes.flatMap fun node => node.components.map fun component => (node.nodeId, component)

theorem foldlM_rebuildNode (hcaptured : Captured packCodec objects lock packOf)
    (hwalk : ∀ node ∈ lock.nodes, walk.sources.get? node.nodeId = some node.source ∧
      (walk.edges.get? node.nodeId).getD [] =
        boundEdges node (packOf node).manifest.dependencies) :
    ∀ (done : List (LockedPack codec)) {nodes : List (LockedPack codec)}
      {profs : ComponentProfiles},
      (∀ node ∈ nodes, node ∈ lock.nodes) →
      (nodeComponents nodes).Pairwise (fun left right => componentKey left ≠ componentKey right) →
      ProfilesOf profs (nodeComponents nodes) →
      ∃ rest, (nodes.map fun node => (node.nodeId, retained packOf node)).foldlM
          (rebuildNode (ε := ε) codec walk) (done, profs) = .ok (done ++ nodes, rest) ∧
        ProfilesOf rest []
  | done, [], profs, _, _, h => ⟨profs, by rw [append_nil]; rfl, h⟩
  | done, node :: nodes, profs, hnodes, hdistinct, h => by
    have hnode := hnodes node mem_cons_self
    have hagrees := hcaptured.agrees node hnode
    obtain ⟨hsource, hedges⟩ := hwalk node hnode
    have hsplit : nodeComponents (node :: nodes) =
        (node.components.map fun comp => (node.nodeId, comp)) ++ nodeComponents nodes := by
      rw [nodeComponents, flatMap_cons]
      rfl
    rw [hsplit] at hdistinct h
    obtain ⟨mid, htake, hmiddle⟩ := takeProfiles_ok (ε := ε) hagrees.componentCount
      hagrees.components hdistinct h
    have hrebuild : rebuildNode (ε := ε) codec walk (done, profs)
        (node.nodeId, retained packOf node) = .ok (done ++ [node], mid) := by
      have hnew := node.new_self (boundEdges_perm hagrees)
      rw [hagrees.packageId] at hnew
      simp [rebuildNode, retained, htake, hsource, hedges, hnew, require, ok_bind,
        pure_eq, reject, Except.mapError]
    obtain ⟨rest, hfold, hrest⟩ := foldlM_rebuildNode hcaptured hwalk (done ++ [node])
      (fun other hother => hnodes other (mem_cons_of_mem _ hother))
      (pairwise_append.1 hdistinct).2.1 hmiddle
    refine ⟨rest, ?_, hrest⟩
    rw [map_cons, foldlM_cons, hrebuild]
    rw [append_assoc] at hfold
    exact hfold

theorem Captured.load_unique (h : Captured packCodec objects lock packOf)
    {left right : LockedPack codec} (hleft : left ∈ lock.nodes) (hright : right ∈ lock.nodes)
    (hdigest : left.contentDigest = right.contentDigest) : packOf left = packOf right := by
  obtain ⟨files, hload, hverify⟩ := h.loads left hleft
  obtain ⟨files', hload', hverify'⟩ := h.loads right hright
  rw [hdigest, hload', ok.injEq] at hload
  rw [hdigest, ← hload, hverify', ok.injEq] at hverify
  exact hverify.symm

theorem verifiedByDigest_get? (h : Captured packCodec objects lock packOf)
    (hnode : node ∈ lock.nodes) :
    (verifiedByDigest (retainedPacks lock packOf)).get? node.contentDigest =
      some (packOf node) := by
  have hfold : verifiedByDigest (retainedPacks lock packOf) =
      (lock.nodes.map fun node => (node.contentDigest, packOf node)).foldl
        (fun map e => map.insert e.1 e.2) .empty := by
    rw [verifiedByDigest, retainedPacks, foldl_map, foldl_map]
    rfl
  have hkey : node.contentDigest ∈
      (lock.nodes.map fun node => (node.contentDigest, packOf node)).map Prod.fst :=
    mem_map.2 ⟨_, mem_map_of_mem hnode, rfl⟩
  obtain ⟨pack, hmem, hget⟩ := get?_foldl_insert_of_mem hkey
  obtain ⟨other, hother, heq⟩ := mem_map.1 hmem
  injection heq with hdigest hpack
  rw [hfold, hget, ← hpack, h.load_unique hother hnode hdigest]

theorem reconstructGraph_captured (hfree : CollisionFree codec)
    (hcaptured : Captured packCodec objects lock packOf) {inputs : List PreparedInput}
    (hsources : (inputs.filter fun input => input.kind = .source).Perm
      (lock.nodes.map packInput)) {profs : ComponentProfiles}
    (hdistinct : (nodeComponents lock.nodes).Pairwise
      fun left right => componentKey left ≠ componentKey right)
    (hprofiles : ProfilesOf profs (nodeComponents lock.nodes)) :
    reconstructGraph packCodec codec objects inputs profs =
      (assembleLockedGraphWithVerified packCodec lock objects
        (verifiedByDigest (retainedPacks lock packOf))).mapError .graphAssembly := by
  have hroot : lock.rootNodeId ∈ lock.nodeIds := lock.checks.2.1
  obtain ⟨root, hrootmem, hrootid⟩ := mem_map.1 hroot
  have hrootsource : root.source = .root := by
    obtain ⟨node, -, hnode, hsource, hid⟩ := lock.rootNode
    rw [lock.eq_of_nodeId hrootmem hnode (hrootid.trans hid.symm)]
    exact hsource
  have hstart : Walked lock packOf
      ⟨SortedMap.empty.insert lock.rootNodeId .root, .empty, [lock.rootNodeId]⟩ := by
    have hkeys : ∀ nodeId, nodeId ∈ ((SortedMap.empty : SortedMap PackNodeId LockedSource).insert
        lock.rootNodeId .root).keys ↔ nodeId = lock.rootNodeId := by
      intro nodeId
      rw [mem_keys_insert]
      simp [SortedMap.keys, SortedMap.empty]
    refine { sources := ?_, pending := ?_, pending_nodup := nodup_singleton _, root := ?_,
             taken := ?_, untaken := fun _ _ => rfl }
    · intro nodeId src hget
      dsimp only at hget
      rcases SortedMap.of_get?_insert hget with ⟨heq, rfl⟩ | hget
      · exact ⟨root, hrootmem, hrootid.trans heq.symm, hrootsource⟩
      · cases hget
    · intro nodeId hmem
      exact (hkeys nodeId).2 (mem_singleton.1 hmem)
    · exact (hkeys _).2 rfl
    · intro node _ hkey hnot
      exact absurd (mem_singleton.2 ((hkeys _).1 hkey)) hnot
  have hlen : (retainedPacks lock packOf).entries.length = lock.nodes.length :=
    length_map _
  obtain ⟨walk, hwalk, hwalked, hdone⟩ := walkGraph_ok (ε := ε) hfree hcaptured hstart
    (le_refl (lock.nodes.length + 1))
  obtain ⟨hreached, hcount⟩ := hwalked.complete hdone
  obtain ⟨rest, hrebuild, hrest⟩ := foldlM_rebuildNode (ε := ε) hcaptured hreached []
    (fun _ hnode => hnode) hdistinct hprofiles
  have hempty : rest.entries = [] := by
    rw [eq_nil_iff_forall_not_mem]
    rintro ⟨key, prof⟩ hmem
    obtain ⟨e, hentry, -⟩ := (hrest key prof).1 (SortedMap.get?_eq_some.2 hmem)
    cases hentry
  have hnonempty : (retainedPacks lock packOf).entries.isEmpty = false := by
    rw [isEmpty_eq_false_iff, ← length_pos_iff, hlen]
    exact length_pos_of_mem hrootmem
  have hentries : (retainedPacks lock packOf).entries =
      lock.nodes.map fun node => (node.nodeId, retained packOf node) := rfl
  rw [reconstructGraph, foldlM_retainPack hcaptured hsources, ok_bind]
  simp only [hnonempty, reject, Bool.false_eq_true, if_false, ok_bind,
    rootCandidates_retained hfree hcaptured, hwalk, hcount, hlen, ne_eq, not_true_eq_false]
  rw [hentries, hrebuild]
  simp only [nil_append, ok_bind, hempty, isEmpty_nil, Bool.true_eq_false, if_false,
    lock.new_self, Except.mapError]

/-- An assembled graph is rebuilt exactly from the inputs of its preparation. -/
theorem reconstructGraph_inverts_capture {inputCodec : InputCodec}
    {verified : SortedMap Digest VerifiedPack} {graph : AssembledLockedGraph codec}
    {inputs : List PreparedInput} (hfree : CollisionFree codec)
    (hverified : ∀ digest pack, verified.get? digest = some pack → ∃ files,
      objects digest = .ok files ∧ VerifiedPack.fromFiles packCodec digest files = .ok pack)
    (hgraph : assembleLockedGraphWithVerified packCodec lock objects verified = .ok graph)
    (hinputs : Records inputCodec graph inputs) :
    graph.lock = lock ∧ graph.graphDigest = lockGraphDigest lock ∧
      ∃ profiles, retainedComponentProfiles (ε := ε) inputCodec inputs = .ok profiles ∧
        reconstructGraph packCodec codec objects inputs profiles = .ok graph := by
  obtain ⟨hlock, hdigest, horder⟩ := assembled_lock hgraph
  refine ⟨hlock, hdigest, lockedProfiles graph, retainedComponentProfiles_recorded hinputs, ?_⟩
  have hpacks := assembled_packs hgraph
  -- One function names the pack of every node; the root gives a value elsewhere.
  obtain ⟨root, hroot, -⟩ := mem_map.1 lock.checks.2.1
  obtain ⟨rootPack, -⟩ := hpacks root hroot
  have hnonempty : Nonempty VerifiedPack := ⟨rootPack⟩
  choose! packOf hresolve hagrees using hpacks
  have hloads : ∀ node ∈ lock.nodes, ∃ files, objects node.contentDigest = .ok files ∧
      VerifiedPack.fromFiles packCodec node.contentDigest files = .ok (packOf node) := by
    intro node hnode
    have hnodepack := hresolve node hnode
    unfold resolvePack at hnodepack
    split at hnodepack
    · rename_i pack hget
      cases hnodepack
      exact hverified _ _ hget
    · simpa only [bind_ok, mapError_ok] using hnodepack
  have hcaptured : Captured packCodec objects lock packOf := ⟨hloads, hagrees⟩
  have hcomponents : lockedComponents graph = nodeComponents lock.nodes := by
    rw [lockedComponents, hlock]
    rfl
  have hdistinct := pairwise_map.1 (componentKeys_nodup graph)
  rw [hcomponents] at hdistinct
  have hprofiles : ProfilesOf (lockedProfiles graph) (nodeComponents lock.nodes) := by
    intro key profile
    rw [lockedProfiles, hcomponents, get?_foldl_insert]
    · simp
    · rw [map_map, List.Nodup, pairwise_map]
      exact hdistinct
  have hsources := hinputs.filter_sources (by rw [horder, hlock])
  rw [hlock] at hsources
  rw [reconstructGraph_captured hfree hcaptured hsources hdistinct hprofiles]
  have hsame : ∀ node ∈ lock.nodes,
      resolvePack packCodec objects verified node.contentDigest =
        resolvePack packCodec objects (verifiedByDigest (retainedPacks lock packOf))
          node.contentDigest := by
    intro node hnode
    have hown : resolvePack packCodec objects (verifiedByDigest (retainedPacks lock packOf))
        node.contentDigest = .ok (packOf node) := by
      rw [resolvePack, verifiedByDigest_get? hcaptured hnode]
    rw [hresolve node hnode, hown]
  rw [← assemble_congr hsame, hgraph]
  rfl

end Captured

/-! ## 7. A lock with two aliases of one node -/

theorem sampleLockCodec_collisionFree : CollisionFree sampleLockCodec :=
  sampleLockCodec_nodeId_inj

def sampleName : ContributionName := ⟨['f'], by decide⟩

/-- A root that declares two aliases of one dependency and a component. -/
def sampleRootManifest : PackManifest where
  packageId := ['a', '.', 'b']
  modules := []
  configDocuments := []
  dependencies := [⟨['x'], ['c', '.', 'd'], .localLocator ['l']⟩,
    ⟨['y'], ['c', '.', 'd'], .localLocator ['l']⟩]
  templates := []
  schemas := []
  assets := []
  components := [⟨sampleName, ['w'], ⟨7⟩, .formatComponent⟩]
  aliases_nodup := by decide

def sampleDependencyManifest : PackManifest where
  packageId := ['c', '.', 'd']
  modules := []
  configDocuments := []
  dependencies := []
  templates := []
  schemas := []
  assets := []
  components := []
  aliases_nodup := by decide

def samplePackCodec : PackCodec where
  contentDigest files := ⟨100 + (files.map fun file => file.bytes.hash.value).sum⟩
  decodePack bytes :=
    if bytes.hash = ⟨1⟩ then some sampleRootManifest
    else if bytes.hash = ⟨2⟩ then some sampleDependencyManifest
    else none

def sampleObjectsOf (digest : Digest) : Except Unit (List PackFile) :=
  if digest = ⟨108⟩ then .ok [⟨packManifestFile, ⟨⟨1⟩, 10⟩⟩, ⟨['w'], ⟨⟨7⟩, 3⟩⟩]
  else if digest = ⟨102⟩ then .ok [⟨packManifestFile, ⟨⟨2⟩, 10⟩⟩]
  else .error ()

def sampleInputCodec : InputCodec where
  profilesDigest entries := ⟨(entries.map fun entry => entry.1.length + entry.2.value).sum⟩

def sampleLock : Except LockValidationError (Lock sampleLockCodec) := do
  let dependency ← LockedPack.new sampleLockCodec ['c', '.', 'd'] (.localLocator ['l']) ⟨102⟩ [] []
  let root ← LockedPack.new sampleLockCodec ['a', '.', 'b'] .root ⟨108⟩
    [⟨['y'], dependency.nodeId⟩, ⟨['x'], dependency.nodeId⟩]
    [⟨sampleName, ['w'], ⟨7⟩, .formatComponent, ⟨9⟩⟩]
  Lock.new root.nodeId [dependency, root]

/-- The lock is rebuilt from the inputs of its own graph. -/
theorem reconstructGraph_inverts_capture_sample :
    ∃ lock graph profiles, sampleLock = .ok lock ∧ lock.nodes.length = 2 ∧
      assembleLockedGraph samplePackCodec lock sampleObjectsOf = .ok graph ∧
      retainedComponentProfiles (ε := Unit) sampleInputCodec (graphInputs sampleInputCodec graph) =
        .ok profiles ∧
      reconstructGraph samplePackCodec sampleLockCodec sampleObjectsOf
        (graphInputs sampleInputCodec graph) profiles = .ok graph := by
  have hsample : okAnd sampleLock (fun lock => lock.nodes.length = 2 &&
      okAnd (assembleLockedGraph samplePackCodec lock sampleObjectsOf)
        fun _ => true) = true := by
    decide +kernel
  obtain ⟨lock, hlock, hrest⟩ := okAnd_iff.1 hsample
  rw [Bool.and_eq_true, decide_eq_true_iff] at hrest
  obtain ⟨graph, hgraph, -⟩ := okAnd_iff.1 hrest.2
  have hrecords : Records sampleInputCodec graph (graphInputs sampleInputCodec graph) :=
    ⟨[], by rw [append_nil], by simp⟩
  obtain ⟨-, -, profiles, hprofiles, hrebuilt⟩ := reconstructGraph_inverts_capture
    sampleLockCodec_collisionFree (fun digest pack hget => by cases hget) hgraph hrecords
  exact ⟨lock, graph, profiles, hlock, hrest.1, hgraph, hprofiles, hrebuilt⟩

end Malm.Engine
