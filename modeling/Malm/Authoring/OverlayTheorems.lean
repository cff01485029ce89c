/-
Malm.Authoring.OverlayTheorems — what supplied overlays can contribute to
a loaded workspace.

The span of every fragment source is followed through the parsers. An overlay's modules,
profiles, outputs, fragments and the fragment operations of its `use` items are rejected;
those of its `replace` items are not.
-/
import Malm.Authoring.Workspace

namespace Malm.Authoring

open Workspace Checks List ParsedWorkspace

variable {Output : Type}

variable {child node : KdlNode} {children : List KdlNode} {grammar : ModuleGrammar Output}
  {items : List ProfileItem} {label path : String} {loaded next : LoadedWorkspace Output}
  {ops : List FragmentOp} {parts : List (List ProfileItem)} {prof : ProfileDecl}

/-! ## 1. Spans of fragment sources -/

def FragmentOp.source : FragmentOp → FragmentSource
  | replace body => body.source
  | append body => body.source

def itemOperations (items : List ProfileItem) : List FragmentOp :=
  items.flatMap fun item => item.config.fragments

def defaultSources (fragments : List FragmentDecl) : List FragmentSource :=
  fragments.flatMap FragmentDecl.defaults

variable {file : FileId} {dir : String}

section Spans

theorem parseFragmentOp_file {op : FragmentOp} (h : parseFragmentOp file dir node = .ok op) :
    op.source.span.file = file := by
  unfold parseFragmentOp at h
  simp only [bind_ok, exists_unit, pure_ok] at h
  obtain ⟨-, -, frag, -, entry, -, path, -, rfl⟩ := h
  split <;> rfl

theorem parseFragmentOps_file (h : parseFragmentOps file dir node = .ok ops) :
    ∀ op ∈ ops, op.source.span.file = file := by
  unfold parseFragmentOps at h
  simp only [bind_ok, exists_unit] at h
  obtain ⟨-, -, -, hops⟩ := h
  intro op hop
  obtain ⟨child, -, hchild⟩ := exists_left_of_forall₂ (mapM_forall₂ hops) hop
  exact parseFragmentOp_file hchild

theorem parseSection_fragments
    (h : parseSection node "fragments" (parseFragmentOps file dir) = .ok ops) :
    ∀ op ∈ ops, op.source.span.file = file := by
  unfold parseSection at h
  split at h
  · cases h
    simp
  · exact parseFragmentOps_file h

theorem parseInstanceConfig_fragments {config : InstanceConfig}
    (h : parseInstanceConfig file dir node = .ok config) :
    parseSection node "fragments" (parseFragmentOps file dir) = .ok config.fragments := by
  unfold parseInstanceConfig at h
  simp only [bind_ok, exists_unit, pure_ok] at h
  obtain ⟨-, -, withEntries, -, fragments, hfragments, patchEntries, -, rfl⟩ := h
  exact hfragments

theorem parseUse_ok {item : ProfileItem} (h : parseUse file dir node = .ok item) :
    ∃ module alias_ config, item = .use module alias_ config (nodeSpan file node) ∧
      parseInstanceConfig file dir node = .ok config := by
  unfold parseUse at h
  simp only [bind_ok, exists_unit, pure_ok] at h
  obtain ⟨-, module, -, alias_, -, config, hconfig, rfl⟩ := h
  exact ⟨module, alias_, config, rfl, hconfig⟩

theorem parseReplace_ok {item : ProfileItem} (h : parseReplace file dir node = .ok item) :
    ∃ slot module alias_ config, item = .replace slot module alias_ config (nodeSpan file node) ∧
      parseInstanceConfig file dir node = .ok config := by
  unfold parseReplace at h
  simp only [bind_ok, exists_unit, pure_ok] at h
  obtain ⟨-, -, slot, -, module, -, alias_, -, config, hconfig, rfl⟩ := h
  exact ⟨slot, module, alias_, config, rfl, hconfig⟩

inductive ChildItems (file : FileId) (dir : String) (child : KdlNode) : List ProfileItem → Prop where
  | none (h : child.name ≠ "use" ∧ child.name ≠ "replace") : ChildItems file dir child []
  | use {module : String} {alias_ : Option String} {config : InstanceConfig} {span : Span}
      (hname : child.name = "use") (hconfig : parseInstanceConfig file dir child = .ok config) :
      ChildItems file dir child [.use module alias_ config span]
  | replace {slot module : String} {alias_ : Option String} {config : InstanceConfig} {span : Span}
      (hname : child.name = "replace") (hconfig : parseInstanceConfig file dir child = .ok config) :
      ChildItems file dir child [.replace slot module alias_ config span]

theorem parseProfileChild_ok {next : ProfileDecl}
    (h : parseProfileChild file dir prof child = .ok next) :
    ∃ items, ChildItems file dir child items ∧ next.items = prof.items ++ items ∧
      next.abstract_ = prof.abstract_ := by
  unfold parseProfileChild at h
  split at h
  · rename_i hname
    simp only [bind_ok, pure_ok] at h
    obtain ⟨parents, -, rfl⟩ := h
    exact ⟨[], .none (by simp [hname]), by simp, rfl⟩
  · rename_i hname
    simp only [bind_ok, pure_ok] at h
    obtain ⟨item, hitem, rfl⟩ := h
    obtain ⟨module, alias_, config, rfl, hconfig⟩ := parseUse_ok hitem
    exact ⟨_, .use hname hconfig, rfl, rfl⟩
  · rename_i hname
    simp only [bind_ok, pure_ok] at h
    obtain ⟨item, hitem, rfl⟩ := h
    obtain ⟨slot, module, alias_, config, rfl, hconfig⟩ := parseReplace_ok hitem
    exact ⟨_, .replace hname hconfig, rfl, rfl⟩
  · rename_i _ huse hreplace
    cases h
    exact ⟨[], .none ⟨huse, hreplace⟩, by simp, rfl⟩

theorem parseProfileChildren_ok : ∀ {children : List KdlNode} {prof r : ProfileDecl},
    children.foldlM (parseProfileChild file dir) prof = .ok r →
      ∃ parts, List.Forall₂ (ChildItems file dir) children parts ∧
        r.items = prof.items ++ parts.flatten
  | [], prof, r, h => by
    cases h
    exact ⟨[], .nil, by simp⟩
  | child :: rest, prof, r, h => by
    rw [foldlM_cons, bind_ok] at h
    obtain ⟨mid, hchild, hrest⟩ := h
    obtain ⟨items, hitems, hmiddle, -⟩ := parseProfileChild_ok hchild
    obtain ⟨parts, hparts, hres⟩ := parseProfileChildren_ok hrest
    exact ⟨items :: parts, .cons hitems hparts, by rw [hres, hmiddle]; simp⟩

theorem parseProfile_items (h : parseProfile file dir node = .ok prof) :
    ∃ parts, List.Forall₂ (ChildItems file dir) (childNodes node) parts ∧
      prof.items = parts.flatten := by
  unfold parseProfile at h
  simp only [bind_ok, exists_unit] at h
  obtain ⟨name, -, -, -, abstract_, -, hchildren⟩ := h
  obtain ⟨parts, hparts, hitems⟩ := parseProfileChildren_ok hchildren
  exact ⟨parts, hparts, by simpa using hitems⟩

theorem parseExtendProfile_items {extension : ExtendProfile}
    (h : parseExtendProfile file dir node = .ok extension) :
    ∃ parts, List.Forall₂ (ChildItems file dir) (childNodes node) parts ∧
      extension.items = parts.flatten := by
  unfold parseExtendProfile at h
  simp only [bind_ok, exists_unit, pure_ok] at h
  obtain ⟨prof, hprof, -, rfl⟩ := h
  exact parseProfile_items hprof

theorem ChildItems.source_file (h : ChildItems file dir child items) :
    ∀ op ∈ itemOperations items, op.source.span.file = file := by
  cases h with
  | none h => simp [itemOperations]
  | use hname hconfig =>
    simpa [itemOperations, ProfileItem.config] using
      parseSection_fragments (parseInstanceConfig_fragments hconfig)
  | replace hname hconfig =>
    simpa [itemOperations, ProfileItem.config] using
      parseSection_fragments (parseInstanceConfig_fragments hconfig)

theorem operations_file (h : List.Forall₂ (ChildItems file dir) children parts) :
    ∀ op ∈ itemOperations parts.flatten, op.source.span.file = file := by
  intro op hop
  obtain ⟨item, hitem, hop⟩ := mem_flatMap.1 hop
  obtain ⟨items, hitems, hitem⟩ := mem_flatten.1 hitem
  obtain ⟨child, -, hchild⟩ := exists_left_of_forall₂ h hitems
  exact hchild.source_file op (mem_flatMap.2 ⟨item, hitem, hop⟩)

theorem parseFragment_file {fragments next : List FragmentDecl}
    (h : parseFragment file dir fragments node = .ok next)
    (hfile : ∀ src ∈ defaultSources fragments, src.span.file = file) :
    ∀ src ∈ defaultSources next, src.span.file = file := by
  unfold parseFragment at h
  simp only [bind_ok, exists_unit, pure_ok] at h
  obtain ⟨-, -, -, name, -, -, cardinality, -, defaults, hdefaults, -, format, -, -, rfl⟩ := h
  intro src hsource
  simp only [defaultSources, flatMap_append, flatMap_singleton, mem_append] at hsource
  rcases hsource with hsource | hsource
  · exact hfile src hsource
  · unfold parseFragmentDefaults at hdefaults
    split at hdefaults
    · cases hdefaults
      cases hsource
    · obtain ⟨entry, -, hentry⟩ :=
        exists_left_of_forall₂ (mapM_forall₂ hdefaults) hsource
      simp only [bind_ok, pure_ok] at hentry
      obtain ⟨path, -, rfl⟩ := hentry
      rfl

theorem parseFragments_file {fragments : List FragmentDecl}
    (h : parseFragments file dir node = .ok fragments) :
    ∀ src ∈ defaultSources fragments, src.span.file = file := by
  unfold parseFragments at h
  simp only [bind_ok, exists_unit] at h
  obtain ⟨-, -, -, hfold⟩ := h
  exact foldlM_preserves hfold (fun _ _ _ _ hbefore hstep =>
    parseFragment_file hstep hbefore) (by simp [defaultSources])

theorem parseModule_file {module : ModuleDecl Output}
    (h : parseModule grammar file dir node = .ok module) :
    ∀ src ∈ defaultSources module.fragments, src.span.file = file := by
  unfold parseModule at h
  simp only [bind_ok, exists_unit] at h
  obtain ⟨name, -, -, -, -, hfold⟩ := h
  refine foldlM_preserves (P := fun module : ModuleDecl Output =>
    ∀ src ∈ defaultSources module.fragments, src.span.file = file) hfold ?_
    (by simp [defaultSources])
  intro child _ before after hbefore hstep
  unfold parseModuleSection at hstep
  split at hstep
  case h_6 =>
    simp only [bind_ok, pure_ok] at hstep
    obtain ⟨fragments, hfragments, rfl⟩ := hstep
    exact parseFragments_file hfragments
  case h_8 =>
    cases hstep
    exact hbefore
  all_goals
    simp only [bind_ok, pure_ok] at hstep
    obtain ⟨v, -, rfl⟩ := hstep
    exact hbefore

theorem parseExtendModule_file {extension : ExtendModule Output}
    (h : parseExtendModule grammar file dir node = .ok extension) :
    ∀ src ∈ defaultSources extension.fragments, src.span.file = file := by
  unfold parseExtendModule at h
  simp only [bind_ok, exists_unit] at h
  obtain ⟨name, -, -, -, -, hfold⟩ := h
  refine foldlM_preserves (P := fun extension : ExtendModule Output =>
    ∀ src ∈ defaultSources extension.fragments, src.span.file = file) hfold ?_
    (by simp [defaultSources])
  intro child _ before after hbefore hstep
  unfold parseExtensionSection at hstep
  split at hstep
  case h_3 =>
    simp only [bind_ok, pure_ok] at hstep
    obtain ⟨fragments, hfragments, rfl⟩ := hstep
    exact parseFragments_file hfragments
  case h_5 =>
    cases hstep
    exact hbefore
  all_goals
    simp only [bind_ok, pure_ok] at hstep
    obtain ⟨v, -, rfl⟩ := hstep
    exact hbefore

end Spans

/-! ## 2. The captured documents -/

def ParsedWorkspace.operations (parsed : ParsedWorkspace Output) : List FragmentOp :=
  itemOperations (parsed.profiles.flatMap ProfileDecl.items) ++
    itemOperations (parsed.profileExtensions.flatMap ExtendProfile.items)

/-- The fragment declarations of a workspace, in modules and extensions. -/
def ParsedWorkspace.fragments (parsed : ParsedWorkspace Output) : List FragmentDecl :=
  parsed.modules.flatMap ModuleDecl.fragments ++ parsed.extensions.flatMap ExtendModule.fragments

def ParsedWorkspace.outputs (parsed : ParsedWorkspace Output) : List Output :=
  parsed.modules.flatMap ModuleDecl.outputs ++ parsed.extensions.flatMap ExtendModule.outputs

/-- The files of default sources, and of the sources of the operations. -/
def ParsedWorkspace.fileSources (parsed : ParsedWorkspace Output) : List FragmentSource :=
  defaultSources parsed.fragments ++ parsed.operations.map FragmentOp.source

variable {parsed : ParsedWorkspace Output}

theorem ParsedWorkspace.mem_fileSources {source : FragmentSource} :
    source ∈ parsed.fileSources ↔
      (∃ module ∈ parsed.modules, source ∈ defaultSources module.fragments) ∨
      (∃ extension ∈ parsed.extensions, source ∈ defaultSources extension.fragments) ∨
      (∃ prof ∈ parsed.profiles, ∃ op ∈ itemOperations prof.items, op.source = source) ∨
      ∃ extension ∈ parsed.profileExtensions,
        ∃ op ∈ itemOperations extension.items, op.source = source := by
  simp only [fileSources, fragments, operations, defaultSources, itemOperations,
    flatMap_append, map_append, flatMap_assoc, map_flatMap, mem_append, or_assoc, ← mem_map]
  simp only [mem_flatMap]

def IsCaptured (sources : AuthoringSourceSet) (file : SourceFile) : Prop :=
  ∃ bytes, sources.get file.path = some bytes ∧ String.fromUTF8? bytes = some file.text

/-- Every file is captured, and every fragment source was written in one. -/
structure FromCaptured (sources : AuthoringSourceSet) (sourceMap : SourceMap)
    (parsed : ParsedWorkspace Output) : Prop where
  captured : ∀ file ∈ sourceMap, IsCaptured sources file
  located : ∀ source ∈ parsed.fileSources, source.span.file.index < sourceMap.length

/-- `next` has no fragment source that is neither in `parsed` nor in `file`. -/
def AddsFrom (file : FileId) (parsed next : ParsedWorkspace Output) : Prop :=
  ∀ source ∈ next.fileSources, source ∈ parsed.fileSources ∨ source.span.file = file

theorem AddsFrom.of_eq {next : ParsedWorkspace Output} (hmodules : next.modules = parsed.modules)
    (hextensions : next.extensions = parsed.extensions)
    (hprofs : next.profiles = parsed.profiles)
    (hprofileExtensions : next.profileExtensions = parsed.profileExtensions) :
    AddsFrom file parsed next := by
  intro src hsource
  left
  rw [mem_fileSources] at hsource ⊢
  rwa [hmodules, hextensions, hprofs, hprofileExtensions] at hsource

theorem AddsFrom.module {module : ModuleDecl Output}
    (h : ∀ src ∈ defaultSources module.fragments, src.span.file = file) :
    AddsFrom file parsed { parsed with modules := parsed.modules ++ [module] } := by
  intro src hsource
  rw [mem_fileSources] at hsource ⊢
  rcases hsource with ⟨other, hother, hsource⟩ | hsource
  · rcases mem_append.1 hother with hother | hother
    · exact .inl (.inl ⟨other, hother, hsource⟩)
    · rw [mem_singleton] at hother
      exact .inr (h src (hother ▸ hsource))
  · exact .inl (.inr hsource)

theorem AddsFrom.extension {extension : ExtendModule Output}
    (h : ∀ src ∈ defaultSources extension.fragments, src.span.file = file) :
    AddsFrom file parsed { parsed with extensions := parsed.extensions ++ [extension] } := by
  intro src hsource
  rw [mem_fileSources] at hsource ⊢
  rcases hsource with hsource | ⟨other, hother, hsource⟩ | hsource
  · exact .inl (.inl hsource)
  · rcases mem_append.1 hother with hother | hother
    · exact .inl (.inr (.inl ⟨other, hother, hsource⟩))
    · rw [mem_singleton] at hother
      exact .inr (h src (hother ▸ hsource))
  · exact .inl (.inr (.inr hsource))

theorem AddsFrom.profile (h : ∀ op ∈ itemOperations prof.items, op.source.span.file = file) :
    AddsFrom file parsed { parsed with profiles := parsed.profiles ++ [prof] } := by
  intro src hsource
  rw [mem_fileSources] at hsource ⊢
  rcases hsource with hsource | hsource | ⟨other, hother, op, hop, hsource⟩ | hsource
  · exact .inl (.inl hsource)
  · exact .inl (.inr (.inl hsource))
  · rcases mem_append.1 hother with hother | hother
    · exact .inl (.inr (.inr (.inl ⟨other, hother, op, hop, hsource⟩)))
    · rw [mem_singleton] at hother
      exact .inr (hsource ▸ h op (hother ▸ hop))
  · exact .inl (.inr (.inr (.inr hsource)))

theorem AddsFrom.profileExtension {extension : ExtendProfile}
    (h : ∀ op ∈ itemOperations extension.items, op.source.span.file = file) :
    AddsFrom file parsed
      { parsed with profileExtensions := parsed.profileExtensions ++ [extension] } := by
  intro src hsource
  rw [mem_fileSources] at hsource ⊢
  rcases hsource with hsource | hsource | hsource | ⟨other, hother, op, hop, hsource⟩
  · exact .inl (.inl hsource)
  · exact .inl (.inr (.inl hsource))
  · exact .inl (.inr (.inr (.inl hsource)))
  · rcases mem_append.1 hother with hother | hother
    · exact .inl (.inr (.inr (.inr ⟨other, hother, op, hop, hsource⟩)))
    · rw [mem_singleton] at hother
      exact .inr (hsource ▸ h op (hother ▸ hop))

variable {reader : DocumentReader} {sources : AuthoringSourceSet}

section Walk

/-- A step adds no file to the source map, and sources of its own document only. -/
structure StaysIn (file : FileId) (walker next : Walker Output) : Prop where
  sourceMap : next.sourceMap = walker.sourceMap
  adds : AddsFrom file walker.parsed next.parsed

variable {walker next : Walker Output}

theorem StaysIn.of_parsed_eq (hsourceMap : next.sourceMap = walker.sourceMap)
    (hparsed : next.parsed = walker.parsed) : StaysIn file walker next :=
  ⟨hsourceMap, hparsed ▸ fun _ hsource => .inl hsource⟩

theorem declare_staysIn {α : Type} {r : ParseResult α}
    {add : ParsedWorkspace Output → α → ParsedWorkspace Output}
    (h : ∀ v, r = .ok v → AddsFrom file walker.parsed (add walker.parsed v)) :
    StaysIn file walker (declare walker r add) := by
  unfold declare
  split
  · rename_i v
    exact ⟨rfl, h v rfl⟩
  · exact .of_parsed_eq rfl rfl

theorem consumeNode_staysIn (h : consumeNode grammar node path file walker = .ok next) :
    StaysIn file walker next := by
  unfold consumeNode at h
  split at h
  · unfold consumeConfig at h
    simp only [bind_ok, exists_unit, pure_ok] at h
    obtain ⟨-, -, -, -, t, -, defaultProfile, -, requiredState, -, rfl⟩ := h
    exact .of_parsed_eq rfl rfl
  · unfold consumeMeta at h
    simp only [bind_ok, exists_unit, pure_ok] at h
    obtain ⟨-, -, -, -, name, -, author, -, homepage, -, malmVersion, -, rfl⟩ := h
    exact .of_parsed_eq rfl rfl
  · unfold consumeAssets at h
    simp only [bind_ok, exists_unit, pure_ok] at h
    obtain ⟨-, man, -, rfl⟩ := h
    exact .of_parsed_eq rfl rfl
  · cases h
    exact declare_staysIn fun globals _ => .of_eq rfl rfl rfl rfl
  · cases h
    exact declare_staysIn fun module hmodule => .module (parseModule_file hmodule)
  · cases h
    exact declare_staysIn fun extension hextension => .extension (parseExtendModule_file hextension)
  · cases h
    refine declare_staysIn fun prof hprof => .profile ?_
    obtain ⟨parts, hparts, hitems⟩ := parseProfile_items hprof
    exact hitems ▸ operations_file hparts
  · cases h
    refine declare_staysIn fun extension hextension => .profileExtension ?_
    obtain ⟨parts, hparts, hitems⟩ := parseExtendProfile_items hextension
    exact hitems ▸ operations_file hparts
  · unfold consumeOverlay at h
    simp only [bind_ok, exists_unit, pure_ok] at h
    obtain ⟨-, -, name, -, overlayPath, -, -, -, optional, -, rfl⟩ := h
    exact .of_parsed_eq rfl rfl
  · cases h
    exact declare_staysIn fun slots _ => .of_eq rfl rfl rfl rfl
  · cases h

/-- Everything is captured, and no document leaves the source map. -/
structure WalkKeeps (sources : AuthoringSourceSet) (walker next : Walker Output) : Prop where
  captured : FromCaptured sources next.sourceMap next.parsed
  grows : walker.sourceMap.length ≤ next.sourceMap.length

theorem StaysIn.keeps (h : StaysIn file walker next)
    (hcaptured : FromCaptured sources walker.sourceMap walker.parsed)
    (hfile : file.index < walker.sourceMap.length) : WalkKeeps sources walker next where
  captured := {
    captured := h.sourceMap ▸ hcaptured.captured
    located := by
      intro src hsource
      rw [h.sourceMap]
      rcases h.adds src hsource with hold | hnew
      · exact hcaptured.located src hold
      · exact hnew ▸ hfile }
  grows := h.sourceMap ▸ Nat.le_refl _

theorem expandInclude_keeps {expand : String → Walker Output → Except String (Walker Output)}
    {including : String}
    (hexpand : ∀ path before after, FromCaptured sources before.sourceMap before.parsed →
      expand path before = .ok after → WalkKeeps sources before after)
    (hcaptured : FromCaptured sources walker.sourceMap walker.parsed)
    (h : expandInclude sources expand node including walker = .ok next) :
    WalkKeeps sources walker next := by
  unfold expandInclude at h
  simp only [bind_ok, exists_unit] at h
  obtain ⟨-, -, raw, -, optional, -, h⟩ := h
  split at h
  · rw [pure_ok] at h
    subst h
    split <;> exact ⟨hcaptured, Nat.le_refl _⟩
  · simp only [bind_ok, exists_unit] at h
    obtain ⟨-, h⟩ := h
    split at h
    · simp only [bind_ok, exists_unit, pure_ok] at h
      obtain ⟨-, rfl⟩ := h
      exact ⟨hcaptured, Nat.le_refl _⟩
    · exact hexpand _ _ _ hcaptured h

theorem openDocument_ok {stack : List String} {doc : KdlDocument}
    (h : openDocument reader sources stack path walker = .ok (doc, file, next))
    (hcaptured : FromCaptured sources walker.sourceMap walker.parsed) :
    WalkKeeps sources walker next ∧ file.index < next.sourceMap.length := by
  unfold openDocument at h
  simp only [bind_ok, exists_unit, pure_ok, require_ok,
    readDocument, Prod.exists, mapError_ok, Prod.mk.injEq] at h
  obtain ⟨bytes, hbytes, -, -, text, read, ⟨_, htext, _, -, rfl, rfl⟩, rfl, rfl, rfl⟩ := h
  refine ⟨⟨⟨?_, ?_⟩, by simp⟩, by simp⟩
  · intro other hother
    rcases mem_append.1 hother with hother | hother
    · exact hcaptured.captured other hother
    · rw [mem_singleton] at hother
      exact hother ▸ ⟨bytes, hbytes, htext⟩
  · intro src hsource
    have hold := hcaptured.located src hsource
    simp only [length_append, length_singleton]
    omega

theorem expandDocument_keeps : ∀ {depthLeft : Nat} {stack : List String} {path : String}
    {root : Bool} {walker next : Walker Output},
    FromCaptured sources walker.sourceMap walker.parsed →
      expandDocument reader grammar sources depthLeft stack path root walker = .ok next →
      WalkKeeps sources walker next
  | 0, _, _, _, _, _, _, h => by
    unfold expandDocument at h
    cases h
  | depthLeft + 1, stack, path, root, walker, next, hcaptured, h => by
    unfold expandDocument at h
    simp only [bind_ok, exists_unit] at h
    obtain ⟨-, -, h⟩ := h
    split at h
    · rw [pure_ok] at h
      exact h ▸ ⟨hcaptured, Nat.le_refl _⟩
    · simp only [bind_ok, Prod.exists] at h
      obtain ⟨doc, file, opened, hopen, hfold⟩ := h
      obtain ⟨hopened, hfile⟩ := openDocument_ok hopen hcaptured
      -- the invariant of the node loop: everything is captured and `file` is registered
      have hkept := foldlM_preserves
        (P := fun after : Walker Output => WalkKeeps sources opened after) hfold
        (by
          intro node _ before after hbefore hstep
          have hinside := Nat.lt_of_lt_of_le hfile hbefore.grows
          have hkeeps : WalkKeeps sources before after := by
            unfold expandNode at hstep
            split at hstep
            · exact expandInclude_keeps
                (fun included first last hfirst hlast => expandDocument_keeps hfirst hlast)
                hbefore.captured hstep
            · split at hstep
              · cases hstep
              · exact (consumeNode_staysIn hstep).keeps hbefore.captured hinside
          exact ⟨hkeeps.captured, Nat.le_trans hbefore.grows hkeeps.grows⟩)
        ⟨hopened.captured, Nat.le_refl _⟩
      exact ⟨hkept.captured, Nat.le_trans hopened.grows hkept.grows⟩

theorem loadCaptured_captured {entry : String} {diagnostics : Diagnostics}
    (h : loadCaptured reader grammar sources entry diagnostics = .ok loaded) :
    FromCaptured sources loaded.sourceMap loaded.parsed := by
  unfold loadCaptured at h
  simp only [bind_ok, pure_ok] at h
  obtain ⟨walker, hwalker, settings, -, rfl⟩ := h
  refine (expandDocument_keeps ⟨?_, ?_⟩ hwalker).captured
  · simp [Walker.initial]
  · simp [Walker.initial, ParsedWorkspace.mem_fileSources, ParsedWorkspace.default]

end Walk

/-! ## 3. The operations of an accepted profile extension -/

/-- Whether a child of a profile is a `replace` with a fragment operation. -/
def carriesOperations (child : KdlNode) : Bool :=
  child.name == "replace" &&
    (optChild child "fragments").any fun block => !(childNodes block).isEmpty

theorem parseSection_eq_nil_iff
    (h : parseSection node "fragments" (parseFragmentOps file dir) = .ok ops) :
    ops = [] ↔ ((optChild node "fragments").any fun block => !(childNodes block).isEmpty) = false := by
  unfold parseSection at h
  split at h
  · rename_i hnone
    cases h
    simp [hnone]
  · rename_i block hblock
    unfold parseFragmentOps at h
    simp only [bind_ok, exists_unit] at h
    obtain ⟨-, -, -, hops⟩ := h
    have hlen := (mapM_forall₂ hops).length_eq
    rw [hblock, ← length_eq_zero_iff, ← hlen]
    simp

/-- Where no `use` has operations, a child has one exactly when it is a `replace` with it. -/
theorem ChildItems.operations_eq_nil_iff (h : ChildItems file dir child items)
    (huses : items.any usesFragments = false) :
    itemOperations items = [] ↔ carriesOperations child = false := by
  cases h with
  | none h => simp [itemOperations, carriesOperations, h.2]
  | @use module alias_ config span hname hconfig =>
    have hfragments : config.fragments = [] := by simpa [usesFragments] using huses
    simp [itemOperations, ProfileItem.config, carriesOperations, hname, hfragments]
  | replace hname hconfig =>
    have hsection := parseSection_eq_nil_iff (parseInstanceConfig_fragments hconfig)
    simpa [itemOperations, ProfileItem.config, carriesOperations, hname] using hsection

theorem operations_eq_nil_iff (h : List.Forall₂ (ChildItems file dir) children parts)
    (huses : parts.flatten.any usesFragments = false) :
    itemOperations parts.flatten = [] ↔ ∀ child ∈ children, carriesOperations child = false := by
  induction h with
  | nil => simp [itemOperations]
  | @cons child items children parts hchild _ ih =>
    rw [flatten_cons, any_append, Bool.or_eq_false_iff] at huses
    have hfirst := hchild.operations_eq_nil_iff huses.1
    have hrest := ih huses.2
    unfold itemOperations at hfirst hrest ⊢
    rw [flatten_cons, flatMap_append, append_eq_nil_iff, hfirst, hrest]
    simp

/-! ## 4. One overlay -/

def extensionOperations (file : FileId) (node : KdlNode) : List FragmentOp :=
  if node.name = "extend-profile" then
    match parseExtendProfile file "" node with
    | .ok extension => itemOperations extension.items
    | .error _ => []
  else
    []

/-- An accepted profile extension whose `replace` carries a fragment operation. -/
def CarriesOperations (file : FileId) (node : KdlNode) : Prop :=
  node.name = "extend-profile" ∧
    (∃ extension, parseExtendProfile file "" node = .ok extension) ∧
    ∃ child ∈ childNodes node, carriesOperations child = true

/-- `next` is `loaded` with these operations and otherwise only values and requirements. -/
structure AddsOnly (operations : List FragmentOp) (loaded next : LoadedWorkspace Output) :
    Prop where
  includes : next.externalIncludesSkipped = loaded.externalIncludesSkipped
  sourceMap : loaded.sourceMap <+: next.sourceMap
  modules : next.parsed.modules = loaded.parsed.modules
  profiles : next.parsed.profiles = loaded.parsed.profiles
  outputs : next.parsed.outputs = loaded.parsed.outputs
  fragments : next.parsed.fragments = loaded.parsed.fragments
  operations : next.parsed.operations = loaded.parsed.operations ++ operations

theorem AddsOnly.refl (loaded : LoadedWorkspace Output) : AddsOnly [] loaded loaded :=
  ⟨rfl, prefix_rfl, rfl, rfl, rfl, rfl, (append_nil _).symm⟩

theorem AddsOnly.of_same
    (hincludes : next.externalIncludesSkipped = loaded.externalIncludesSkipped)
    (hsourceMap : next.sourceMap = loaded.sourceMap)
    (hmodules : next.parsed.modules = loaded.parsed.modules)
    (hextensions : next.parsed.extensions = loaded.parsed.extensions)
    (hprofs : next.parsed.profiles = loaded.parsed.profiles)
    (hprofileExtensions : next.parsed.profileExtensions = loaded.parsed.profileExtensions) :
    AddsOnly [] loaded next where
  includes := hincludes
  sourceMap := hsourceMap ▸ prefix_rfl
  modules := hmodules
  profiles := hprofs
  outputs := by rw [ParsedWorkspace.outputs, hmodules, hextensions, ParsedWorkspace.outputs]
  fragments := by rw [ParsedWorkspace.fragments, hmodules, hextensions, ParsedWorkspace.fragments]
  operations := by
    rw [ParsedWorkspace.operations, hprofs, hprofileExtensions, append_nil,
      ParsedWorkspace.operations]

theorem AddsOnly.trans {first snd third : LoadedWorkspace Output}
    {operations others : List FragmentOp} (h : AddsOnly operations first snd)
    (h' : AddsOnly others snd third) : AddsOnly (operations ++ others) first third where
  includes := h'.includes.trans h.includes
  sourceMap := h.sourceMap.trans h'.sourceMap
  modules := h'.modules.trans h.modules
  profiles := h'.profiles.trans h.profiles
  outputs := h'.outputs.trans h.outputs
  fragments := h'.fragments.trans h.fragments
  operations := by rw [h'.operations, h.operations, append_assoc]

section Overlay

theorem applyOverlayNode_ok (h : applyOverlayNode grammar label file loaded node = .ok next) :
    AddsOnly (extensionOperations file node) loaded next ∧ next.sourceMap = loaded.sourceMap ∧
      (extensionOperations file node = [] ↔ ¬ CarriesOperations file node) := by
  unfold applyOverlayNode at h
  split at h
  · rename_i hname
    have hnone : extensionOperations file node = [] := by simp [extensionOperations, hname]
    have hcarries : extensionOperations file node = [] ↔ ¬ CarriesOperations file node := by
      simp [hnone, CarriesOperations, hname]
    unfold declareOverlay at h
    split at h
    · simp only [bind_ok, exists_unit, pure_ok] at h
      obtain ⟨-, rfl⟩ := h
      exact ⟨hnone ▸ .of_same rfl rfl rfl rfl rfl rfl, rfl, hcarries⟩
    · cases h
      exact ⟨hnone ▸ .of_same rfl rfl rfl rfl rfl rfl, rfl, hcarries⟩
  · rename_i hname
    unfold declareOverlay at h
    split at h
    · rename_i extension hextension
      simp only [bind_ok, exists_unit, pure_ok, checkOverlayProfile,
        reject_ok, Bool.not_eq_true] at h
      obtain ⟨huses, rfl⟩ := h
      have hadded : extensionOperations file node = itemOperations extension.items := by
        simp [extensionOperations, hname, hextension]
      refine ⟨⟨rfl, prefix_rfl, rfl, rfl, rfl, rfl, ?_⟩, rfl, ?_⟩
      · simp [hadded, operations, itemOperations]
      · obtain ⟨parts, hparts, hitems⟩ := parseExtendProfile_items hextension
        rw [hadded, hitems, operations_eq_nil_iff hparts (hitems ▸ huses)]
        simp [CarriesOperations, hname, hextension]
    · rename_i diagnostic hextension
      cases h
      have hnone : extensionOperations file node = [] := by
        simp [extensionOperations, hextension]
      exact ⟨hnone ▸ .of_same rfl rfl rfl rfl rfl rfl, rfl,
        by simp [hnone, CarriesOperations, hextension]⟩
  · rename_i hname
    have hnone : extensionOperations file node = [] := by simp [extensionOperations, hname]
    unfold declareOverlay at h
    split at h
    · simp only [bind_ok, exists_unit, pure_ok, checkOverlayModule,
        reject_ok, not_or, Bool.not_eq_false, List.isEmpty_iff] at h
      obtain ⟨⟨hfragments, houtputs⟩, rfl⟩ := h
      refine ⟨hnone ▸ ⟨rfl, prefix_rfl, rfl, rfl, ?_, ?_, (append_nil _).symm⟩, rfl,
        by simp [hnone, CarriesOperations, hname]⟩
      · simp [outputs, houtputs]
      · simp [fragments, hfragments]
    · cases h
      exact ⟨hnone ▸ .of_same rfl rfl rfl rfl rfl rfl, rfl,
        by simp [hnone, CarriesOperations, hname]⟩
  · cases h

theorem applyOverlayNodes_ok :
    ∀ {doc : KdlDocument} {loaded next : LoadedWorkspace Output},
      doc.foldlM (applyOverlayNode grammar label file) loaded = .ok next →
      AddsOnly (doc.flatMap (extensionOperations file)) loaded next ∧
        next.sourceMap = loaded.sourceMap ∧
        (doc.flatMap (extensionOperations file) = [] ↔
          ∀ node ∈ doc, ¬ CarriesOperations file node)
  | [], loaded, next, h => by
    cases h
    exact ⟨.refl _, rfl, by simp⟩
  | node :: rest, loaded, next, h => by
    rw [foldlM_cons, bind_ok] at h
    obtain ⟨mid, hnode, hrest⟩ := h
    obtain ⟨hadds, hmap, hnil⟩ := applyOverlayNode_ok hnode
    obtain ⟨haddsRest, hmapRest, hnilRest⟩ := applyOverlayNodes_ok hrest
    refine ⟨by simpa using hadds.trans haddsRest, hmapRest.trans hmap, ?_⟩
    rw [flatMap_cons, append_eq_nil_iff, hnil, hnilRest]
    simp

def ReadsTo (reader : DocumentReader) (bytes : ByteArray) (document : KdlDocument) : Prop :=
  ∃ text, String.fromUTF8? bytes = some text ∧ reader text = .ok document

theorem applyOverlay_ok {decl : OverlayDecl} {bytes : ByteArray}
    (h : applyOverlay reader grammar loaded decl bytes = .ok next) :
    ∃ doc, ReadsTo reader bytes doc ∧
      AddsOnly (doc.flatMap (extensionOperations ⟨loaded.sourceMap.length⟩)) loaded next ∧
      next.sourceMap.length = loaded.sourceMap.length + 1 ∧
      (doc.flatMap (extensionOperations ⟨loaded.sourceMap.length⟩) = [] ↔
        ∀ node ∈ doc, ¬ CarriesOperations ⟨loaded.sourceMap.length⟩ node) := by
  unfold applyOverlay at h
  simp only [bind_ok, exists_unit, pure_ok, require_ok,
    readDocument, Prod.exists, mapError_ok, Prod.mk.injEq] at h
  obtain ⟨-, _, _, ⟨text, htext, doc, hdoc, rfl, rfl⟩, hnodes⟩ := h
  obtain ⟨hadds, hmap, hnil⟩ := applyOverlayNodes_ok hnodes
  refine ⟨doc, ⟨text, htext, hdoc⟩, ⟨hadds.includes, ?_, hadds.modules, hadds.profiles,
    hadds.outputs, hadds.fragments, hadds.operations⟩, by rw [hmap]; simp, hnil⟩
  exact (prefix_append _ _).trans hadds.sourceMap

/-! ## 5. All overlays -/

/-- The overlays a load applies: of each declared one the supplied document. -/
def appliedOverlays (overlays : List OverlaySource) (declared : List OverlayDecl) :
    List OverlaySource :=
  declared.filterMap (suppliedOverlay overlays)

/-- No overlay has a `replace` with a fragment operation; the first has the index `next`. -/
def ValueOnlyFrom (reader : DocumentReader) (overlays : List OverlaySource)
    (declared : List OverlayDecl) (next : Nat) : Prop :=
  ∀ applied ∈ (appliedOverlays overlays declared).zipIdx next, ∀ document,
    ReadsTo reader applied.1.bytes document →
      ∀ node ∈ document, ¬ CarriesOperations ⟨applied.2⟩ node

theorem ReadsTo.unique {bytes : ByteArray} {doc other : KdlDocument}
    (h : ReadsTo reader bytes doc) (h' : ReadsTo reader bytes other) : doc = other := by
  obtain ⟨text, htext, hdoc⟩ := h
  obtain ⟨text', htext', hother⟩ := h'
  obtain rfl := Option.some.inj (htext.symm.trans htext')
  exact Except.ok.inj (hdoc.symm.trans hother)

theorem applyDeclaredAll_ok {overlays : List OverlaySource} :
    ∀ {decl : List OverlayDecl} {loaded next : LoadedWorkspace Output},
      decl.foldlM (applyDeclared reader grammar overlays) loaded = .ok next →
      ∃ ops, AddsOnly ops loaded next ∧
        (ops = [] ↔ ValueOnlyFrom reader overlays decl loaded.sourceMap.length)
  | [], loaded, next, h => by
    cases h
    exact ⟨[], .refl _, by simp [ValueOnlyFrom, appliedOverlays]⟩
  | first :: rest, loaded, next, h => by
    rw [foldlM_cons, bind_ok] at h
    obtain ⟨mid, hfirst, hrest⟩ := h
    obtain ⟨ops, hadds, hnil⟩ := applyDeclaredAll_ok hrest
    unfold applyDeclared at hfirst
    split at hfirst
    · rename_i hnone
      cases hfirst
      exact ⟨ops, hadds, by
        rw [hnil, ValueOnlyFrom, ValueOnlyFrom, appliedOverlays, appliedOverlays,
          filterMap_cons_none hnone]⟩
    · rename_i supplied hsupplied
      obtain ⟨doc, hreads, haddsFirst, hlen, hnilFirst⟩ := applyOverlay_ok hfirst
      refine ⟨_, haddsFirst.trans hadds, ?_⟩
      rw [append_eq_nil_iff, hnilFirst, hnil, hlen, ValueOnlyFrom, ValueOnlyFrom,
        appliedOverlays, appliedOverlays, filterMap_cons_some hsupplied, zipIdx_cons]
      simp only [forall_mem_cons]
      refine and_congr_left fun _ => ⟨?_, fun h => h doc hreads⟩
      intro h other hother
      exact hreads.unique hother ▸ h

/-- The overlays contributed values only, and every fragment source is of a captured document. -/
structure OverlaysValueOnly (sources : AuthoringSourceSet)
    (captured loaded : LoadedWorkspace Output) : Prop where
  includes : loaded.externalIncludesSkipped = captured.externalIncludesSkipped
  modules : loaded.parsed.modules = captured.parsed.modules
  profiles : loaded.parsed.profiles = captured.parsed.profiles
  outputs : loaded.parsed.outputs = captured.parsed.outputs
  fragments : loaded.parsed.fragments = captured.parsed.fragments
  operations : loaded.parsed.operations = captured.parsed.operations
  located : ∀ source ∈ loaded.parsed.fileSources,
    ∃ file, loaded.sourceMap[source.span.file.index]? = some file ∧ IsCaptured sources file

theorem AddsOnly.valueOnly_iff {sources : AuthoringSourceSet} {captured : LoadedWorkspace Output}
    (h : AddsOnly ops captured loaded)
    (hcaptured : FromCaptured sources captured.sourceMap captured.parsed) :
    OverlaysValueOnly sources captured loaded ↔ ops = [] := by
  constructor
  · intro hvalue
    have heq := h.operations.symm.trans hvalue.operations
    exact append_right_eq_self.1 heq
  · rintro rfl
    have hoperations := h.operations.trans (append_nil _)
    refine ⟨h.includes, h.modules, h.profiles, h.outputs, h.fragments, hoperations, ?_⟩
    intro src hsource
    have hold : src ∈ captured.parsed.fileSources := by
      rwa [fileSources, h.fragments, hoperations] at hsource
    have hindex := hcaptured.located src hold
    obtain ⟨others, hothers⟩ := h.sourceMap
    refine ⟨captured.sourceMap[src.span.file.index], ?_,
      hcaptured.captured _ (getElem_mem hindex)⟩
    rw [← hothers, getElem?_append_left hindex, getElem?_eq_getElem hindex]

variable {entry : String} {overlays : List OverlaySource} {diagnostics : Diagnostics}

theorem loadWorkspace_ok
    (h : loadWorkspace reader grammar sources entry overlays diagnostics = .ok loaded) :
    ∃ captured, loadCaptured reader grammar sources entry diagnostics = .ok captured ∧
      captured.overlays.foldlM (applyDeclared reader grammar overlays) captured = .ok loaded := by
  unfold loadWorkspace at h
  simp only [bind_ok, exists_unit] at h
  obtain ⟨captured, hcaptured, -, hfold⟩ := h
  exact ⟨captured, hcaptured, hfold⟩

theorem loadWorkspace_without_overlays :
    loadWorkspace reader grammar sources entry [] diagnostics =
      loadCaptured reader grammar sources entry diagnostics := by
  have hskip : ∀ (decl : List OverlayDecl) (loaded : LoadedWorkspace Output),
      decl.foldlM (applyDeclared reader grammar []) loaded = .ok loaded := by
    intro decl loaded
    induction decl with
    | nil => rfl
    | cons first rest ih =>
      rw [foldlM_cons]
      exact ih
  unfold loadWorkspace
  cases loadCaptured reader grammar sources entry diagnostics with
  | error message => rfl
  | ok captured => exact hskip captured.overlays captured

/-- Overlays are value-only exactly when none has a `replace` with a fragment operation. -/
theorem overlays_value_only_iff {loaded : LoadedWorkspace Output}
    (h : loadWorkspace reader grammar sources entry overlays diagnostics = .ok loaded) :
    ∃ captured, loadWorkspace reader grammar sources entry [] diagnostics = .ok captured ∧
      (OverlaysValueOnly sources captured loaded ↔
        ValueOnlyFrom reader overlays captured.overlays captured.sourceMap.length) := by
  obtain ⟨captured, hcaptured, hfold⟩ := loadWorkspace_ok h
  obtain ⟨operations, hadds, hnil⟩ := applyDeclaredAll_ok hfold
  refine ⟨captured, loadWorkspace_without_overlays.trans hcaptured, ?_⟩
  rw [hadds.valueOnly_iff (loadCaptured_captured hcaptured), hnil]

end Overlay

/-! ## 6. An overlay with a fragment operation -/

/-- A root document that declares an overlay. -/
def overlaidPackText : String :=
  "config target=\"~\"\noverlay \"local\" path=\"~/local.kdl\"\n"

/-- An overlay that composes a fragment of a slot's module from a file. -/
def replacingOverlayText : String :=
  "extend-profile \"desk\" \x7b\n    replace slot=\"bar\" module=\"waybar\" \x7b\n        fragments \x7b\n            replace \"style\" source=\"./notes.css\"\n        \x7d\n    \x7d\n\x7d\n"

def kdlArgument (value : String) (offset len : Nat) : KdlEntry :=
  ⟨none, none, .string value, ⟨offset, len⟩⟩

def kdlProperty (name value : String) (offset len : Nat) : KdlEntry :=
  ⟨some name, none, .string value, ⟨offset, len⟩⟩

def overlaidPackDocument : KdlDocument :=
  [.mk none "config" [kdlProperty "target" "~" 7 10] none ⟨0, 17⟩,
    .mk none "overlay" [kdlArgument "local" 26 7, kdlProperty "path" "~/local.kdl" 34 18] none
      ⟨18, 34⟩]

def replacingOverlayDocument : KdlDocument :=
  [.mk none "extend-profile" [kdlArgument "desk" 15 6]
    (some [.mk none "replace"
      [kdlProperty "slot" "bar" 36 10, kdlProperty "module" "waybar" 47 15]
      (some [.mk none "fragments" []
        (some [.mk none "replace"
          [kdlArgument "style" 105 7, kdlProperty "source" "./notes.css" 113 20] none ⟨97, 36⟩])
        ⟨73, 70⟩])
      ⟨28, 121⟩])
    ⟨0, 151⟩]

/-- The KDL library on the two texts. -/
def overlaidReader : DocumentReader := fun text =>
  if text = overlaidPackText then .ok overlaidPackDocument
  else if text = replacingOverlayText then .ok replacingOverlayDocument
  else .error "unexpected text"

/-- The grammar of modules, of which the two documents have none. -/
def noModules : ModuleGrammar Unit :=
  ⟨fun _ _ => .ok [], fun _ _ => .ok [], fun _ _ _ => .ok []⟩

def overlaidSources : AuthoringSourceSet :=
  ⟨[("malm.kdl", overlaidPackText.toUTF8), ("notes.css", "".toUTF8)], by decide +kernel⟩

def loadOverlaid (overlays : List OverlaySource) : Except String (LoadedWorkspace Unit) :=
  loadWorkspace overlaidReader noModules overlaidSources "malm.kdl" overlays []

def replacingOverlay : List OverlaySource := [⟨"local", replacingOverlayText.toUTF8⟩]

theorem loadOverlaid_operations :
    okAnd (loadOverlaid []) (fun loaded => loaded.parsed.operations.length == 0) = true ∧
      okAnd (loadOverlaid replacingOverlay)
        (fun loaded => loaded.parsed.operations.length == 1) = true := by
  constructor <;> decide +kernel

/-- An overlay composes a fragment from `notes.css`, which no captured document mentions. -/
theorem overlay_adds_operation :
    ∃ captured loaded, loadOverlaid [] = .ok captured ∧
      loadOverlaid replacingOverlay = .ok loaded ∧
      ¬ OverlaysValueOnly overlaidSources captured loaded := by
  obtain ⟨hwithout, hwith⟩ := loadOverlaid_operations
  obtain ⟨captured, hcaptured, hnone⟩ := okAnd_iff.1 hwithout
  obtain ⟨loaded, hloaded, hone⟩ := okAnd_iff.1 hwith
  refine ⟨captured, loaded, hcaptured, hloaded, fun hvalue => ?_⟩
  rw [beq_iff_eq] at hnone hone
  rw [hvalue.operations, hnone] at hone
  exact absurd hone (by decide)

theorem overlays_value_only_iff_overlaid :
    ∃ loaded captured, loadOverlaid replacingOverlay = .ok loaded ∧
      loadOverlaid [] = .ok captured ∧
      (OverlaysValueOnly overlaidSources captured loaded ↔
        ValueOnlyFrom overlaidReader replacingOverlay captured.overlays
          captured.sourceMap.length) := by
  obtain ⟨loaded, hloaded, -⟩ := okAnd_iff.1 loadOverlaid_operations.2
  obtain ⟨captured, hcaptured, hiff⟩ := overlays_value_only_iff hloaded
  exact ⟨loaded, captured, hloaded, hcaptured, hiff⟩

end Malm.Authoring
