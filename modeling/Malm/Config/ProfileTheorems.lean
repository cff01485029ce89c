/-
Malm.Config.ProfileTheorems — what profile validation accepts.

Whatever is accepted has all its parents and no cycle, and the effective profiles of
a selected one are its ancestors in order. A complete profile is not visited again,
so long chains can be accepted (`accepted_of_parents_first`); validation is exact
where no such chain exists (`validateProfileGraph_exact_iff`).
-/
import Malm.Config.Profiles

namespace Malm.Config

open Checks List Nat DepthSearch SortedMap

variable {names order : List RichName} {parent : RichName}

/-! ## 1. Inheritance -/

section Inheritance

variable (profiles : SortedMap RichName RichProfile)

def Inherits (name parent : RichName) : Prop :=
  ∃ profile, profiles.get? name = some profile ∧ parent ∈ profile.extendsNames

def ParentsExist : Prop := ∀ name parent, Inherits profiles name parent → parent ∈ profiles.keys

/-- No profile is its own ancestor. -/
def Uncycled : Prop := ∀ name, ¬ Relation.TransGen (Inherits profiles) name name

/-- Every chain of profiles, from child to parent, is within a length. -/
def ChainsWithin (limit : Nat) : Prop :=
  ∀ chain : List RichName, chain.IsChain (Inherits profiles) → (∀ name ∈ chain, name ∈ profiles.keys) →
    chain.length ≤ limit

def Accepted : Prop := validateProfileGraph profiles = .ok ()

variable {profiles}

variable {name : RichName}

theorem mem_parentsOf :
    parent ∈ parentsOf profiles name ↔ Inherits profiles name parent := by
  unfold parentsOf Inherits
  cases profiles.get? name with
  | none => simp
  | some prof => simp

theorem profileSearch_targets : (profileSearch profiles).targets = parentsOf profiles := by
  funext name
  exact map_id _

theorem inherits_eq : (fun a b => b ∈ (profileSearch profiles).targets a) = Inherits profiles := by
  funext name parent
  rw [profileSearch_targets]
  exact propext mem_parentsOf

theorem Inherits.mem_keys (h : Inherits profiles name parent) :
    name ∈ profiles.keys := by
  obtain ⟨prof, hprof, -⟩ := h
  exact SortedMap.mem_keys.2 ⟨prof, hprof⟩

theorem profileSearch_keeps : DepthSearch.Keeps (profileSearch profiles) (fun _ _ => True) :=
  ⟨fun _ _ _ => trivial, fun _ _ => trivial⟩

theorem profileSearch_admits (hparents : ParentsExist profiles) :
    DepthSearch.Admits (profileSearch profiles) (fun _ _ => True) (· ∈ profiles.keys) where
  toKeeps := profileSearch_keeps
  enter_ok := fun _ _ _ => ⟨_, rfl⟩
  follow_ok := fun _ _ _ => ⟨_, rfl⟩
  closed := fun _ hedge => hparents _ _ (mem_parentsOf.1 hedge)

theorem validateProfileGraph_ok : Accepted profiles ↔ ParentsExist profiles ∧
    ∃ colors, profiles.keys.foldlM
      (fun colors name => visitProfile profiles maxRichProfileDepth name colors) ⟨[], [], ()⟩ =
        .ok colors := by
  simp only [Accepted, validateProfileGraph, bind_ok, exists_unit, forM_ok,
    reject_ok, Bool.not_eq_false, SortedMap.contains_iff, pure_ok]
  refine and_congr ?_ (by simp)
  constructor
  · intro h name parent hinherits
    obtain ⟨prof, hprof, hparent⟩ := hinherits
    exact h (name, prof) (SortedMap.get?_eq_some.1 hprof) parent hparent
  · intro h e hentry parent hparent
    exact h e.1 parent ⟨e.2, SortedMap.get?_eq_some.2 hentry, hparent⟩

/-! ## 2. Acceptance -/

theorem Accepted.sound (h : Accepted profiles) : ParentsExist profiles ∧ Uncycled profiles := by
  obtain ⟨hparents, colors, hcolors⟩ := validateProfileGraph_ok.1 h
  refine ⟨hparents, fun name hcycle => ?_⟩
  obtain ⟨hsettled, -, hall⟩ := visitAll_extends profileSearch_keeps hcolors
  obtain ⟨parent, hinherits, -⟩ := Relation.TransGen.head'_iff.1 hcycle
  have hmem := mem_reverse.2 (hall hinherits.mem_keys)
  rw [← inherits_eq] at hcycle
  exact (hsettled trivial).acyclic hmem hcycle

section

variable (hparents : ParentsExist profiles) (huncycled : Uncycled profiles)

include hparents huncycled

theorem accepted_of_fits (hfits : ∀ earlier name later, profiles.keys = earlier ++ name :: later →
      DepthSearch.Fits (profileSearch profiles) earlier maxRichProfileDepth name) :
    Accepted profiles := by
  refine validateProfileGraph_ok.2 ⟨hparents, ?_⟩
  refine visitAll_ok (profileSearch_admits hparents) (inherits_eq ▸ huncycled)
    (fun _ hname => hname) ?_ rfl trivial
  intro earlier name later hsplit
  exact (hfits earlier name later hsplit).mono (subset_append_left _ _)

theorem accepted_of_short (hshort : ChainsWithin profiles maxRichProfileDepth) :
    Accepted profiles := by
  refine accepted_of_fits hparents huncycled fun earlier name later hsplit => ?_
  have hname : name ∈ profiles.keys := by
    rw [hsplit]
    exact mem_append_right _ mem_cons_self
  refine fits_of_paths earlier fun path hpath => ?_
  rw [inherits_eq] at hpath
  refine hshort (name :: path) hpath (forall_mem_cons.2 ⟨hname, ?_⟩)
  exact hpath.cons_induction _ path (fun _ _ hinherits _ => hparents _ _ hinherits) hname

/-- Profiles whose parents have smaller names are accepted, whatever their depth. -/
theorem accepted_of_parents_first
    (hfirst : ∀ name parent, Inherits profiles name parent → parent < name) :
    Accepted profiles := by
  refine accepted_of_fits hparents huncycled fun earlier name later hsplit => ?_
  refine .inr fun parent hparent => .inl ?_
  have hinherits := mem_parentsOf.1 hparent
  have hlt := hfirst name parent hinherits
  have hmem := hparents name parent hinherits
  have hsorted := profiles.sorted
  rw [show profiles.entries.map Prod.fst = earlier ++ name :: later from hsplit,
    pairwise_append, pairwise_cons] at hsorted
  rw [hsplit] at hmem
  rcases mem_append.1 hmem with hmem | hmem
  · exact hmem
  · rcases mem_cons.1 hmem with rfl | hmem
    · exact absurd hlt (lt_irrefl _)
    · exact absurd hlt (lt_asymm (hsorted.2.1.1 parent hmem))

end

/-! ## 3. Effective profiles -/

/-- The visited names are those of the stack and the complete ones. -/
def VisitedIn (visited : List RichName) (colors : DepthSearch.State RichName Unit) : Prop :=
  ∀ other, other ∈ visited ↔ other ∈ colors.stack ∨ other ∈ colors.complete

theorem foldlM_effective_of_visit {fuel : Nat} {below : DepthSearch.State RichName Unit}
    (hvisit : ∀ {parent : RichName} {before after : DepthSearch.State RichName Unit}
      {visited : List RichName}, visitProfile profiles fuel parent before = .ok after →
      parent ∈ profiles.keys → VisitedIn visited before →
      ∃ visited', visitEffective profiles fuel parent (visited, before.complete) =
          some (visited', after.complete) ∧ VisitedIn visited' after) :
    ∀ {parents : List RichName} {s : DepthSearch.State RichName Unit} {seen : List RichName},
      (∀ parent ∈ parents, parent ∈ profiles.keys) →
      parents.foldlM (followEdge (profileSearch profiles)
        (visit (profileSearch profiles) fuel) name) s = .ok below →
      VisitedIn seen s →
      ∃ seen', parents.foldlM (fun s parent => visitEffective profiles fuel parent s)
          (seen, s.complete) = some (seen', below.complete) ∧ VisitedIn seen' below := by
  intro parents
  induction parents with
  | nil =>
    intro s seen _ hstate hseen
    cases hstate
    exact ⟨seen, rfl, hseen⟩
  | cons parent parents ih =>
    intro s seen hkeys hstate hseen
    obtain ⟨hkey, hkeys⟩ := forall_mem_cons.1 hkeys
    rw [foldlM_cons, bind_ok] at hstate
    obtain ⟨middle, hmiddle, hstate⟩ := hstate
    obtain ⟨seen', hfirst, hseen'⟩ : ∃ seen', visitEffective profiles fuel parent
        (seen, s.complete) = some (seen', middle.complete) ∧ VisitedIn seen' middle :=
      hvisit hmiddle hkey hseen
    rw [foldlM_cons, hfirst]
    exact ih hkeys hstate hseen'

theorem visitEffective_of_visit (hparents : ParentsExist profiles) {fuel : Nat}
    {before after : DepthSearch.State RichName Unit} {visited : List RichName}
    (h : visitProfile profiles fuel name before = .ok after) (hname : name ∈ profiles.keys)
    (hvisited : VisitedIn visited before) :
    ∃ visited', visitEffective profiles fuel name (visited, before.complete) =
        some (visited', after.complete) ∧ VisitedIn visited' after := by
  induction fuel generalizing name before after visited with
  | zero => cases h
  | succ fuel ih =>
    rw [visitProfile, visit] at h
    split at h
    · rename_i hcomplete
      cases h
      refine ⟨visited, ?_, hvisited⟩
      rw [visitEffective, if_pos ((hvisited name).2 (.inr hcomplete))]
    split at h
    · cases h
    rename_i hfresh hnew
    simp only [bind_ok, pure_ok] at h
    obtain ⟨data, -, below, hbelow, rfl⟩ := h
    obtain ⟨prof, hprof⟩ := mem_keys.1 hname
    have hedges : parentsOf profiles name = prof.extendsNames := by
      rw [parentsOf, hprof]
    have hstack : below.stack = before.stack ++ [name] :=
      (followEdges_extends profileSearch_keeps
        (visit_extends profileSearch_keeps) (List.Subset.refl _) hbelow).1.stack
    have hkeys : ∀ parent ∈ parentsOf profiles name, parent ∈ profiles.keys :=
      fun parent hparent => hparents name parent (mem_parentsOf.1 hparent)
    have hentered : VisitedIn (name :: visited) ⟨before.stack ++ [name], before.complete, data⟩ := by
      intro other
      rw [mem_cons, hvisited other, mem_append, mem_singleton]
      tauto
    obtain ⟨seen, hfold, hseen⟩ := foldlM_effective_of_visit ih hkeys hbelow hentered
    rw [hedges] at hfold
    have hout : name ∉ visited := fun hmem => ((hvisited name).1 hmem).elim hnew hfresh
    refine ⟨seen, ?_, ?_⟩
    · rw [visitEffective, if_neg hout, hprof]
      show (prof.extendsNames.foldlM (fun s parent => visitEffective profiles fuel parent s)
        (name :: visited, before.complete)).bind _ = _
      rw [hfold]
      rfl
    · intro other
      show other ∈ seen ↔ other ∈ below.stack.dropLast ∨ other ∈ below.complete ++ [name]
      rw [hseen other, hstack, dropLast_concat, mem_append, mem_append, mem_singleton]
      tauto

theorem chain_length_le (hparents : ParentsExist profiles) (huncycled : Uncycled profiles)
    {path : List RichName} (hpath : (name :: path).IsChain (Inherits profiles))
    (hname : name ∈ profiles.keys) : (name :: path).length ≤ profiles.entries.length := by
  have hkeys : ∀ other ∈ name :: path, other ∈ profiles.keys := by
    refine forall_mem_cons.2 ⟨hname, ?_⟩
    exact hpath.cons_induction _ path (fun _ _ hinherits _ => hparents _ _ hinherits) hname
  have hpairwise : (name :: path).Pairwise (Relation.TransGen (Inherits profiles)) :=
    isChain_iff_pairwise.1 (hpath.imp fun _ _ hinherits => .single hinherits)
  have hnodup : (name :: path).Nodup := by
    refine hpairwise.imp fun {first snd} hreach heq => ?_
    exact huncycled snd (heq ▸ hreach)
  have hle := (hnodup.subperm hkeys).length_le
  rwa [SortedMap.keys, length_map] at hle

/-- **The effective profiles** are the ancestors and the profile, once each, parents first. -/
theorem effectiveProfiles_ancestors (hparents : ParentsExist profiles) (huncycled : Uncycled profiles)
    {sel : RichName} (hselected : sel ∈ profiles.keys) :
    ∃ order, effectiveProfiles profiles sel = some order ∧ order.Nodup ∧
      (∀ name, name ∈ order ↔ Relation.ReflTransGen (Inherits profiles) sel name) ∧
      ∀ before name after, order = before ++ name :: after →
        ∀ parent, Inherits profiles name parent → parent ∈ before := by
  have hacyclic : ∀ name, ¬ Relation.TransGen
      (fun a b => b ∈ (profileSearch profiles).targets a) name name := inherits_eq ▸ huncycled
  obtain ⟨after, hvisit⟩ : ∃ after, visitProfile profiles (profiles.entries.length + 1) sel
      ⟨[], [], ()⟩ = .ok after := by
    refine visit_ok (profileSearch_admits hparents) hacyclic hselected ?_ (by simp) trivial
    refine fits_of_paths [] fun path hpath => ?_
    rw [inherits_eq] at hpath
    have hlength := chain_length_le hparents huncycled hpath hselected
    omega
  obtain ⟨hext, hmem⟩ := visit_extends profileSearch_keeps hvisit
  have hnone : VisitedIn [] (⟨[], [], ()⟩ : DepthSearch.State RichName Unit) := by
    intro other
    simp
  obtain ⟨visited, heffective, -⟩ := visitEffective_of_visit hparents hvisit hselected hnone
  obtain ⟨added, hadded, hreach⟩ := hext.complete
  rw [nil_append] at hadded
  rw [inherits_eq] at hreach
  have hbefore : ∀ before name later, after.complete = before ++ name :: later →
      ∀ parent, Inherits profiles name parent → parent ∈ before := by
    intro before name later hsplit parent hinherits
    refine targets_before (hext.settled trivial) hsplit ?_
    rw [profileSearch_targets]
    exact mem_parentsOf.2 hinherits
  refine ⟨after.complete, ?_, (hext.apart ⟨nodup_nil, by simp⟩).1, ?_, hbefore⟩
  · rw [effectiveProfiles, heffective]
    rfl
  · intro name
    constructor
    · intro hname
      exact hreach name (hadded ▸ hname)
    · intro h
      induction h with
      | refl => exact hmem
      | tail _ hinherits ih =>
        obtain ⟨before, later, hsplit⟩ := append_of_mem ih
        rw [hsplit]
        exact mem_append_left _ (hbefore before _ later hsplit _ hinherits)

/-! ## 4. Renaming -/

section Renaming

variable {ρ : RichName → RichName} (hρ : Function.Injective ρ)
include hρ

theorem get?_renameProfiles {profile : RichProfile} :
    (renameProfiles ρ profiles).get? name = some profile ↔
      ∃ old found, profiles.get? old = some found ∧ ρ old = name ∧ found.rename ρ = profile := by
  have hkeys : ((profiles.entries.map fun e => (ρ e.1, e.2.rename ρ)).map
      Prod.fst).Nodup := by
    rw [map_map]
    have hmap : profiles.entries.map (fun e => ρ e.1) = profiles.keys.map ρ := by
      rw [SortedMap.keys, map_map]
      rfl
    exact hmap ▸ profiles.nodup_keys.map hρ
  rw [renameProfiles, get?_foldl_insert hkeys]
  simp only [get?_empty, reduceCtorEq, and_false, or_false, mem_map, Prod.mk.injEq,
    Prod.exists, get?_eq_some]

theorem inherits_renameProfiles :
    Inherits (renameProfiles ρ profiles) name parent ↔
      ∃ child above, Inherits profiles child above ∧ ρ child = name ∧ ρ above = parent := by
  constructor
  · intro h
    obtain ⟨prof, hprof, hparent⟩ := h
    obtain ⟨child, found, hfound, hname, rfl⟩ := (get?_renameProfiles hρ).1 hprof
    obtain ⟨above, habove, heq⟩ := mem_map.1 hparent
    exact ⟨child, above, ⟨found, hfound, habove⟩, hname, heq⟩
  · intro h
    obtain ⟨child, above, ⟨found, hfound, habove⟩, rfl, rfl⟩ := h
    exact ⟨found.rename ρ, (get?_renameProfiles hρ).2 ⟨child, found, hfound, rfl, rfl⟩,
      mem_map_of_mem habove⟩

theorem mem_keys_renameProfiles :
    name ∈ (renameProfiles ρ profiles).keys ↔ ∃ old ∈ profiles.keys, ρ old = name := by
  simp only [SortedMap.mem_keys, get?_renameProfiles hρ]
  constructor
  · intro h
    obtain ⟨-, old, found, hfound, hname, -⟩ := h
    exact ⟨old, ⟨found, hfound⟩, hname⟩
  · intro h
    obtain ⟨old, ⟨found, hfound⟩, hname⟩ := h
    exact ⟨found.rename ρ, old, found, hfound, hname, rfl⟩

theorem parentsExist_rename : ParentsExist (renameProfiles ρ profiles) ↔ ParentsExist profiles := by
  constructor
  · intro h name parent hinherits
    obtain ⟨old, hold, heq⟩ := (mem_keys_renameProfiles hρ).1
      (h (ρ name) (ρ parent) ((inherits_renameProfiles hρ).2 ⟨name, parent, hinherits, rfl, rfl⟩))
    exact hρ heq ▸ hold
  · intro h name parent hinherits
    obtain ⟨child, above, hold, -, rfl⟩ := (inherits_renameProfiles hρ).1 hinherits
    exact (mem_keys_renameProfiles hρ).2 ⟨above, h child above hold, rfl⟩

theorem uncycled_rename : Uncycled (renameProfiles ρ profiles) ↔ Uncycled profiles := by
  constructor
  · intro h name hcycle
    refine h (ρ name) (Relation.TransGen.lift ρ (fun child above hinherits => ?_) name name hcycle)
    exact (inherits_renameProfiles hρ).2 ⟨child, above, hinherits, rfl, rfl⟩
  · intro h name hcycle
    have hback : ∀ last, Relation.TransGen (Inherits (renameProfiles ρ profiles)) name last →
        ∃ child above, ρ child = name ∧ ρ above = last ∧
          Relation.TransGen (Inherits profiles) child above := by
      intro last hreach
      induction hreach with
      | single hinherits =>
        obtain ⟨child, above, hinherits, hchild, habove⟩ := (inherits_renameProfiles hρ).1 hinherits
        exact ⟨child, above, hchild, habove, .single hinherits⟩
      | tail _ hinherits ih =>
        obtain ⟨child, above, hchild, habove, hreach⟩ := ih
        obtain ⟨next, last, hinherits, hnext, hlast⟩ := (inherits_renameProfiles hρ).1 hinherits
        obtain rfl := hρ (habove.trans hnext.symm)
        exact ⟨child, last, hchild, hlast, hreach.tail hinherits⟩
    obtain ⟨child, above, hchild, habove, hreach⟩ := hback name hcycle
    obtain rfl := hρ (hchild.trans habove.symm)
    exact h child hreach

theorem chainsWithin_rename {limit : Nat} (h : ChainsWithin profiles limit) :
    ChainsWithin (renameProfiles ρ profiles) limit := by
  intro chain hchain hkeys
  obtain ⟨old, rfl⟩ : chain ∈ Set.range (map ρ) := by
    rw [Set.range_list_map]
    intro name hname
    obtain ⟨old, -, heq⟩ := (mem_keys_renameProfiles hρ).1 (hkeys name hname)
    exact ⟨old, heq⟩
  rw [isChain_map] at hchain
  rw [length_map]
  refine h old (hchain.imp fun child above hinherits => ?_) fun name hname => ?_
  · obtain ⟨name, parent, hinherits, hname, hparent⟩ := (inherits_renameProfiles hρ).1 hinherits
    rwa [← hρ hname, ← hρ hparent]
  · obtain ⟨found, hfound, heq⟩ := (mem_keys_renameProfiles hρ).1 (hkeys _ (mem_map_of_mem hname))
    rwa [← hρ heq]

end Renaming

/-- A renaming that gives the names of one list to those of another. -/
def renameBy (names order : List RichName) (name : RichName) : RichName :=
  if order.contains name then names.getD (order.idxOf name) name else name

theorem renameBy_of_mem (hlength : names.length = order.length) (hmem : name ∈ order) :
    ∃ h : order.idxOf name < names.length, renameBy names order name = names[order.idxOf name] := by
  have hlt : order.idxOf name < names.length := hlength ▸ idxOf_lt_length_of_mem hmem
  refine ⟨hlt, ?_⟩
  rw [renameBy, if_pos (contains_iff_mem.2 hmem), getD_eq_getElem _ _ hlt]

theorem renameBy_injective (hperm : order.Perm names) (hnodup : names.Nodup) :
    Function.Injective (renameBy names order) := by
  have hmem : ∀ name, renameBy names order name ∈ order ↔ name ∈ order := by
    intro name
    by_cases hin : name ∈ order
    · obtain ⟨hlt, heq⟩ := renameBy_of_mem hperm.length_eq.symm hin
      rw [heq]
      exact iff_of_true (hperm.mem_iff.2 (getElem_mem hlt)) hin
    · rw [renameBy, if_neg (mt contains_iff_mem.1 hin)]
  intro left right heq
  by_cases hleft : left ∈ order
  · have hright : right ∈ order := (hmem right).1 (heq ▸ (hmem left).2 hleft)
    obtain ⟨hlt, hindex⟩ := renameBy_of_mem hperm.length_eq.symm hleft
    obtain ⟨hlt', hindex'⟩ := renameBy_of_mem hperm.length_eq.symm hright
    rw [hindex, hindex', hnodup.getElem_inj_iff] at heq
    exact (idxOf_inj hleft).1 heq
  · have hright : right ∉ order := fun hin => hleft ((hmem left).1 (heq ▸ (hmem right).2 hin))
    rwa [renameBy, renameBy, if_neg (mt contains_iff_mem.1 hleft),
      if_neg (mt contains_iff_mem.1 hright)] at heq

/-- Acyclic profiles have names under which parents are smaller than their children. -/
theorem exists_rename_parents_first (hparents : ParentsExist profiles)
    (huncycled : Uncycled profiles) : ∃ ρ : RichName → RichName, Function.Injective ρ ∧
      ∀ name parent, Inherits profiles name parent → ρ parent < ρ name := by
  have hclosed : ∀ name ∈ profiles.keys, ∀ parent ∈ parentsOf profiles name,
      parent ∈ profiles.keys := by
    intro name _ parent hparent
    exact hparents name parent (mem_parentsOf.1 hparent)
  have hacyclic : ∀ name, ¬ Relation.TransGen (fun a b => b ∈ parentsOf profiles a) name name := by
    rw [← profileSearch_targets, inherits_eq]
    exact huncycled
  obtain ⟨settled, hsettled, hnodes⟩ :=
    Digraph.findCycle_none (Digraph.findCycle_eq_none hclosed hacyclic)
  have hperm := Digraph.dependencyOrder_perm hsettled hnodes hclosed profiles.nodup_keys
  have hleast : Digraph.LeastFirst profiles.keys (parentsOf profiles) _ :=
    Digraph.dependencyOrder_leastFirst
  generalize Digraph.dependencyOrder profiles.keys (parentsOf profiles) = order at hperm hleast
  refine ⟨renameBy profiles.keys order, renameBy_injective hperm profiles.nodup_keys, ?_⟩
  intro name parent hinherits
  obtain ⟨before, later, rfl⟩ := append_of_mem (hperm.mem_iff.2 hinherits.mem_keys)
  have hbefore := hleast.targets_before rfl (mem_parentsOf.2 hinherits)
  have hnotin : name ∉ before := by
    intro hmem
    have hnodup := hperm.nodup_iff.2 profiles.nodup_keys
    exact (nodup_append.1 hnodup).2.2 name hmem name mem_cons_self rfl
  have hindex : (before ++ name :: later).idxOf parent < (before ++ name :: later).idxOf name := by
    rw [idxOf_append_of_mem hbefore, idxOf_append_of_notMem hnotin]
    have hlt := idxOf_lt_length_of_mem hbefore
    omega
  obtain ⟨hlt, hname⟩ := renameBy_of_mem hperm.length_eq.symm
    (mem_append_right before (mem_cons_self (a := name) (l := later)))
  obtain ⟨hlt', hparent⟩ := renameBy_of_mem hperm.length_eq.symm
    (mem_append_left (name :: later) hbefore)
  rw [hname, hparent]
  exact pairwise_iff_getElem.1 profiles.sorted _ _ hlt' hlt hindex

end Inheritance

/-! ## 5. When validation is exact -/

/-- Validation accepts exactly the profiles without an unknown parent, a cycle or a long chain,
under all names, with the right effective profiles. -/
structure ProfilesExact (profiles : SortedMap RichName RichProfile) : Prop where
  accepted_iff : Accepted profiles ↔ ParentsExist profiles ∧ Uncycled profiles ∧
    ChainsWithin profiles maxRichProfileDepth
  accepted_rename : ∀ ρ : RichName → RichName, Function.Injective ρ →
    (Accepted (renameProfiles ρ profiles) ↔ Accepted profiles)
  effective : Accepted profiles → ∀ selected ∈ profiles.keys,
    ∃ order, effectiveProfiles profiles selected = some order ∧ order.Nodup ∧
      (∀ name, name ∈ order ↔ Relation.ReflTransGen (Inherits profiles) selected name) ∧
      ∀ before name after, order = before ++ name :: after →
        ∀ parent, Inherits profiles name parent → parent ∈ before

/-- **Validation is exact unless the only fault is a chain beyond the limit**, which some names
hide. -/
theorem validateProfileGraph_exact_iff (profiles : SortedMap RichName RichProfile) :
    ProfilesExact profiles ↔ ¬ ParentsExist profiles ∨ ¬ Uncycled profiles ∨
      ChainsWithin profiles maxRichProfileDepth := by
  constructor
  · intro h
    by_contra hdeep
    rw [not_or, not_or, not_not, not_not] at hdeep
    obtain ⟨hparents, huncycled, hchain⟩ := hdeep
    obtain ⟨ρ, hρ, hfirst⟩ := exists_rename_parents_first hparents huncycled
    have hrenamed : Accepted (renameProfiles ρ profiles) := by
      refine accepted_of_parents_first ((parentsExist_rename hρ).2 hparents)
        ((uncycled_rename hρ).2 huncycled) ?_
      intro name parent hinherits
      obtain ⟨child, above, hold, rfl, rfl⟩ := (inherits_renameProfiles hρ).1 hinherits
      exact hfirst child above hold
    exact hchain (h.accepted_iff.1 ((h.accepted_rename ρ hρ).1 hrenamed)).2.2
  · intro h
    have haccepted : ∀ {others : SortedMap RichName RichProfile},
        ¬ ParentsExist others ∨ ¬ Uncycled others ∨ ChainsWithin others maxRichProfileDepth →
        (Accepted others ↔ ParentsExist others ∧ Uncycled others) := by
      intro others hothers
      refine ⟨Accepted.sound, fun hsound => ?_⟩
      rcases hothers with hparents | huncycled | hshort
      · exact absurd hsound.1 hparents
      · exact absurd hsound.2 huncycled
      · exact accepted_of_short hsound.1 hsound.2 hshort
    constructor
    · rw [haccepted h]
      constructor
      · intro hsound
        refine ⟨hsound.1, hsound.2, ?_⟩
        exact (h.resolve_left (not_not.2 hsound.1)).resolve_left (not_not.2 hsound.2)
      · intro hall
        exact ⟨hall.1, hall.2.1⟩
    · intro ρ hρ
      have hrenamed : ¬ ParentsExist (renameProfiles ρ profiles) ∨
          ¬ Uncycled (renameProfiles ρ profiles) ∨
          ChainsWithin (renameProfiles ρ profiles) maxRichProfileDepth := by
        rw [parentsExist_rename hρ, uncycled_rename hρ]
        exact h.imp id fun h => h.imp id (chainsWithin_rename hρ)
      rw [haccepted h, haccepted hrenamed, parentsExist_rename hρ, uncycled_rename hρ]
    · intro hok selected hselected
      exact effectiveProfiles_ancestors hok.sound.1 hok.sound.2 hselected

/-! ## 6. A chain beyond the limit -/

theorem deepName_valid : ∀ k : Fin 65,
    validateRichName (replicate (k.val + 1) 'a') = .ok () := by
  decide +kernel

/-- The names `a`, `aa`, `aaa` and so on. -/
def deepName (k : Fin 65) : RichName := ⟨List.replicate (k.val + 1) 'a', deepName_valid k⟩

theorem replicate_lt {i j : Nat} (h : i < j) : replicate i 'a' < replicate j 'a' := by
  induction i generalizing j with
  | zero =>
    obtain ⟨j, rfl⟩ := exists_eq_succ_of_ne_zero (ne_of_gt h)
    exact nil_lt_cons _ _
  | succ i ih =>
    obtain ⟨j, rfl⟩ := exists_eq_succ_of_ne_zero (ne_of_gt (zero_lt_of_lt h))
    rw [replicate_succ, replicate_succ, cons_lt_cons_iff]
    exact .inr ⟨rfl, ih (lt_of_succ_lt_succ h)⟩

theorem deepName_lt {i j : Fin 65} (h : i < j) : deepName i < deepName j :=
  replicate_lt (succ_lt_succ h)

def deepSource : SourceLocation where
  document := ⟨⟨['d'], by decide⟩, ⟨⟨1⟩, by decide⟩, ⟨['d'], by decide⟩⟩
  range := ⟨1, 2, by decide⟩

/-- Every profile but the first extends the one before it. -/
def deepProfile (k : Fin 65) : RichProfile where
  name := deepName k
  extendsNames :=
    match k with
    | ⟨0, _⟩ => []
    | ⟨i + 1, hi⟩ => [deepName ⟨i, Nat.lt_of_succ_lt hi⟩]
  source := deepSource

def deepProfiles : SortedMap RichName RichProfile where
  entries := List.ofFn fun k => (deepName k, deepProfile k)
  sorted := by
    rw [List.map_ofFn, List.pairwise_ofFn]
    exact fun i j h => deepName_lt h

theorem deepProfiles_inherits {name : RichName} :
    Inherits deepProfiles name parent ↔ ∃ (i : Nat) (hi : i + 1 < 65),
      deepName ⟨i + 1, hi⟩ = name ∧ deepName ⟨i, lt_of_succ_lt hi⟩ = parent := by
  simp only [Inherits, get?_eq_some, deepProfiles, mem_ofFn, Prod.mk.injEq]
  constructor
  · intro h
    obtain ⟨profile, ⟨⟨k, hk⟩, hname, rfl⟩, hparent⟩ := h
    cases k with
    | zero => cases hparent
    | succ i => exact ⟨i, hk, hname, (mem_singleton.1 hparent).symm⟩
  · intro h
    obtain ⟨i, hi, hname, hparent⟩ := h
    exact ⟨deepProfile ⟨i + 1, hi⟩, ⟨⟨i + 1, hi⟩, hname, rfl⟩, mem_singleton.2 hparent.symm⟩

/-- Sixty-five profiles in one chain are accepted, each with its parent before it. -/
theorem deepProfiles_not_exact : ¬ ProfilesExact deepProfiles := by
  intro h
  have hkey : ∀ k, deepName k ∈ deepProfiles.keys := by
    intro k
    exact mem_keys.2 ⟨deepProfile k, get?_eq_some.2 (mem_ofFn.2 ⟨k, rfl⟩)⟩
  have hparents : ParentsExist deepProfiles := by
    intro name parent hinherits
    obtain ⟨i, hi, -, rfl⟩ := deepProfiles_inherits.1 hinherits
    exact hkey _
  have hfirst : ∀ name parent, Inherits deepProfiles name parent → parent < name := by
    intro name parent hinherits
    obtain ⟨i, hi, rfl, rfl⟩ := deepProfiles_inherits.1 hinherits
    exact deepName_lt (Fin.mk_lt_mk.2 (lt_succ_self i))
  have huncycled : Uncycled deepProfiles := by
    intro name hcycle
    have hlt : ∀ last, Relation.TransGen (Inherits deepProfiles) name last → last < name := by
      intro last hreach
      induction hreach with
      | single hinherits => exact hfirst name _ hinherits
      | tail _ hinherits ih => exact lt_trans (hfirst _ _ hinherits) ih
    exact lt_irrefl name (hlt name hcycle)
  have hchain := (h.accepted_iff.1 (accepted_of_parents_first hparents huncycled hfirst)).2.2
  have hlength := hchain (ofFn deepName).reverse
    (by
      rw [isChain_reverse, isChain_ofFn]
      intro i hi
      exact deepProfiles_inherits.2 ⟨i, hi, rfl, rfl⟩)
    (by
      intro name hname
      obtain ⟨k, rfl⟩ := mem_ofFn.1 (mem_reverse.1 hname)
      exact hkey k)
  rw [length_reverse, length_ofFn] at hlength
  exact absurd hlength (by decide)

end Malm.Config
