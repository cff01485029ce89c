/-
Malm.Config.Profiles — profile inheritance (`malm-config/src/rich_workspace.rs`).

Profiles are validated together: every parent exists, and a depth-first search
from every profile, in name order, finds no cycle and does not get too deep. The
effective profiles of a selected one are its ancestors, each after its own
parents, and itself.
-/
import Malm.Lib.DepthSearch
import Malm.Config.Rich

namespace Malm.Config

def maxRichProfileDepth : Nat := 64

/-- `RichProfileV1`, as far as inheritance reads it. -/
structure RichProfile where
  name : RichName
  extendsNames : List RichName
  source : SourceLocation
deriving DecidableEq

/-- The workspace errors of the profile checks, with what they name. -/
inductive ProfileError where
  | unknownProfileParent (profile parent : RichName) (source : SourceLocation)
  | profileDepthLimit (source : Option SourceLocation)
  | profileCycle (name : RichName) (source : Option SourceLocation)
deriving DecidableEq

/-! ## 1. Validation and order -/

section Profiles

variable (profiles : SortedMap RichName RichProfile)

/-- The parents that a profile names, in their written order. -/
def parentsOf (name : RichName) : List RichName :=
  match profiles.get? name with
  | some profile => profile.extendsNames
  | none => []

/-- The search over the parents. The depth is checked before the colour. -/
def profileSearch : DepthSearch.Search RichName RichName Unit ProfileError where
  edges := parentsOf profiles
  target := id
  enter := fun _ data => .ok data
  follow := fun _ _ data => .ok data
  depthFirst := true
  tooDeep := fun name => .profileDepthLimit ((profiles.get? name).map RichProfile.source)
  cycle := fun name _ => .profileCycle name ((profiles.get? name).map RichProfile.source)

/-- `visit_profile`, with the levels left: a colour is 1 on the stack and 2 when complete. -/
def visitProfile (remaining : Nat) (name : RichName) (colors : DepthSearch.State RichName Unit) :
    Except ProfileError (DepthSearch.State RichName Unit) :=
  DepthSearch.visit (profileSearch profiles) remaining name colors

def validateProfileGraph : Except ProfileError Unit := do
  profiles.entries.forM fun entry => entry.2.extendsNames.forM fun parent =>
    Checks.reject (profiles.contains parent = false)
      (.unknownProfileParent entry.2.name parent entry.2.source)
  let _ ← profiles.keys.foldlM
    (fun colors name => visitProfile profiles maxRichProfileDepth name colors) ⟨[], [], ()⟩

/-- `effective_profiles::visit`; a level of the recursion takes one unit of fuel. -/
def visitEffective : Nat → RichName → List RichName × List RichName →
    Option (List RichName × List RichName)
  | 0, _, _ => none
  | fuel + 1, name, (visited, result) =>
    if name ∈ visited then some (visited, result)
    else do
      let profile ← profiles.get? name
      let (visited, result) ← profile.extendsNames.foldlM
        (fun state parent => visitEffective fuel parent state) (name :: visited, result)
      return (visited, result ++ [name])

/-- `effective_profiles`. Every level visits another profile. -/
def effectiveProfiles (selected : RichName) : Option (List RichName) :=
  (visitEffective profiles (profiles.entries.length + 1) selected ([], [])).map Prod.snd

end Profiles

/-! ## 2. Renaming -/

def RichProfile.rename (ρ : RichName → RichName) (profile : RichProfile) : RichProfile :=
  { profile with name := ρ profile.name, extendsNames := profile.extendsNames.map ρ }

def renameProfiles (ρ : RichName → RichName) (profiles : SortedMap RichName RichProfile) :
    SortedMap RichName RichProfile :=
  (profiles.entries.map fun entry => (ρ entry.1, entry.2.rename ρ)).foldl
    (fun renamed entry => renamed.insert entry.1 entry.2) .empty

end Malm.Config
