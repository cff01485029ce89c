/-
Malm.Types — identifiers, text rules and limits of `malm-types` and of the constants of
`malm-store`.

Text is a list of characters: UTF-8 keeps the order of code points, so the lexicographic
order is the order the code sorts by, and `str::len` is `byteLen`. Only equality and the
order of digests are used, so a digest is a wrapped natural number.
-/
import Malm.Lib.Bytes

namespace Malm

/-! ## 1. Text -/

/-- A Rust `str`, as its sequence of characters. -/
abbrev Text := List Char

instance textLawfulBEq : LawfulBEq Text := inferInstance

instance textPairLawfulBEq : LawfulBEq (Text × Text) := inferInstance

namespace Text

/-- `str::len`: the number of UTF-8 bytes. -/
def byteLen (value : Text) : Nat :=
  (value.map fun character => character.utf8Size).sum

theorem byteLen_append (left right : Text) :
    byteLen (left ++ right) = byteLen left + byteLen right := by
  simp [byteLen]

theorem utf8_byteLen (v : Text) : (Bytes.utf8 v).length = v.byteLen :=
  Bytes.utf8_length v

def segments (path : Text) : List Text := path.splitOn '/'

def isControl (character : Char) : Bool :=
  character.toNat < 0x20 || (0x7f ≤ character.toNat && character.toNat < 0xa0)

/-- The proper ancestors of a path, shallowest first: the prefixes before its separators. -/
def ancestorPaths : Text → List Text
  | [] => []
  | character :: rest =>
    if character = '/' then
      [] :: (ancestorPaths rest).map (character :: ·)
    else
      (ancestorPaths rest).map (character :: ·)

/-- `descendant.strip_prefix(ancestor)` leaves a suffix that starts with a slash. -/
def isAncestor : Text → Text → Bool
  | [], character :: _ => character = '/'
  | [], [] => false
  | _ :: _, [] => false
  | a :: ancestor, d :: descendant => a = d && isAncestor ancestor descendant

end Text

/-! ## 2. Identifiers -/

structure Digest where
  value : Nat
deriving DecidableEq, Repr

instance : LinearOrder Digest :=
  LinearOrder.lift' Digest.value (fun left right h => by cases left; cases right; simp_all)

/-- The identity of a prepared plan (`PreparedId`). -/
structure PreparedId where
  value : Nat
deriving DecidableEq, Repr

instance : LinearOrder PreparedId :=
  LinearOrder.lift' PreparedId.value (fun left right h => by cases left; cases right; simp_all)

/-- `PreparedId::digest`: the plan identity as an algorithm-tagged digest. -/
def PreparedId.digest (planId : PreparedId) : Digest := ⟨planId.value⟩

abbrev NamespaceName := Text

abbrev DeploymentName := Text

/-- A relative, slash-separated artifact identifier. -/
abbrev ArtifactId := Text

/-! ## 3. Validation of text -/

/-- `ValidationError`, and what the modelled functions raise of `PreparedRecordError`. -/
inductive PreparedRecordError where
  | tooLarge (limit actual : Nat)
  | unsupportedVersion (expected found : Nat)
  | nonCanonical
  | limitExceeded (field : String) (limit actual : Nat)
  | duplicate (field : String)
  | invalidField (field reason : String)
  | invalidDesiredSnapshot (reason : String)
  | unknownArtifact (artifactId : ArtifactId)
deriving DecidableEq, Repr

def validateText (field : String) (value : Text) (limit : Nat) :
    Except PreparedRecordError Unit :=
  if value.isEmpty then
    .error (.invalidField field "must not be empty")
  else if limit < value.byteLen then
    .error (.invalidField field "exceeds its byte limit")
  else
    .ok ()

/-- `validate_label`: a bounded label without control characters. -/
def validateLabel (field : String) (value : Text) : Except PreparedRecordError Unit := do
  validateText field value 1024
  if value.any Text.isControl then
    .error (.invalidField field "must not contain control characters")

/-- What `validate_relative_path` accepts of a nonempty bounded path. -/
def relativePathShape (value : Text) : Bool :=
  !(value.head? = some '/') && !value.contains '\\' &&
    value.segments.all (fun segment =>
      !segment.isEmpty && segment ≠ ['.'] && segment ≠ ['.', '.'] && segment.byteLen ≤ 255) &&
    value.segments.length ≤ 64 && !value.any Text.isControl

def validateRelativePath (value : Text) : Except PreparedRecordError Unit := do
  validateText "relative path" value 4096
  if !relativePathShape value then
    .error (.invalidField "relative path"
      "must be a bounded canonical slash-separated relative path")

def checkLimit (field : String) (actual limit : Nat) : Except PreparedRecordError Unit :=
  if limit < actual then .error (.limitExceeded field limit actual) else .ok ()

def rejectDuplicates {α : Type} [DecidableEq α] (field : String) (values : List α) :
    Except PreparedRecordError Unit :=
  if values.Nodup then .ok () else .error (.duplicate field)

/-! ## 4. Limits -/

def maxPreparedRecordBytes : Nat := 16 * 1024 * 1024
def maxPreparedArtifacts : Nat := 16384
def maxArtifactBlobBytes : Nat := 256 * 1024 * 1024
def maxPreparedUniqueArtifactBytes : Nat := 256 * 1024 * 1024
def maxPreparedOperations : Nat := 65536
def maxDesiredTargets : Nat := 65536
def maxOwnershipClaims : Nat := 65536
def maxOwnershipTargetSlots : Nat := 131072
def maxOwnershipGenerations : Nat := 4096
def maxOwnershipAuthorities : Nat := 64
def maxTransformProvenance : Nat := 16384
def maxStateRecordBytes : Nat := 4 * 1024 * 1024
def maxStateCatalogHeads : Nat := 4096
def maxStateCatalogBytes : Nat := 4 * 1024 * 1024
def maxTrackedRootAcquisitionGrants : Nat := 8192
def maxTrackedRootAcquisitionBytes : Nat := 4 * 1024 * 1024
def defaultHistoryRetentionGenerations : Nat := 256
def maxHistoryRetentionGenerations : Nat := 65536
def maxRestorePoints : Nat := 4096
def maxExplicitPins : Nat := 16384

end Malm
