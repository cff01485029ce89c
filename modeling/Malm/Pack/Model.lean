/-
Malm.Pack.Model — pack trees and manifests (`malm-pack/src/model.rs`) and
the text of digests (`malm-types/src/lib.rs`).

A manifest is what `decode_pack_v1` reads from `malm-pack.kdl`; the KDL reader and
the hash functions are parameters (`PackCodec`). A digest of the model is an
unbounded number, so its text has 64 or more hexadecimal digits.
-/
import Malm.Commit.Canonical

namespace Malm.Pack

open Commit Checks List Option Nat

abbrev PackPath := Text
abbrev PackageId := Text
abbrev Alias := Text
abbrev PackNodeId := Digest

def contributionNameShape (value : Text) : Bool :=
  value.byteLen ≤ 63 &&
    match value with
    | [] => false
    | first :: rest =>
      'a' ≤ first && first ≤ 'z' &&
        rest.all fun character =>
          ('a' ≤ character && character ≤ 'z') || ('0' ≤ character && character ≤ '9') ||
            character = '-'

abbrev ContributionName := { value : Text // contributionNameShape value = true }

def contributionName (value : Text) : Option ContributionName :=
  if valid : contributionNameShape value = true then some ⟨value, valid⟩ else none

@[simp] theorem contributionName_val (name : ContributionName) :
    contributionName name.val = some name := by
  rw [contributionName, dif_pos name.property]

def packManifestFile : PackPath := "malm-pack.kdl".toList
def maxPackTreeEntries : Nat := 100000
def maxPackTreeBytes : Nat := 1024 * 1024 * 1024
def maxPackFileBytes : Nat := 256 * 1024 * 1024

/-! ## 1. Digests as text -/

def stripName : Text → Text → Option Text
  | [], text => some text
  | _ :: _, [] => none
  | expected :: name, character :: text =>
    if expected = character then stripName name text else none

theorem stripName_eq_some : ∀ {name text rest : Text},
    stripName name text = some rest ↔ text = name ++ rest
  | [], text, rest => by simp [stripName]
  | _ :: _, [], _ => by simp [stripName]
  | expected :: name, c :: text, rest => by
    rw [stripName]
    by_cases h : expected = c
    · subst h
      simp [stripName_eq_some]
    · simp [h, Ne.symm h]

theorem stripName_append (name rest : Text) : stripName name (name ++ rest) = some rest :=
  stripName_eq_some.2 rfl

def digestTag : Text := "sha256-".toList

def hexDigit (digit : Nat) : Char :=
  ['0', '1', '2', '3', '4', '5', '6', '7', '8', '9', 'a', 'b', 'c', 'd', 'e', 'f'].getD digit '0'

def hexValue (character : Char) : Option Nat :=
  if '0' ≤ character ∧ character ≤ '9' then some (character.toNat - '0'.toNat)
  else if 'a' ≤ character ∧ character ≤ 'f' then some (character.toNat - 'a'.toNat + 10)
  else none

/-- The hexadecimal digits of a digest, the least significant first. -/
def hexDigits (value : Nat) : List Nat :=
  let digits := Nat.digits 16 value
  digits ++ List.replicate (64 - digits.length) 0

def digestText (digest : Digest) : Text :=
  digestTag ++ ((hexDigits digest.value).map hexDigit).reverse

def parseDigest (text : Text) : Option Digest :=
  (stripName digestTag text).bind fun hex =>
    (hex.reverse.mapM hexValue).bind fun digits =>
      if 64 ≤ digits.length ∧ hexDigits (Nat.ofDigits 16 digits) = digits then
        some ⟨Nat.ofDigits 16 digits⟩
      else
        none

theorem hexValue_hexDigit : ∀ {digit : Nat}, digit < 16 → hexValue (hexDigit digit) = some digit := by
  decide

theorem hexDigits_lt {v digit : Nat} (h : digit ∈ hexDigits v) : digit < 16 := by
  simp only [hexDigits, mem_append, mem_replicate] at h
  rcases h with h | ⟨-, rfl⟩
  · exact digits_lt_base (by decide) h
  · decide

theorem digestTag_eq : digestTag = ['s', 'h', 'a', '2', '5', '6', '-'] := rfl

theorem forall_mem_digestText {P : Char → Prop} (htag : ∀ ch ∈ digestTag, P ch)
    (hdigit : ∀ digit < 16, P (hexDigit digit)) (d : Digest) :
    ∀ ch ∈ digestText d, P ch := by
  intro ch hcharacter
  simp only [digestText, mem_append, mem_reverse, List.mem_map] at hcharacter
  rcases hcharacter with hmem | ⟨digit, hmem, rfl⟩
  · exact htag ch hmem
  · exact hdigit digit (hexDigits_lt hmem)

theorem ofDigits_hexDigits (value : Nat) : ofDigits 16 (hexDigits value) = value := by
  rw [hexDigits, ofDigits_append_replicate_zero, ofDigits_digits]

theorem mapM_hexValue : ∀ {digits : List Nat}, (∀ digit ∈ digits, digit < 16) →
    (digits.map hexDigit).mapM hexValue = some digits
  | [], _ => rfl
  | digit :: digits, h => by
    rw [map_cons, mapM_cons, hexValue_hexDigit (h digit mem_cons_self),
      mapM_hexValue fun other hother => h other (mem_cons_of_mem _ hother)]
    rfl

@[simp] theorem parseDigest_digestText (digest : Digest) :
    parseDigest (digestText digest) = some digest := by
  have hlen : 64 ≤ (hexDigits digest.value).length := by
    simp only [hexDigits, length_append, length_replicate]
    omega
  rw [parseDigest, digestText, stripName_append, bind_some, reverse_reverse,
    mapM_hexValue fun _ => hexDigits_lt]
  simp only [bind_some, ofDigits_hexDigits]
  rw [if_pos ⟨hlen, trivial⟩]

theorem hexDigit_hexValue {ch : Char} {digit : Nat} (h : hexValue ch = some digit) :
    hexDigit digit = ch := by
  have hchar : ∀ code, 48 ≤ code → code ≤ 102 →
      (hexValue (Char.ofNat code)).all (fun digit => hexDigit digit = Char.ofNat code) = true := by
    decide
  have hrange : 48 ≤ ch.toNat ∧ ch.toNat ≤ 102 := by
    unfold hexValue at h
    split at h
    · rename_i hdigit
      have hlow : '0'.toNat ≤ ch.toNat := hdigit.1
      have hhigh : ch.toNat ≤ '9'.toNat := hdigit.2
      exact ⟨hlow, hhigh.trans (by decide)⟩
    · split at h
      · rename_i hletter
        have hlow : 'a'.toNat ≤ ch.toNat := hletter.1
        have hhigh : ch.toNat ≤ 'f'.toNat := hletter.2
        exact ⟨le_trans (by decide) hlow, hhigh⟩
      · cases h
  have hall := hchar ch.toNat hrange.1 hrange.2
  rw [Char.ofNat_toNat, h] at hall
  simpa using hall

theorem hexDigits_of_mapM {hex : Text} {digits : List Nat} (h : hex.mapM hexValue = some digits) :
    digits.map hexDigit = hex := by
  induction hex generalizing digits with
  | nil =>
    cases h
    rfl
  | cons c hex ih =>
    simp only [mapM_cons, bind_eq_bind, bind_eq_some_iff, Option.pure_def, some.injEq] at h
    obtain ⟨digit, hdigit, rest, hrest, rfl⟩ := h
    rw [map_cons, hexDigit_hexValue hdigit, ih hrest]

theorem parseDigest_eq_some {text : Text} {digest : Digest} :
    parseDigest text = some digest ↔ text = digestText digest := by
  constructor
  · intro h
    simp only [parseDigest, bind_eq_some_iff, stripName_eq_some] at h
    obtain ⟨hex, rfl, digits, hdigits, hvalue⟩ := h
    split at hvalue
    · rename_i hcanon
      obtain rfl := some.inj hvalue
      rw [digestText, hcanon.2, hexDigits_of_mapM hdigits, reverse_reverse]
    · cases hvalue
  · rintro rfl
    exact parseDigest_digestText digest

theorem digestText_injective : Function.Injective digestText := by
  intro left right h
  have hparse := parseDigest_digestText left
  rw [h, parseDigest_digestText] at hparse
  exact (some.inj hparse).symm

theorem colon_notMem_digestText (digest : Digest) : ':' ∉ digestText digest := by
  have hdigit : ∀ digit < 16, hexDigit digit ≠ ':' := by decide
  have htag : ∀ c ∈ digestTag, c ≠ ':' := by
    rw [digestTag_eq]
    simp
  intro hmem
  exact forall_mem_digestText htag hdigit digest ':' hmem rfl

/-! ## 2. Sources and manifests -/

structure GitSource where
  url : Text
  commit : Text
  subdir : Text
deriving DecidableEq, Repr

inductive DependencySource where
  | git (source : GitSource)
  | localLocator (locator : Text)
deriving DecidableEq, Repr

structure PackModule where
  name : ContributionName
  path : PackPath
deriving DecidableEq, Repr

structure PackDependency where
  aliasName : Alias
  packageId : PackageId
  source : DependencySource
deriving DecidableEq, Repr

inductive ComponentInterface where
  | formatComponent
deriving DecidableEq, Repr

structure BundledComponent where
  name : ContributionName
  path : PackPath
  digest : Digest
  interface : ComponentInterface
deriving DecidableEq, Repr

/-- `PackManifestV1`, without the capture roots. The constructor rejects a repeated dependency
alias. -/
structure PackManifest where
  packageId : PackageId
  modules : List PackModule
  configDocuments : List PackPath
  dependencies : List PackDependency
  templates : List PackPath
  schemas : List PackPath
  assets : List PackPath
  components : List BundledComponent
  aliases_nodup : (dependencies.map PackDependency.aliasName).Nodup
deriving DecidableEq

/-! ## 3. Pack trees -/

structure PackFile where
  path : PackPath
  bytes : Contents
deriving DecidableEq, Repr

inductive PackTreeError where
  | missingManifest
  | duplicatePath (path : PackPath)
  | tooManyEntries (limit actual : Nat)
  | fileTooLarge (path : PackPath) (limit actual : Nat)
  | treeTooLarge (limit actual : Nat)
deriving DecidableEq, Repr

def sortFiles (files : List PackFile) : List PackFile :=
  files.insertionSort fun left right => left.path ≤ right.path

/-- The loop of `validated_pack_entries`: the previous path and the bytes so far. -/
def checkEntries : Option PackPath → Nat → List PackFile → Except PackTreeError Unit
  | _, _, [] => .ok ()
  | previous, total, file :: rest => do
    reject (previous = some file.path) (.duplicatePath file.path)
    reject (maxPackFileBytes < file.bytes.byteLen)
      (.fileTooLarge file.path maxPackFileBytes file.bytes.byteLen)
    reject (maxPackTreeBytes < total + file.bytes.byteLen)
      (.treeTooLarge maxPackTreeBytes (total + file.bytes.byteLen))
    checkEntries (some file.path) (total + file.bytes.byteLen) rest

def validatedPackEntries (files : List PackFile) : Except PackTreeError (List PackFile) := do
  reject (maxPackTreeEntries < files.length)
    (.tooManyEntries maxPackTreeEntries (maxPackTreeEntries + 1))
  let entries := sortFiles files
  checkEntries none 0 entries
  reject (∀ file ∈ entries, file.path ≠ packManifestFile) .missingManifest
  return entries

/-- The hash functions over canonical encodings, and the KDL reader. -/
structure PackCodec where
  /-- The digest of `malm-pack-content` over entries in path order. -/
  contentDigest : List PackFile → Digest
  /-- `decode_pack_v1`. -/
  decodePack : Contents → Option PackManifest

def packContentDigest (codec : PackCodec) (files : List PackFile) :
    Except PackTreeError Digest := do
  let entries ← validatedPackEntries files
  return codec.contentDigest entries

end Malm.Pack
