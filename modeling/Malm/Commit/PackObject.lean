/-
Malm.Commit.PackObject — the envelope check of pack objects in the committer
(`pack_object.rs`).

`validate` reads an object without keeping its files. Paths are compared as
the bytes they are, before they are known to be UTF-8.
-/
import Malm.Commit.Objects

namespace Malm.Commit.PackObject

open Commit Bytes

def domain : List UInt8 := utf8 "malm-pack-content\x00".toList
def encodingVersion : Nat := 1
def maxPackTreeEntries : Nat := 100000
def maxPackTreeBytes : Nat := 1024 * 1024 * 1024
def maxPackFileBytes : Nat := 256 * 1024 * 1024
def maxPackPathBytes : Nat := 1024
def maxPackPathSegments : Nat := 32
def maxPathSegmentBytes : Nat := 255

/-! ## 1. Paths -/

/-- The segments that the loop of `valid_path` refuses by name. -/
def refusedSegment (segment : Text) : Bool :=
  segment = ['.'] || segment = ['.', '.'] || segment = ".git".toList ||
    segment = "malm.lock".toList || segment = ".malm-lock.tmp".toList

def validSegment (segment : Text) : Bool :=
  !(segment.isEmpty || refusedSegment segment || maxPathSegmentBytes < segment.byteLen)

def validText (path : Text) : Bool :=
  if path.head? = some '/' ∨ '\\' ∈ path ∨ path.any Text.isControl = true then
    false
  else
    path.segments.all validSegment && path.segments.length ≤ maxPackPathSegments

def validPath (bytes : List UInt8) : Bool :=
  match fromUtf8 bytes with
  | none => false
  | some path => validText path

/-! ## 2. Members -/

/-- A test that makes `validate` return false. -/
def require (condition : Prop) [Decidable condition] : Parser Unit Unit :=
  check (Checks.reject (¬ condition) ())

structure LoopState where
  previous : List UInt8
  totalBytes : Nat
  foundManifest : Bool

def readMember (state : LoopState) : Parser Unit LoopState := do
  let pathLen ← number 8 ()
  require (¬ (pathLen = 0 ∨ maxPackPathBytes < pathLen))
  let path ← take pathLen ()
  require (¬ (state.previous ≠ [] ∧ path ≤ state.previous))
  require (validPath path = true)
  let fileLen ← number 8 ()
  require (state.totalBytes + fileLen ≤ maxPackTreeBytes)
  require (¬ maxPackFileBytes < fileLen)
  let _ ← take fileLen ()
  return {
    previous := path
    totalBytes := state.totalBytes + fileLen
    foundManifest := state.foundManifest || path = utf8 "malm-pack.kdl".toList }

def readMembers : Nat → LoopState → Parser Unit LoopState
  | 0, state => pure state
  | count + 1, state => do
    let state ← readMember state
    readMembers count state

/-- What `validate` reads after it has checked the digest. -/
def readEnvelope : Parser Unit Unit := do
  literal domain () ()
  constant 2 encodingVersion () fun _ => ()
  let count ← number 8 ()
  require (¬ maxPackTreeEntries < count)
  let state ← readMembers count ⟨[], 0, false⟩
  require (state.foundManifest = true)
  finish ()

def validate (sha256 : List UInt8 → Digest) (bytes : List UInt8) (expected : Digest) : Bool :=
  if maxPackObjectBytes < bytes.length ∨ sha256 bytes ≠ expected then
    false
  else
    (readEnvelope bytes).isOk

end Malm.Commit.PackObject
