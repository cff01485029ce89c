/-
Malm.Lib.Bytes — parsers over byte lists, big-endian numbers and UTF-8.

Each parser has one lemma that says exactly which bytes it accepts (`take_ok`,
`number_ok`, `sized_ok`), so a format is read off a parser in both directions. Texts
compare as their UTF-8 bytes do (`utf8_lt_iff`).
-/
import Malm.Lib.Checks

namespace Bytes

open List

/-! ## 1. Parsers -/

abbrev Parser (ε α : Type) := StateT (List UInt8) (Except ε) α

section Parsers

variable {ε α β : Type}

def check (test : Except ε α) : Parser ε α := fun bytes => do
  let value ← test
  return (value, bytes)

def take (count : Nat) (truncated : ε) : Parser ε (List UInt8) := fun bytes =>
  if bytes.length < count then .error truncated else .ok (bytes.take count, bytes.drop count)

def finish (trailing : ε) : Parser ε Unit := fun bytes =>
  if bytes = [] then .ok ((), bytes) else .error trailing

variable {bytes rest : List UInt8}

theorem read_bind_ok {p : Parser ε α} {f : α → Parser ε β} {b : β} :
    (p >>= f) bytes = .ok (b, rest) ↔
      ∃ a mid, p bytes = .ok (a, mid) ∧ f a mid = .ok (b, rest) := by
  show (p bytes >>= fun r => f r.1 r.2) = _ ↔ _
  rw [Checks.bind_ok, Prod.exists]

theorem read_pure_ok {a b : α} :
    (pure a : Parser ε α) bytes = .ok (b, rest) ↔ a = b ∧ bytes = rest := by
  show Except.ok (a, bytes) = _ ↔ _
  rw [Except.ok.injEq, Prod.mk.injEq]

theorem check_ok {test : Except ε α} {a : α} :
    check test bytes = .ok (a, rest) ↔ test = .ok a ∧ bytes = rest := by
  simp only [check, Checks.bind_ok, Checks.pure_ok, Prod.mk.injEq]
  constructor
  · rintro ⟨v, htest, rfl, rfl⟩
    exact ⟨htest, rfl⟩
  · rintro ⟨htest, rfl⟩
    exact ⟨a, htest, rfl, rfl⟩

theorem take_ok {count : Nat} {truncated : ε} {v : List UInt8} :
    take count truncated bytes = .ok (v, rest) ↔
      v.length = count ∧ bytes = v ++ rest := by
  unfold take
  split
  · rename_i hshort
    constructor
    · intro h
      cases h
    · rintro ⟨hlen, rfl⟩
      simp at hshort
      omega
  · rename_i hlong
    rw [Except.ok.injEq, Prod.mk.injEq]
    constructor
    · rintro ⟨rfl, rfl⟩
      exact ⟨by simp; omega, (take_append_drop count bytes).symm⟩
    · rintro ⟨rfl, rfl⟩
      exact ⟨take_left, drop_left⟩

def literal (expected : List UInt8) (truncated wrong : ε) : Parser ε Unit := do
  let actual ← take expected.length truncated
  check (Checks.reject (actual ≠ expected) wrong)

theorem literal_ok {expected : List UInt8} {truncated wrong : ε} :
    literal expected truncated wrong bytes = .ok ((), rest) ↔ bytes = expected ++ rest := by
  simp only [literal, read_bind_ok, take_ok, check_ok, Checks.reject_ok, not_not]
  constructor
  · rintro ⟨actual, middle, ⟨-, rfl⟩, rfl, rfl⟩
    rfl
  · rintro rfl
    exact ⟨expected, rest, ⟨rfl, rfl⟩, rfl, rfl⟩

theorem finish_ok {trailing : ε} :
    finish trailing bytes = .ok ((), rest) ↔ bytes = [] ∧ rest = [] := by
  unfold finish
  split
  · rename_i hempty
    subst hempty
    simp [eq_comm]
  · rename_i hmore
    simp [hmore]

end Parsers

/-! ## 2. Big-endian numbers -/

/-- The big-endian bytes of a number, in a given width. -/
def bigEndian : Nat → Nat → List UInt8
  | 0, _ => []
  | width + 1, value => bigEndian width (value / 256) ++ [UInt8.ofNat (value % 256)]

def ofBigEndian (bytes : List UInt8) : Nat :=
  bytes.foldl (fun value byte => value * 256 + byte.toNat) 0

@[simp] theorem bigEndian_length (width v : Nat) : (bigEndian width v).length = width := by
  induction width generalizing v with
  | zero => rfl
  | succ width ih => simp [bigEndian, ih]

@[simp] theorem ofBigEndian_concat (bytes : List UInt8) (byte : UInt8) :
    ofBigEndian (bytes ++ [byte]) = ofBigEndian bytes * 256 + byte.toNat := by
  simp [ofBigEndian]

theorem ofBigEndian_lt (bytes : List UInt8) : ofBigEndian bytes < 256 ^ bytes.length := by
  induction bytes using reverseRecOn with
  | nil => simp [ofBigEndian]
  | append_singleton bytes byte ih =>
    have hbyte := byte.toNat_lt
    rw [ofBigEndian_concat, length_append, length_singleton, pow_succ]
    omega

theorem ofBigEndian_bigEndian {width value : Nat} (h : value < 256 ^ width) :
    ofBigEndian (bigEndian width value) = value := by
  induction width generalizing value with
  | zero =>
    rw [pow_zero] at h
    simp [bigEndian, ofBigEndian]
    omega
  | succ width ih =>
    have hquotient : value / 256 < 256 ^ width := by
      rw [pow_succ] at h
      omega
    have hbyte : (UInt8.ofNat (value % 256)).toNat = value % 256 := by
      simp
    rw [bigEndian, ofBigEndian_concat, ih hquotient, hbyte]
    omega

theorem bigEndian_ofBigEndian (bytes : List UInt8) :
    bigEndian bytes.length (ofBigEndian bytes) = bytes := by
  induction bytes using reverseRecOn with
  | nil => rfl
  | append_singleton bytes byte ih =>
    have hbyte := byte.toNat_lt
    have hquotient : (ofBigEndian bytes * 256 + byte.toNat) / 256 = ofBigEndian bytes := by omega
    have hremainder : (ofBigEndian bytes * 256 + byte.toNat) % 256 = byte.toNat := by omega
    rw [length_append, length_singleton, ofBigEndian_concat, bigEndian, hquotient,
      hremainder, ih, UInt8.ofNat_toNat]

section Numbers

variable {ε : Type}

def number (width : Nat) (truncated : ε) : Parser ε Nat := do
  let bytes ← take width truncated
  return ofBigEndian bytes

variable {width : Nat} {truncated : ε} {bytes rest : List UInt8}

theorem number_ok {v : Nat} :
    number width truncated bytes = .ok (v, rest) ↔
      v < 256 ^ width ∧ bytes = bigEndian width v ++ rest := by
  simp only [number, read_bind_ok, take_ok, read_pure_ok]
  constructor
  · rintro ⟨used, middle, ⟨rfl, rfl⟩, rfl, rfl⟩
    exact ⟨ofBigEndian_lt used, by rw [bigEndian_ofBigEndian]⟩
  · rintro ⟨hvalue, rfl⟩
    exact ⟨_, _, ⟨bigEndian_length width v, rfl⟩, ofBigEndian_bigEndian hvalue, rfl⟩

/-- A number that must be a given one, such as a version. -/
def constant (width expected : Nat) (truncated : ε) (wrong : Nat → ε) : Parser ε Unit := do
  let found ← number width truncated
  check (Checks.reject (found ≠ expected) (wrong found))

theorem constant_ok {expected : Nat} {wrong : Nat → ε} (hexp : expected < 256 ^ width) :
    constant width expected truncated wrong bytes = .ok ((), rest) ↔
      bytes = bigEndian width expected ++ rest := by
  simp only [constant, read_bind_ok, number_ok, check_ok, Checks.reject_ok, not_not]
  constructor
  · rintro ⟨found, middle, ⟨-, rfl⟩, rfl, rfl⟩
    rfl
  · rintro rfl
    exact ⟨expected, rest, ⟨hexp, rfl⟩, rfl, rfl⟩

def bits (width : Nat) (truncated : ε) : Parser ε (BitVec (8 * width)) := do
  let value ← number width truncated
  return BitVec.ofNat (8 * width) value

theorem bits_ok {v : BitVec (8 * width)} :
    bits width truncated bytes = .ok (v, rest) ↔
      bytes = bigEndian width v.toNat ++ rest := by
  have hpower : 2 ^ (8 * width) = 256 ^ width := by
    rw [pow_mul]
    rfl
  simp only [bits, read_bind_ok, number_ok, read_pure_ok]
  constructor
  · rintro ⟨found, middle, ⟨hfound, rfl⟩, rfl, rfl⟩
    rw [BitVec.toNat_ofNat, hpower, Nat.mod_eq_of_lt hfound]
  · rintro rfl
    exact ⟨v.toNat, rest, ⟨hpower ▸ v.isLt, rfl⟩, BitVec.ofNat_toNat .. |>.trans (by simp),
      rfl⟩

/-- A byte string with its length in eight bytes before it. -/
def sized (maximum : Nat) (tooLong truncated : ε) : Parser ε (List UInt8) := do
  let length ← number 8 truncated
  check (Checks.reject (maximum < length) tooLong)
  take length truncated

def withLength (value : List UInt8) : List UInt8 := bigEndian 8 value.length ++ value

@[simp] theorem withLength_length (v : List UInt8) :
    (withLength v).length = 8 + v.length := by
  simp [withLength]

theorem sized_ok {maximum : Nat} {tooLong : ε} {v : List UInt8}
    (hmaximum : maximum < 256 ^ 8) :
    sized maximum tooLong truncated bytes = .ok (v, rest) ↔
      v.length ≤ maximum ∧ bytes = withLength v ++ rest := by
  simp only [sized, read_bind_ok, number_ok, check_ok, take_ok, Checks.exists_unit, Checks.reject_ok,
    not_lt]
  constructor
  · rintro ⟨length, middle, ⟨-, rfl⟩, -, ⟨hlimit, rfl⟩, rfl, rfl⟩
    exact ⟨hlimit, by rw [withLength, append_assoc]⟩
  · rintro ⟨hlimit, rfl⟩
    exact ⟨v.length, v ++ rest, ⟨hlimit.trans_lt hmaximum,
      by rw [withLength, append_assoc]⟩, v ++ rest, ⟨hlimit, rfl⟩, rfl, rfl⟩

theorem withLength_inj {left right rest' : List UInt8} (hleft : left.length < 256 ^ 8)
    (hright : right.length < 256 ^ 8) (h : withLength left ++ rest = withLength right ++ rest') :
    left = right ∧ rest = rest' := by
  rw [withLength, withLength, append_assoc, append_assoc] at h
  obtain ⟨hlen, hrest⟩ := append_inj h (by simp)
  have hsame := congrArg ofBigEndian hlen
  rw [ofBigEndian_bigEndian hleft, ofBigEndian_bigEndian hright] at hsame
  exact append_inj hrest hsame

end Numbers

/-! ## 3. UTF-8 -/

def utf8 (text : List Char) : List UInt8 := text.flatMap String.utf8EncodeChar

def fromUtf8 (bytes : List UInt8) : Option (List Char) :=
  bytes.toByteArray.utf8Decode?.map Array.toList

@[simp] theorem utf8_append (left right : List Char) : utf8 (left ++ right) = utf8 left ++ utf8 right :=
  flatMap_append

theorem utf8_length (text : List Char) :
    (utf8 text).length = (text.map fun c => c.utf8Size).sum := by
  simp [utf8, length_flatMap]

theorem fromUtf8_eq_some {bytes : List UInt8} {text : List Char} :
    fromUtf8 bytes = some text ↔ bytes = utf8 text := by
  constructor
  · intro h
    obtain ⟨cs, hdecode, rfl⟩ := Option.map_eq_some_iff.1 h
    have hsome : bytes.toByteArray.utf8Decode?.isSome = true := by
      rw [hdecode]
      rfl
    have hencode := @ByteArray.utf8Encode_get_utf8Decode? bytes.toByteArray hsome
    simp only [hdecode, Option.get_some] at hencode
    have hdata := congrArg ByteArray.data hencode
    simpa [utf8Encode, utf8] using hdata.symm
  · rintro rfl
    show (utf8Encode text).utf8Decode?.map Array.toList = some text
    rw [utf8Decode?_utf8Encode, Option.map_some]

@[simp] theorem fromUtf8_utf8 (text : List Char) : fromUtf8 (utf8 text) = some text :=
  fromUtf8_eq_some.2 rfl

theorem utf8_injective : Function.Injective utf8 := by
  intro left right h
  have hread := fromUtf8_utf8 left
  rw [h, fromUtf8_utf8] at hread
  exact (Option.some.inj hread).symm

/-! ## 4. The order of texts -/

theorem ofNat_lt_ofNat {left right : Nat} (hright : right < 256) (h : left < right) :
    UInt8.ofNat left < UInt8.ofNat right := by
  rw [UInt8.lt_iff_toNat_lt, UInt8.toNat_ofNat', UInt8.toNat_ofNat',
    Nat.mod_eq_of_lt hright, Nat.mod_eq_of_lt (h.trans hright)]
  exact h

theorem utf8EncodeChar_lt {left right : Char} (h : left < right) :
    ∃ shared smaller larger after after',
      String.utf8EncodeChar left = shared ++ smaller :: after ∧
      String.utf8EncodeChar right = shared ++ larger :: after' ∧ smaller < larger := by
  have hlt : left.val.toNat < right.val.toNat := h
  have hbound : right.val.toNat < 1114112 := by
    have hvalid := right.valid
    rcases hvalid with hvalid | ⟨-, hvalid⟩
    · exact lt_trans hvalid (by decide)
    · exact hvalid
  unfold String.utf8EncodeChar
  generalize left.val.toNat = v at *
  generalize right.val.toNat = w at *
  dsimp only
  -- Encodings of different lengths differ in their first byte.
  split_ifs
  all_goals first
    | omega
    | exact ⟨[], _, _, _, _, rfl, rfl, ofNat_lt_ofNat (by omega) (by omega)⟩
    | skip
  · rcases Nat.lt_or_ge (v / 64) (w / 64) with hfirst | hfirst
    · exact ⟨[], _, _, _, _, rfl, rfl, ofNat_lt_ofNat (by omega) (by omega)⟩
    · have hsame : v / 64 = w / 64 := by omega
      rw [hsame]
      exact ⟨[_], _, _, _, _, rfl, rfl, ofNat_lt_ofNat (by omega) (by omega)⟩
  · rcases Nat.lt_or_ge (v / 4096) (w / 4096) with hfirst | hfirst
    · exact ⟨[], _, _, _, _, rfl, rfl, ofNat_lt_ofNat (by omega) (by omega)⟩
    · have hsame : v / 4096 = w / 4096 := by omega
      rw [hsame]
      rcases Nat.lt_or_ge (v / 64) (w / 64) with hsecond | hsecond
      · exact ⟨[_], _, _, _, _, rfl, rfl, ofNat_lt_ofNat (by omega) (by omega)⟩
      · have hsame : v / 64 = w / 64 := by omega
        rw [hsame]
        exact ⟨[_, _], _, _, _, _, rfl, rfl, ofNat_lt_ofNat (by omega) (by omega)⟩
  · rcases Nat.lt_or_ge (v / 262144) (w / 262144) with hfirst | hfirst
    · exact ⟨[], _, _, _, _, rfl, rfl, ofNat_lt_ofNat (by omega) (by omega)⟩
    · have hsame : v / 262144 = w / 262144 := by omega
      rw [hsame]
      rcases Nat.lt_or_ge (v / 4096) (w / 4096) with hsecond | hsecond
      · exact ⟨[_], _, _, _, _, rfl, rfl, ofNat_lt_ofNat (by omega) (by omega)⟩
      · have hsame : v / 4096 = w / 4096 := by omega
        rw [hsame]
        rcases Nat.lt_or_ge (v / 64) (w / 64) with hthird | hthird
        · exact ⟨[_, _], _, _, _, _, rfl, rfl, ofNat_lt_ofNat (by omega) (by omega)⟩
        · have hsame : v / 64 = w / 64 := by omega
          rw [hsame]
          exact ⟨[_, _, _], _, _, _, _, rfl, rfl, ofNat_lt_ofNat (by omega) (by omega)⟩

theorem append_lt_append {shared left right : List UInt8} (h : left < right) :
    shared ++ left < shared ++ right := by
  induction shared with
  | nil => exact h
  | cons first shared ih => exact .cons ih

theorem utf8_lt {left right : List Char} (h : left < right) : utf8 left < utf8 right := by
  induction h with
  | nil =>
    rename_i first rest
    show [] < String.utf8EncodeChar first ++ utf8 rest
    have hpos : (String.utf8EncodeChar first).length ≠ 0 := by
      rw [String.length_utf8EncodeChar]
      exact first.utf8Size_pos.ne'
    cases hbytes : String.utf8EncodeChar first with
    | nil => simp [hbytes] at hpos
    | cons byte bytes => exact .nil
  | rel hless =>
    obtain ⟨shared, smaller, larger, after, after', hleft, hright, hbyte⟩ :=
      utf8EncodeChar_lt hless
    show String.utf8EncodeChar _ ++ utf8 _ < String.utf8EncodeChar _ ++ utf8 _
    rw [hleft, hright, append_assoc, append_assoc]
    exact append_lt_append (.rel hbyte)
  | cons hrest ih => exact append_lt_append ih

/-- **Texts compare as their UTF-8 bytes do.** -/
theorem utf8_lt_iff {left right : List Char} : utf8 left < utf8 right ↔ left < right := by
  constructor
  · intro h
    rcases lt_trichotomy left right with hlt | rfl | hgt
    · exact hlt
    · exact absurd h (List.lt_irrefl _)
    · exact absurd (List.lt_trans h (utf8_lt hgt)) (List.lt_irrefl _)
  · exact utf8_lt

end Bytes
