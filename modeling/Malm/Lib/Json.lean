/-
Malm.Lib.Json — JSON values, their pretty and their compact form.

A value keeps the fields of an object in order, repeated keys included. `pretty`
writes two blanks for each level and one field or item a line; the sizes count the
bytes of that text without writing it. `compact` writes the value on one line.
-/
import Malm.Lib.Bytes

/-- A JSON value. `otherNumber` is a number that is no natural number, as it stands. -/
inductive Json where
  | null
  | bool (value : Bool)
  | number (value : Nat)
  | otherNumber (digits : List Char)
  | string (text : List Char)
  | array (items : List Json)
  | object (fields : List (List Char × Json))

namespace Json

open Bytes List Function

/-! ## 1. Pretty form -/

def escapeDigit (digit : Nat) : Char :=
  ['0', '1', '2', '3', '4', '5', '6', '7', '8', '9', 'a', 'b', 'c', 'd', 'e', 'f'].getD digit '0'

def escape (character : Char) : List Char :=
  if character = '\x22' then ['\x5c', '\x22']
  else if character = '\x5c' then ['\x5c', '\x5c']
  else if character = '\x08' then ['\x5c', 'b']
  else if character = '\x0c' then ['\x5c', 'f']
  else if character = '\n' then ['\x5c', 'n']
  else if character = '\x0d' then ['\x5c', 'r']
  else if character = '\t' then ['\x5c', 't']
  else if character.toNat < 0x20 then
    ['\x5c', 'u', '0', '0', escapeDigit (character.toNat / 16), escapeDigit (character.toNat % 16)]
  else [character]

def quote (text : List Char) : List Char := '\x22' :: (text.flatMap escape ++ ['\x22'])

def line (indent : Nat) : List Char := '\n' :: List.replicate (2 * indent) ' '

mutual

/-- The text of a value that stands at a level. -/
def pretty (indent : Nat) : Json → List Char
  | .null => ['n', 'u', 'l', 'l']
  | .bool true => ['t', 'r', 'u', 'e']
  | .bool false => ['f', 'a', 'l', 's', 'e']
  | .number value => Nat.toDigits 10 value
  | .otherNumber digits => digits
  | .string text => quote text
  | .array [] => ['[', ']']
  | .array (first :: rest) =>
    '[' :: (line (indent + 1) ++ pretty (indent + 1) first ++ prettyItems (indent + 1) rest ++
      line indent ++ [']'])
  | .object [] => ['\x7b', '\x7d']
  | .object (first :: rest) =>
    '\x7b' :: (line (indent + 1) ++ quote first.1 ++ [':', ' '] ++ pretty (indent + 1) first.2 ++
      prettyFields (indent + 1) rest ++ line indent ++ ['\x7d'])

def prettyItems (indent : Nat) : List Json → List Char
  | [] => []
  | item :: rest => ',' :: (line indent ++ pretty indent item ++ prettyItems indent rest)

def prettyFields (indent : Nat) : List (List Char × Json) → List Char
  | [] => []
  | field :: rest =>
    ',' :: (line indent ++ quote field.1 ++ [':', ' '] ++ pretty indent field.2 ++
      prettyFields indent rest)

end

/-! ## 2. Keys -/

mutual

/-- No object inside of the value repeats a key. -/
def noDuplicateKeys : Json → Bool
  | .array items => noDuplicateKeysItems items
  | .object fields => noDuplicateKeysFields [] fields
  | _ => true

def noDuplicateKeysItems : List Json → Bool
  | [] => true
  | item :: rest => noDuplicateKeys item && noDuplicateKeysItems rest

def noDuplicateKeysFields (seen : List (List Char)) : List (List Char × Json) → Bool
  | [] => true
  | field :: rest =>
    (field.1 ∉ seen) && noDuplicateKeys field.2 && noDuplicateKeysFields (field.1 :: seen) rest

end

theorem noDuplicateKeysItems_iff {items : List Json} :
    noDuplicateKeysItems items = true ↔ ∀ item ∈ items, noDuplicateKeys item = true := by
  induction items with
  | nil => simp [noDuplicateKeysItems]
  | cons item rest ih => simp [noDuplicateKeysItems, ih]

theorem noDuplicateKeysFields_iff {fields : List (List Char × Json)} {seen : List (List Char)} :
    noDuplicateKeysFields seen fields = true ↔
      (fields.map Prod.fst).Nodup ∧ (∀ field ∈ fields, field.1 ∉ seen) ∧
        ∀ field ∈ fields, noDuplicateKeys field.2 = true := by
  induction fields generalizing seen with
  | nil => simp [noDuplicateKeysFields]
  | cons field rest ih =>
    simp only [noDuplicateKeysFields, Bool.and_eq_true, decide_eq_true_eq, ih, map_cons,
      nodup_cons, forall_mem_cons]
    simp only [mem_cons, not_or, mem_map, not_exists, not_and]
    constructor
    · rintro ⟨⟨hseen, hvalue⟩, hnodup, hrest, hvalues⟩
      exact ⟨⟨fun other hother heq => (hrest other hother).1 heq, hnodup⟩,
        ⟨hseen, fun other hother => (hrest other hother).2⟩, hvalue, hvalues⟩
    · rintro ⟨⟨hfirst, hnodup⟩, ⟨hseen, hrest⟩, hvalue, hvalues⟩
      exact ⟨⟨hseen, hvalue⟩, hnodup,
        fun other hother => ⟨fun heq => hfirst other hother heq, hrest other hother⟩, hvalues⟩

theorem noDuplicateKeys_object {fields : List (List Char × Json)} :
    noDuplicateKeys (.object fields) = true ↔
      (fields.map Prod.fst).Nodup ∧ ∀ field ∈ fields, noDuplicateKeys field.2 = true := by
  rw [noDuplicateKeys, noDuplicateKeysFields_iff]
  simp

theorem noDuplicateKeys_array {items : List Json} :
    noDuplicateKeys (.array items) = true ↔ ∀ item ∈ items, noDuplicateKeys item = true := by
  rw [noDuplicateKeys, noDuplicateKeysItems_iff]

@[simp] theorem noDuplicateKeys_string (text : List Char) :
    noDuplicateKeys (.string text) = true := rfl

@[simp] theorem noDuplicateKeys_number (v : Nat) : noDuplicateKeys (.number v) = true := rfl

/-! ## 3. Sizes -/

def prettySize (indent : Nat) (value : Json) : Nat := (utf8 (pretty indent value)).length

def quotedSize (text : List Char) : Nat :=
  (text.map fun character => (utf8 (escape character)).length).sum + 2

/-- The bytes of an array or object at a level, from the sizes of its lines. -/
def blockSize (indent : Nat) (lines : List Nat) : Nat :=
  if lines = [] then 2
  else (lines.map fun size => size + (2 * indent + 4)).sum + (2 * indent + 2)

def fieldSize (indent : Nat) (field : List Char × Json) : Nat :=
  quotedSize field.1 + 2 + prettySize indent field.2

theorem length_utf8_cons {c : Char} {text : List Char} (h : c.utf8Size = 1) :
    (utf8 (c :: text)).length = (utf8 text).length + 1 := by
  rw [utf8_length, utf8_length, map_cons, sum_cons, h, Nat.add_comm]

theorem length_utf8_quote (text : List Char) : (utf8 (quote text)).length = quotedSize text := by
  have hquote : (utf8 ['\x22']).length = 1 := rfl
  rw [quote, length_utf8_cons rfl, utf8_append, length_append, hquote, quotedSize]
  induction text with
  | nil => rfl
  | cons c rest ih =>
    rw [flatMap_cons, utf8_append, length_append, map_cons, sum_cons]
    omega

theorem length_utf8_line (indent : Nat) : (utf8 (line indent)).length = 2 * indent + 1 := by
  have hblank : (' ' : Char).utf8Size = 1 := rfl
  rw [line, length_utf8_cons rfl, utf8_length, map_replicate, sum_replicate, hblank]
  simp

theorem length_prettyItems (indent : Nat) (items : List Json) :
    (utf8 (prettyItems indent items)).length =
      (items.map fun item => prettySize indent item + (2 * indent + 2)).sum := by
  induction items with
  | nil => rfl
  | cons item rest ih =>
    rw [prettyItems, length_utf8_cons rfl, utf8_append, utf8_append, length_append,
      length_append, length_utf8_line, ih, map_cons, sum_cons, prettySize]
    omega

theorem length_prettyFields (indent : Nat) (fields : List (List Char × Json)) :
    (utf8 (prettyFields indent fields)).length =
      (fields.map fun field => fieldSize indent field + (2 * indent + 2)).sum := by
  have hcolon : (utf8 [':', ' ']).length = 2 := rfl
  induction fields with
  | nil => rfl
  | cons field rest ih =>
    rw [prettyFields, length_utf8_cons rfl]
    simp only [utf8_append, length_append, length_utf8_line, hcolon, ih, map_cons,
      sum_cons, fieldSize, prettySize, length_utf8_quote]
    omega

theorem prettySize_array (indent : Nat) (items : List Json) :
    prettySize indent (.array items) =
      blockSize indent (items.map (prettySize (indent + 1))) := by
  have hclose : (utf8 [']']).length = 1 := rfl
  cases items with
  | nil => rfl
  | cons first rest =>
    have hlevel : 2 * (indent + 1) + 2 = 2 * indent + 4 := by omega
    rw [prettySize, pretty, length_utf8_cons rfl]
    simp only [utf8_append, length_append, length_utf8_line, length_prettyItems, hclose, blockSize,
      map_cons, map_map, sum_cons, cons_ne_nil, if_false, hlevel, comp_def, prettySize]
    omega

theorem prettySize_object (indent : Nat) (fields : List (List Char × Json)) :
    prettySize indent (.object fields) =
      blockSize indent (fields.map (fieldSize (indent + 1))) := by
  have hclose : (utf8 ['\x7d']).length = 1 := rfl
  have hcolon : (utf8 [':', ' ']).length = 2 := rfl
  cases fields with
  | nil => rfl
  | cons first rest =>
    have hlevel : 2 * (indent + 1) + 2 = 2 * indent + 4 := by omega
    rw [prettySize, pretty, length_utf8_cons rfl]
    simp only [utf8_append, length_append, length_utf8_line, length_prettyFields, hclose,
      hcolon, blockSize, map_cons, map_map, sum_cons, cons_ne_nil, if_false,
      hlevel, comp_def, fieldSize, prettySize, length_utf8_quote]
    omega

@[simp] theorem prettySize_string (indent : Nat) (text : List Char) :
    prettySize indent (.string text) = quotedSize text := by
  rw [prettySize, pretty, length_utf8_quote]

/-! ## 4. Compact form -/

mutual

def compact : Json → List Char
  | .null => ['n', 'u', 'l', 'l']
  | .bool true => ['t', 'r', 'u', 'e']
  | .bool false => ['f', 'a', 'l', 's', 'e']
  | .number value => Nat.toDigits 10 value
  | .otherNumber digits => digits
  | .string text => quote text
  | .array [] => ['[', ']']
  | .array (first :: rest) => '[' :: (compact first ++ compactItems rest ++ [']'])
  | .object [] => ['\x7b', '\x7d']
  | .object (first :: rest) =>
    '\x7b' :: (quote first.1 ++ [':'] ++ compact first.2 ++ compactFields rest ++ ['\x7d'])

def compactItems : List Json → List Char
  | [] => []
  | item :: rest => ',' :: (compact item ++ compactItems rest)

def compactFields : List (List Char × Json) → List Char
  | [] => []
  | field :: rest => ',' :: (quote field.1 ++ [':'] ++ compact field.2 ++ compactFields rest)

end

def compactSize (value : Json) : Nat := (utf8 (compact value)).length

/-- The bytes of an array or object, from the sizes of its items. -/
def rowSize (sizes : List Nat) : Nat :=
  if sizes = [] then 2 else (sizes.map fun size => size + 1).sum + 1

def compactFieldSize (field : List Char × Json) : Nat :=
  quotedSize field.1 + 1 + compactSize field.2

theorem length_compactItems (items : List Json) :
    (utf8 (compactItems items)).length = (items.map fun item => compactSize item + 1).sum := by
  induction items with
  | nil => rfl
  | cons item rest ih =>
    rw [compactItems, length_utf8_cons rfl, utf8_append, length_append, ih, map_cons,
      sum_cons, compactSize]
    omega

theorem length_compactFields (fields : List (List Char × Json)) :
    (utf8 (compactFields fields)).length =
      (fields.map fun field => compactFieldSize field + 1).sum := by
  have hcolon : (utf8 [':']).length = 1 := rfl
  induction fields with
  | nil => rfl
  | cons field rest ih =>
    rw [compactFields, length_utf8_cons rfl]
    simp only [utf8_append, length_append, hcolon, ih, map_cons, sum_cons,
      compactFieldSize, compactSize, length_utf8_quote]
    omega

theorem compactSize_array (items : List Json) :
    compactSize (.array items) = rowSize (items.map compactSize) := by
  have hclose : (utf8 [']']).length = 1 := rfl
  cases items with
  | nil => rfl
  | cons first rest =>
    rw [compactSize, compact, length_utf8_cons rfl]
    simp only [utf8_append, length_append, length_compactItems, hclose, rowSize, map_cons, map_map,
      sum_cons, cons_ne_nil, if_false, comp_def, compactSize]
    omega

theorem compactSize_object (fields : List (List Char × Json)) :
    compactSize (.object fields) = rowSize (fields.map compactFieldSize) := by
  have hclose : (utf8 ['\x7d']).length = 1 := rfl
  have hcolon : (utf8 [':']).length = 1 := rfl
  cases fields with
  | nil => rfl
  | cons first rest =>
    rw [compactSize, compact, length_utf8_cons rfl]
    simp only [utf8_append, length_append, length_compactFields, hclose, hcolon, rowSize,
      map_cons, map_map, sum_cons, cons_ne_nil, if_false, comp_def,
      compactFieldSize, compactSize, length_utf8_quote]
    omega

@[simp] theorem compactSize_string (text : List Char) :
    compactSize (.string text) = quotedSize text := by
  rw [compactSize, compact, length_utf8_quote]

theorem rowSize_le {sizes : List Nat} {bound : Nat} (h : ∀ size ∈ sizes, size ≤ bound) :
    rowSize sizes ≤ sizes.length * (bound + 1) + 2 := by
  unfold rowSize
  split
  · omega
  · have hsum := sum_le_card_nsmul (sizes.map fun size => size + 1) (bound + 1) (by simpa using h)
    rw [length_map, smul_eq_mul] at hsum
    omega

end Json
