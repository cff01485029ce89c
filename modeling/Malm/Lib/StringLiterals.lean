/-
Malm.Lib.StringLiterals — double-quoted strings of JSON, TOML and Lua.

Each language is the scanner that reads such a string behind its opening quote. A JSON or
TOML string is text; a Lua string is bytes, and a character that stands for itself is its
UTF-8 bytes.
-/
import Malm.Lib.Transducer
import Malm.Lib.Json

namespace StringLiterals

open Transducer Bytes

/-! ## 1. Digits -/

def decimalDigit (character : Char) : Option Nat :=
  if '0' ≤ character ∧ character ≤ '9' then some (character.toNat - 48) else none

/-- The value of a hexadecimal digit, in either case. -/
def hexDigit (character : Char) : Option Nat :=
  if '0' ≤ character ∧ character ≤ '9' then some (character.toNat - 48)
  else if 'a' ≤ character ∧ character ≤ 'f' then some (character.toNat - 87)
  else if 'A' ≤ character ∧ character ≤ 'F' then some (character.toNat - 55)
  else none

/-- A string with its opening quote, up to its closing quote. -/
def read {σ α : Type} (step : σ → Char → Move σ α) (state : σ) :
    List Char → Option (List α × List Char)
  | [] => none
  | character :: rest => if character = '\x22' then scan step state rest else none

@[simp] theorem read_quote {σ α : Type} (step : σ → Char → Move σ α) (s : σ)
    (rest : List Char) : read step s ('\x22' :: rest) = scan step s rest := rfl

/-! ## 2. JSON -/

/-- Where a scanner stands in a JSON string; behind a high surrogate, a low one has to follow. -/
inductive JsonState where
  | text
  | escape
  | digits (high : Option Nat) (count value : Nat)
  | pair (high : Nat)
  | pairEscape (high : Nat)
deriving DecidableEq

def jsonEscape (character : Char) : Option Char :=
  if character = '\x22' then some '\x22'
  else if character = '\x5c' then some '\x5c'
  else if character = '/' then some '/'
  else if character = 'b' then some '\x08'
  else if character = 'f' then some '\x0c'
  else if character = 'n' then some '\n'
  else if character = 'r' then some '\x0d'
  else if character = 't' then some '\t'
  else none

def jsonUnit : Option Nat → Nat → Move JsonState Char
  | none, unit =>
    if 0xd800 ≤ unit ∧ unit < 0xdc00 then .go (.pair unit) []
    else if 0xdc00 ≤ unit ∧ unit < 0xe000 then .refuse
    else .go .text [Char.ofNat unit]
  | some high, unit =>
    if 0xdc00 ≤ unit ∧ unit < 0xe000 then
      .go .text [Char.ofNat (0x10000 + (high - 0xd800) * 0x400 + (unit - 0xdc00))]
    else .refuse

def jsonStep : JsonState → Char → Move JsonState Char
  | .text, character =>
    if character = '\x22' then .close []
    else if character = '\x5c' then .go .escape []
    else if character.toNat < 0x20 then .refuse
    else .go .text [character]
  | .escape, character =>
    match jsonEscape character with
    | some meant => .go .text [meant]
    | none => if character = 'u' then .go (.digits none 0 0) [] else .refuse
  | .digits high count value, character =>
    match hexDigit character with
    | none => .refuse
    | some digit =>
      if count < 3 then .go (.digits high (count + 1) (16 * value + digit)) []
      else jsonUnit high (16 * value + digit)
  | .pair high, character => if character = '\x5c' then .go (.pairEscape high) [] else .refuse
  | .pairEscape high, character =>
    if character = 'u' then .go (.digits (some high) 0 0) [] else .refuse

/-- A JSON string with its quotes: its text, and what stands behind it. -/
def readJson : List Char → Option (List Char × List Char) := read jsonStep .text

theorem feed_json_plain {c : Char} (hquote : c ≠ '\x22')
    (hback : c ≠ '\x5c') (hcontrol : ¬ c.toNat < 0x20) :
    feed jsonStep .text [c] = some (.text, [c]) := by
  simp [feed, jsonStep, hquote, hback, hcontrol]

/-! ## 3. TOML -/

/-- Where a scanner stands in a TOML basic string. -/
inductive TomlState where
  | text
  | escape
  | digits (remaining value : Nat)
deriving DecidableEq

def tomlEscape (character : Char) : Option Char :=
  if character = '\x22' then some '\x22'
  else if character = '\x5c' then some '\x5c'
  else if character = 'b' then some '\x08'
  else if character = 'f' then some '\x0c'
  else if character = 'n' then some '\n'
  else if character = 'r' then some '\x0d'
  else if character = 't' then some '\t'
  else none

def tomlStep : TomlState → Char → Move TomlState Char
  | .text, character =>
    if character = '\x22' then .close []
    else if character = '\x5c' then .go .escape []
    else if (character.toNat < 0x20 ∧ character ≠ '\t') ∨ character.toNat = 0x7f then .refuse
    else .go .text [character]
  | .escape, character =>
    match tomlEscape character with
    | some meant => .go .text [meant]
    | none =>
      if character = 'u' then .go (.digits 3 0) []
      else if character = 'U' then .go (.digits 7 0) []
      else .refuse
  | .digits remaining value, character =>
    match hexDigit character, remaining with
    | none, _ => .refuse
    | some digit, more + 1 => .go (.digits more (16 * value + digit)) []
    | some digit, 0 =>
      if (16 * value + digit).isValidChar then .go .text [Char.ofNat (16 * value + digit)]
      else .refuse

/-- A TOML basic string with its quotes: its text, and what stands behind it. -/
def readToml : List Char → Option (List Char × List Char) := read tomlStep .text

theorem feed_toml_plain {c : Char} (hquote : c ≠ '\x22')
    (hback : c ≠ '\x5c')
    (hcontrol : ¬ ((c.toNat < 0x20 ∧ c ≠ '\t') ∨ c.toNat = 0x7f)) :
    feed tomlStep .text [c] = some (.text, [c]) := by
  simp [feed, tomlStep, hquote, hback, hcontrol]

/-! ## 4. Lua -/

/-- Where a scanner stands in a Lua string, in an escape of up to three digits too. -/
inductive LuaState where
  | text
  | escape
  | byte (high : Option Nat)
  | decimal (count value : Nat)
  | pointOpen
  | point (value : Option Nat)
  | blanks
deriving DecidableEq

def luaEscape (character : Char) : Option UInt8 :=
  if character = 'a' then some 7
  else if character = 'b' then some 8
  else if character = 't' then some 9
  else if character = 'n' then some 10
  else if character = 'v' then some 11
  else if character = 'f' then some 12
  else if character = 'r' then some 13
  else if character = '\n' then some 10
  else if character = '\x22' then some 34
  else if character = '\x27' then some 39
  else if character = '\x5c' then some 92
  else none

def luaText (character : Char) : Move LuaState UInt8 :=
  if character = '\x22' then .close []
  else if character = '\x5c' then .go .escape []
  else if character = '\n' ∨ character = '\x0d' then .refuse
  else .go .text (utf8 [character])

/-- A byte before what the next character writes. -/
def luaBefore (value : Nat) : Move LuaState UInt8 → Move LuaState UInt8
  | .go state written => if value < 256 then .go state (value.toUInt8 :: written) else .refuse
  | .close written => if value < 256 then .close (value.toUInt8 :: written) else .refuse
  | .refuse => .refuse

def luaStep : LuaState → Char → Move LuaState UInt8
  | .text, character => luaText character
  | .escape, character =>
    match luaEscape character, decimalDigit character with
    | some byte, _ => .go .text [byte]
    | none, some digit => .go (.decimal 1 digit) []
    | none, none =>
      if character = 'x' then .go (.byte none) []
      else if character = 'u' then .go .pointOpen []
      else if character = 'z' then .go .blanks []
      else .refuse
  | .byte high, character =>
    match hexDigit character, high with
    | none, _ => .refuse
    | some digit, none => .go (.byte (some digit)) []
    | some digit, some first => .go .text [(16 * first + digit).toUInt8]
  | .decimal count value, character =>
    match decimalDigit character with
    | some digit =>
      if count < 3 then .go (.decimal (count + 1) (10 * value + digit)) []
      else luaBefore value (luaText character)
    | none => luaBefore value (luaText character)
  | .pointOpen, character => if character = '\x7b' then .go (.point none) [] else .refuse
  | .point value, character =>
    match hexDigit character, value with
    | some digit, some before => .go (.point (some (16 * before + digit))) []
    | some digit, none => .go (.point (some digit)) []
    | none, some before =>
      if character = '\x7d' ∧ before.isValidChar then .go .text (utf8 [Char.ofNat before])
      else .refuse
    | none, none => .refuse
  | .blanks, character =>
    if character = ' ' ∨ (9 ≤ character.toNat ∧ character.toNat ≤ 13) then .go .blanks []
    else luaText character

/-- A Lua string with its quotes: its bytes, and what stands behind it. -/
def readLua : List Char → Option (List UInt8 × List Char) := read luaStep .text

theorem feed_lua_plain {c : Char} (hquote : c ≠ '\x22')
    (hback : c ≠ '\x5c') (hline : c ≠ '\n') (hreturn : c ≠ '\x0d') :
    feed luaStep .text [c] = some (.text, utf8 [c]) := by
  simp [feed, luaStep, luaText, hquote, hback, hline, hreturn]

end StringLiterals
