/-
Malm.Authoring.Escape — how generated files quote strings (`text.rs`,
`config_file/generic.rs`).

JSON and Lua share one loop with their common escapes; TOML and the shell have a loop of
their own. The formats `{:04x}` and `{:04X}` of the standard library are `hexText`.
-/
import Malm.Types

namespace Malm.Authoring

/-! ## 1. JSON and Lua -/

/-- `{:0width$x}`: hexadecimal digits, filled up with zeros from the left. -/
def hexText (width value : Nat) : Text := (Nat.toDigits 16 value).leftpad width '0'

def escapeShared (character : Char) : Option Text :=
  if character = '\x22' then some ['\x5c', '\x22']
  else if character = '\x5c' then some ['\x5c', '\x5c']
  else if character = '\n' then some ['\x5c', 'n']
  else if character = '\x0d' then some ['\x5c', 'r']
  else if character = '\t' then some ['\x5c', 't']
  else if character = '\x08' then some ['\x5c', 'b']
  else if character = '\x0c' then some ['\x5c', 'f']
  else none

def writeEscapeChar (control : Char → Text) (character : Char) : Text :=
  match escapeShared character with
  | some escape => escape
  | none => if Text.isControl character then control character else [character]

def writeEscape (control : Char → Text) (value : Text) : Text :=
  value.flatMap (writeEscapeChar control)

def jsonControl (character : Char) : Text := '\x5c' :: 'u' :: hexText 4 character.toNat

def jsonEscape (value : Text) : Text := writeEscape jsonControl value

def luaControl (character : Char) : Text :=
  if character.toNat ≤ 0xff then '\x5c' :: 'x' :: hexText 2 character.toNat
  else ['\x5c', 'u', '\x7b'] ++ Nat.toDigits 16 character.toNat ++ ['\x7d']

def luaEscape (value : Text) : Text := writeEscape luaControl value

/-! ## 2. TOML -/

def tomlChar (character : Char) : Text :=
  if character = '\x22' then ['\x5c', '\x22']
  else if character = '\x5c' then ['\x5c', '\x5c']
  else if character = '\n' then ['\x5c', 'n']
  else if character = '\x0d' then ['\x5c', 'r']
  else if character = '\t' then ['\x5c', 't']
  else if character.toNat < 0x20 ∨ character = '\x7f' then
    '\x5c' :: 'u' :: (hexText 4 character.toNat).map Char.toUpper
  else [character]

def tomlString (value : Text) : Text := '\x22' :: (value.flatMap tomlChar ++ ['\x22'])

/-! ## 3. Shell -/

def isAsciiAlphanumeric (character : Char) : Bool :=
  ('a' ≤ character && character ≤ 'z') || ('A' ≤ character && character ≤ 'Z') ||
    ('0' ≤ character && character ≤ '9')

/-- A character that `shell_word` leaves outside of quotes. -/
def isShellSafe (character : Char) : Bool :=
  isAsciiAlphanumeric character || character ∈ ['_', '-', '.', '/', ':', '=', '+', ',']

def shellChar (character : Char) : Text :=
  if character = '\x27' then ['\x27', '\x5c', '\x27', '\x27'] else [character]

def shellWord (value : Text) : Text :=
  if value ≠ [] ∧ value.all isShellSafe = true then value
  else '\x27' :: (value.flatMap shellChar ++ ['\x27'])

end Malm.Authoring
