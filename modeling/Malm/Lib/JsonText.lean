/-
Malm.Lib.JsonText — the JSON grammar, as a parser, and texts that it accepts.

A number is kept as its text. A layout says which blanks stand between the tokens of
a value; whatever the layout, the parser reads the value that was written
(`parse_render`). The fuel bounds the nesting and the number of items; the length of
the text is enough.
-/
import Malm.Lib.StringLiterals

namespace Json

open StringLiterals Transducer List Nat Option

variable {fields : List (List Char × Json)}

variable {c close first : Char} {colon key line more : List Char}

/-! ## 1. Numbers -/

def isNumberChar (character : Char) : Bool :=
  character.isDigit || character ∈ ['-', '+', '.', 'e', 'E']

def isExponentDigits (text : List Char) : Bool :=
  match text with
  | [] => false
  | first :: rest =>
    if first = '+' ∨ first = '-' then rest ≠ [] && rest.all Char.isDigit
    else first.isDigit && rest.all Char.isDigit

def isExponent (text : List Char) : Bool :=
  match text with
  | [] => true
  | first :: rest => (first = 'e' || first = 'E') && isExponentDigits rest

def isFraction (text : List Char) : Bool :=
  match text with
  | '.' :: first :: rest => first.isDigit && isExponent (rest.dropWhile Char.isDigit)
  | rest => isExponent rest

/-- A number without its sign: no zero stands before another digit. -/
def isUnsigned (text : List Char) : Bool :=
  match text with
  | [] => false
  | first :: rest =>
    if first = '0' then isFraction rest
    else first.isDigit && isFraction (rest.dropWhile Char.isDigit)

def isNumber (text : List Char) : Bool :=
  match text with
  | '-' :: rest => isUnsigned rest
  | rest => isUnsigned rest

structure NumberToken (text : List Char) : Prop where
  grammar : isNumber text = true
  characters : ∀ character ∈ text, isNumberChar character = true

variable {text : List Char}

theorem NumberToken.ne_nil (h : NumberToken text) : text ≠ [] := by
  rintro rfl
  exact absurd h.grammar (by decide)

theorem isUnsigned_digits {rest : List Char} (hfirst : first.isDigit = true)
    (hrest : ∀ c ∈ rest, c.isDigit = true) (hzero : first = '0' → rest = []) :
    isUnsigned (first :: rest) = true := by
  have hdrop : rest.dropWhile Char.isDigit = [] := dropWhile_eq_nil_iff.mpr hrest
  rw [isUnsigned]
  split
  · next h => rw [hzero h]; rfl
  · rw [hfirst, hdrop]; rfl

theorem head_toDigits {value : Nat} (h : 0 < value) :
    (toDigits 10 value).head? ≠ some '0' := by
  induction value using Nat.strong_induction_on with
  | _ value ih =>
    rw [toDigits_eq_if (by decide)]
    split
    · next hlt => interval_cases value <;> decide
    · next hge =>
      have hquotient := ih (value / 10) (by omega) (by omega)
      cases hdigits : toDigits 10 (value / 10) with
      | nil => exact absurd hdigits toDigits_ne_nil
      | cons first rest =>
        rw [hdigits] at hquotient
        simpa using hquotient

theorem isNumberChar_of_isDigit (h : c.isDigit = true) :
    isNumberChar c = true := by
  simp [isNumberChar, h]

theorem isUnsigned_toDigits (value : Nat) : isUnsigned (toDigits 10 value) = true := by
  have hdigit : ∀ c ∈ toDigits 10 value, c.isDigit = true :=
    fun c hmem => isDigit_of_mem_toDigits (by decide) (by decide) hmem
  cases Nat.eq_zero_or_pos value with
  | inl hzero => rw [hzero]; rfl
  | inr hpos =>
    have hhead := head_toDigits hpos
    cases hdigits : toDigits 10 value with
    | nil => exact absurd hdigits toDigits_ne_nil
    | cons first rest =>
      rw [hdigits] at hhead hdigit
      refine isUnsigned_digits (hdigit first (by simp))
        (fun c hmem => hdigit c (by simp [hmem])) ?_
      intro hfirst
      exact absurd (congrArg some hfirst) hhead

theorem isNumber_of_isUnsigned (h : isUnsigned text = true) : isNumber text = true := by
  unfold isNumber
  split
  · cases h
  · exact h

theorem numberToken_toDigits (value : Nat) : NumberToken (toDigits 10 value) where
  grammar := isNumber_of_isUnsigned (isUnsigned_toDigits value)
  characters character hmem :=
    isNumberChar_of_isDigit (isDigit_of_mem_toDigits (by decide) (by decide) hmem)

theorem numberToken_int (value : Int) : NumberToken (toString value).toList := by
  cases value with
  | ofNat value =>
    have htext : (toString (Int.ofNat value)).toList = toDigits 10 value := toList_repr
    rw [htext]
    exact numberToken_toDigits value
  | negSucc value =>
    have htext : (toString (Int.negSucc value)).toList = '-' :: toDigits 10 (value + 1) := by
      show ("-" ++ Nat.repr (value + 1)).toList = _
      rw [String.toList_append, toList_repr]
      rfl
    rw [htext]
    refine ⟨isUnsigned_toDigits (value + 1), ?_⟩
    intro c hmem
    obtain rfl | hdigit := mem_cons.mp hmem
    · rfl
    · exact (numberToken_toDigits (value + 1)).characters c hdigit

theorem isFraction_plain (h : isFraction text = true)
    (hplain : ∀ c ∈ text, c ∉ ['.', 'e', 'E']) : text = [] := by
  cases text with
  | nil => rfl
  | cons first rest =>
    have hfirst := hplain first (by simp)
    simp only [mem_cons, not_mem_nil, or_false, not_or] at hfirst
    unfold isFraction at h
    split at h
    · next heq =>
      obtain ⟨rfl, -⟩ := cons.inj heq
      exact absurd rfl hfirst.1
    · simp [isExponent, hfirst.2] at h

theorem isUnsigned_append_zero (h : isUnsigned text = true)
    (hplain : ∀ c ∈ text, c ∉ ['.', 'e', 'E']) :
    isUnsigned (text ++ ['.', '0']) = true := by
  cases text with
  | nil => cases h
  | cons first rest =>
    have hrest : ∀ c ∈ rest, c ∉ ['.', 'e', 'E'] :=
      fun c hmem => hplain c (by simp [hmem])
    rw [isUnsigned] at h
    rw [cons_append, isUnsigned]
    split_ifs at h ⊢ with hzero
    · rw [isFraction_plain h hrest]
      rfl
    · rw [Bool.and_eq_true] at h
      have hdigits := isFraction_plain h.2
        (fun c hmem => hrest c (dropWhile_sublist _ |>.subset hmem))
      rw [dropWhile_append_of_pos (dropWhile_eq_nil_iff.mp hdigits), h.1]
      rfl

theorem NumberToken.append_zero (h : NumberToken text)
    (hplain : ∀ c ∈ text, c ∉ ['.', 'e', 'E']) :
    NumberToken (text ++ ['.', '0']) where
  grammar := by
    have hnumber := h.grammar
    unfold isNumber at hnumber
    split at hnumber
    · next rest =>
      exact isUnsigned_append_zero hnumber fun c hmem => hplain c (by simp [hmem])
    · exact isNumber_of_isUnsigned (isUnsigned_append_zero hnumber hplain)
  characters c hmem := by
    obtain htext | htail := mem_append.mp hmem
    · exact h.characters c htext
    · simp only [mem_cons, not_mem_nil, or_false] at htail
      obtain rfl | rfl := htail <;> rfl

/-! ## 2. The grammar -/

def isSpace (character : Char) : Bool := character ∈ [' ', '\t', '\n', '\x0d']

def skip (text : List Char) : List Char := text.dropWhile isSpace

def parseWord (text : List Char) : Option (Json × List Char) :=
  if ['n', 'u', 'l', 'l'].isPrefixOf text then some (.null, text.drop 4)
  else if ['t', 'r', 'u', 'e'].isPrefixOf text then some (.bool true, text.drop 4)
  else if ['f', 'a', 'l', 's', 'e'].isPrefixOf text then some (.bool false, text.drop 5)
  else none

def parseNumber (text : List Char) : Option (Json × List Char) :=
  if isNumber (text.takeWhile isNumberChar) then
    some (.otherNumber (text.takeWhile isNumberChar), text.dropWhile isNumberChar)
  else none

mutual

def parseValue : Nat → List Char → Option (Json × List Char)
  | 0, _ => none
  | fuel + 1, text =>
    match skip text with
    | [] => none
    | first :: rest =>
      if first = '\x22' then
        (scan jsonStep .text rest).map fun found => (.string found.1, found.2)
      else if first = '[' then
        if (skip rest).head? = some ']' then some (.array [], (skip rest).tail)
        else (parseItems fuel rest).map fun found => (.array found.1, found.2)
      else if first = '\x7b' then
        if (skip rest).head? = some '\x7d' then some (.object [], (skip rest).tail)
        else (parseFields fuel rest).map fun found => (.object found.1, found.2)
      else if isNumberChar first then parseNumber (first :: rest)
      else parseWord (first :: rest)

/-- The items of an array up to its closing bracket. -/
def parseItems : Nat → List Char → Option (List Json × List Char)
  | 0, _ => none
  | fuel + 1, text =>
    match parseValue fuel text with
    | none => none
    | some (item, rest) =>
      match skip rest with
      | ',' :: more => (parseItems fuel more).map fun found => (item :: found.1, found.2)
      | ']' :: more => some ([item], more)
      | _ => none

/-- The fields of an object up to its closing brace. -/
def parseFields : Nat → List Char → Option (List (List Char × Json) × List Char)
  | 0, _ => none
  | fuel + 1, text =>
    match readJson (skip text) with
    | none => none
    | some (key, afterKey) =>
      match skip afterKey with
      | ':' :: afterColon =>
        match parseValue fuel afterColon with
        | none => none
        | some (value, rest) =>
          match skip rest with
          | ',' :: more => (parseFields fuel more).map fun found => ((key, value) :: found.1, found.2)
          | '\x7d' :: more => some ([(key, value)], more)
          | _ => none
      | _ => none

end

def parse (text : List Char) : Option Json :=
  match parseValue text.length text with
  | some (value, rest) => if skip rest = [] then some value else none
  | none => none

/-! ## 3. Layouts -/

/-- The blanks before an item at a level, and behind a colon. -/
structure Layout where
  line : Nat → List Char
  colon : List Char
  line_blank : ∀ level, ∀ character ∈ line level, isSpace character = true
  colon_blank : ∀ character ∈ colon, isSpace character = true

section Render

variable (layout : Layout)

mutual

def render (level : Nat) : Json → List Char
  | .null => ['n', 'u', 'l', 'l']
  | .bool true => ['t', 'r', 'u', 'e']
  | .bool false => ['f', 'a', 'l', 's', 'e']
  | .number value => Nat.toDigits 10 value
  | .otherNumber digits => digits
  | .string text => quote text
  | .array [] => ['[', ']']
  | .array (first :: rest) =>
    '[' :: (renderItems (level + 1) (first :: rest) ++ (layout.line level ++ [']']))
  | .object [] => ['\x7b', '\x7d']
  | .object (first :: rest) =>
    '\x7b' :: (renderFields (level + 1) (first :: rest) ++ (layout.line level ++ ['\x7d']))

/-- The items of an array, with commas between them. -/
def renderItems (level : Nat) : List Json → List Char
  | [] => []
  | [item] => layout.line level ++ render level item
  | item :: next :: rest =>
    layout.line level ++ (render level item ++ ',' :: renderItems level (next :: rest))

/-- The fields of an object, with commas between them. -/
def renderFields (level : Nat) : List (List Char × Json) → List Char
  | [] => []
  | [field] =>
    layout.line level ++ (quote field.1 ++ ':' :: (layout.colon ++ render level field.2))
  | field :: next :: rest =>
    layout.line level ++ (quote field.1 ++ ':' :: (layout.colon ++ (render level field.2 ++
      ',' :: renderFields level (next :: rest))))

end

end Render

mutual

def Tokens : Json → Prop
  | .number _ => False
  | .otherNumber digits => NumberToken digits
  | .array items => TokensItems items
  | .object fields => TokensFields fields
  | _ => True

def TokensItems : List Json → Prop
  | [] => True
  | item :: rest => Tokens item ∧ TokensItems rest

def TokensFields : List (List Char × Json) → Prop
  | [] => True
  | field :: rest => Tokens field.2 ∧ TokensFields rest

end

/-! ## 4. Strings and blanks -/

theorem feed_lowEscape : ∀ code < 32,
    feed jsonStep (.digits none 0 0)
      ['0', '0', escapeDigit (code / 16), escapeDigit (code % 16)] =
        some (.text, [Char.ofNat code]) := by
  decide +kernel

theorem feed_escape (c : Char) :
    feed jsonStep .text (escape c) = some (.text, [c]) := by
  unfold escape
  split_ifs with hquote hbackslash hback hform hline hreturn htab hcontrol
  · subst hquote; rfl
  · subst hbackslash; rfl
  · subst hback; rfl
  · subst hform; rfl
  · subst hline; rfl
  · subst hreturn; rfl
  · subst htab; rfl
  · have hopen : feed jsonStep .text ['\x5c', 'u'] = some (.digits none 0 0, []) := rfl
    have hcode := feed_lowEscape c.toNat hcontrol
    rw [Char.ofNat_toNat] at hcode
    exact feed_append hopen hcode
  · exact feed_json_plain hquote hbackslash hcontrol

theorem scan_quote (text rest : List Char) :
    scan jsonStep .text (text.flatMap escape ++ '\x22' :: rest) = some (text, rest) := by
  have hscan : scan jsonStep .text (text.flatMap escape ++ '\x22' :: rest) =
      some (text.flatMap fun c => [c], rest) :=
    scan_flatMap (fun c _ => feed_escape c) rfl
  simpa using hscan

theorem readJson_quote (text rest : List Char) :
    readJson (quote text ++ rest) = some (text, rest) := by
  simpa [readJson, quote] using scan_quote text rest

variable {blanks rest : List Char} {value : Json} {fuel : Nat} {text after : List Char}

theorem skip_append_blank (h : ∀ c ∈ blanks, isSpace c = true) (text : List Char) :
    skip (blanks ++ text) = skip text := by
  induction blanks with
  | nil => rfl
  | cons c rest ih =>
    rw [skip, cons_append, dropWhile_cons_of_pos (h c (by simp))]
    exact ih fun other hother => h other (by simp [hother])

theorem skip_cons (h : isSpace first = false) (rest : List Char) :
    skip (first :: rest) = first :: rest :=
  dropWhile_cons_of_neg (by simp [h])

theorem parseValue_blank (h : ∀ c ∈ blanks, isSpace c = true) (fuel : Nat)
    (text : List Char) : parseValue fuel (blanks ++ text) = parseValue fuel text := by
  cases fuel with
  | zero => rw [parseValue, parseValue]
  | succ fuel => rw [parseValue, parseValue, skip_append_blank h]

/-! ## 5. What is written is read -/

/-- No number goes on with this text. -/
def Follows (rest : List Char) : Prop :=
  ∀ character, rest.head? = some character → isNumberChar character = false

theorem parseNumber_append {digits : List Char} (h : NumberToken digits) (hrest : Follows rest) :
    parseNumber (digits ++ rest) = some (.otherNumber digits, rest) := by
  have htake : rest.takeWhile isNumberChar = [] := by
    cases rest with
    | nil => rfl
    | cons first tail => exact takeWhile_cons_of_neg (by simp [hrest first rfl])
  have hdrop : rest.dropWhile isNumberChar = rest := by
    cases rest with
    | nil => rfl
    | cons first tail => exact dropWhile_cons_of_neg (by simp [hrest first rfl])
  rw [parseNumber, takeWhile_append_of_pos h.characters,
    dropWhile_append_of_pos h.characters, htake, hdrop, append_nil, if_pos h.grammar]

theorem of_isNumberChar (h : isNumberChar c = true) :
    isSpace c = false ∧ c ≠ ']' ∧ c ≠ '[' ∧ c ≠ '\x22' ∧
      c ≠ '\x7b' := by
  refine ⟨?_, ?_, ?_, ?_, ?_⟩
  · by_contra hspace
    simp only [Bool.not_eq_false, isSpace, mem_cons, not_mem_nil, or_false,
      decide_eq_true_eq] at hspace
    obtain rfl | rfl | rfl | rfl := hspace <;> cases h
  all_goals
    rintro rfl
    cases h

theorem render_head (layout : Layout) (level : Nat) (h : Tokens value) :
    ∃ first rest, render layout level value = first :: rest ∧ isSpace first = false ∧
      first ≠ ']' := by
  cases value with
  | null => exact ⟨_, _, rfl, rfl, by decide⟩
  | bool value => cases value <;> exact ⟨_, _, rfl, rfl, by decide⟩
  | number value => exact absurd h (by simp [Tokens])
  | otherNumber digits =>
    simp only [Tokens] at h
    cases digits with
    | nil => exact absurd rfl h.ne_nil
    | cons first rest =>
      have hchar := of_isNumberChar (h.characters first (by simp))
      exact ⟨first, rest, rfl, hchar.1, hchar.2.1⟩
  | string text => exact ⟨_, _, rfl, rfl, by decide⟩
  | array items => cases items <;> exact ⟨_, _, rfl, rfl, by decide⟩
  | object fields => cases fields <;> exact ⟨_, _, rfl, rfl, by decide⟩

theorem parseValue_string (fuel : Nat) (text rest : List Char) :
    parseValue (fuel + 1) (quote text ++ rest) = some (.string text, rest) := by
  have hscan := scan_quote text rest
  simp only [quote, cons_append, append_assoc, parseValue]
  rw [skip_cons rfl]
  simp [hscan]

theorem parseValue_array {fuel : Nat} {text after : List Char} {items : List Json}
    (hne : (skip text).head? ≠ some ']') (h : parseItems fuel text = some (items, after)) :
    parseValue (fuel + 1) ('[' :: text) = some (.array items, after) := by
  rw [parseValue, skip_cons rfl]
  simp [hne, h]

theorem parseValue_object (hne : (skip text).head? ≠ some '\x7d')
    (h : parseFields fuel text = some (fields, after)) :
    parseValue (fuel + 1) ('\x7b' :: text) = some (.object fields, after) := by
  rw [parseValue, skip_cons rfl]
  simp [hne, h]

theorem parseItems_last {fuel : Nat} {text blanks after : List Char} {item : Json}
    (hblanks : ∀ c ∈ blanks, isSpace c = true)
    (h : parseValue fuel text = some (item, blanks ++ ']' :: after)) :
    parseItems (fuel + 1) text = some ([item], after) := by
  rw [parseItems, h]
  simp only [skip_append_blank hblanks, skip_cons (show isSpace ']' = false from rfl)]

theorem parseItems_more {item : Json} {items : List Json}
    (h : parseValue fuel text = some (item, ',' :: more))
    (hmore : parseItems fuel more = some (items, after)) :
    parseItems (fuel + 1) text = some (item :: items, after) := by
  rw [parseItems, h]
  simp only [skip_cons (show isSpace ',' = false from rfl), hmore, map_some]

section

variable (hline : ∀ c ∈ line, isSpace c = true) (hcolon : ∀ c ∈ colon, isSpace c = true)

include hline hcolon

theorem parseFields_last (hblanks : ∀ c ∈ blanks, isSpace c = true)
    (h : parseValue fuel text = some (value, blanks ++ '\x7d' :: after)) :
    parseFields (fuel + 1) (line ++ (quote key ++ ':' :: (colon ++ text))) =
      some ([(key, value)], after) := by
  rw [parseFields, skip_append_blank hline]
  rw [show skip (quote key ++ ':' :: (colon ++ text)) = quote key ++ ':' :: (colon ++ text) from
    skip_cons rfl _, readJson_quote]
  simp only [skip_cons (show isSpace ':' = false from rfl), parseValue_blank hcolon, h,
    skip_append_blank hblanks, skip_cons (show isSpace '\x7d' = false from rfl)]

theorem parseFields_more (h : parseValue fuel text = some (value, ',' :: more))
    (hmore : parseFields fuel more = some (fields, after)) :
    parseFields (fuel + 1) (line ++ (quote key ++ ':' :: (colon ++ text))) =
      some ((key, value) :: fields, after) := by
  rw [parseFields, skip_append_blank hline]
  rw [show skip (quote key ++ ':' :: (colon ++ text)) = quote key ++ ':' :: (colon ++ text) from
    skip_cons rfl _, readJson_quote]
  simp only [skip_cons (show isSpace ':' = false from rfl), parseValue_blank hcolon, h,
    skip_cons (show isSpace ',' = false from rfl), hmore, map_some]

end

theorem follows_cons (hclose : isNumberChar close = false) :
    Follows (close :: rest) := by
  intro character hhead
  obtain rfl : close = character := by simpa using hhead
  exact hclose

theorem follows_append (hblanks : ∀ character ∈ blanks, isSpace character = true)
    (hclose : isNumberChar close = false) : Follows (blanks ++ close :: rest) := by
  intro character hhead
  cases blanks with
  | nil => exact follows_cons hclose character hhead
  | cons first tail =>
    obtain rfl : first = character := by simpa using hhead
    have hspace := hblanks first (by simp)
    by_contra hnumber
    rw [(of_isNumberChar (by simpa using hnumber)).1] at hspace
    cases hspace

section Read

variable (layout : Layout)

theorem skip_renderItems {items : List Json} (level : Nat) (rest : List Char)
    (h : TokensItems items) (hne : items ≠ []) :
    (skip (renderItems layout level items ++ rest)).head? ≠ some ']' := by
  have hfirst : ∀ (item : Json) (tail : List Char), Tokens item →
      (skip (layout.line level ++ (render layout level item ++ tail))).head? ≠ some ']' := by
    intro item tail hitem
    obtain ⟨first, others, hrender, hspace, hbracket⟩ := render_head layout level hitem
    rw [skip_append_blank (layout.line_blank level), hrender, cons_append, skip_cons hspace]
    simpa using hbracket
  cases items with
  | nil => exact absurd rfl hne
  | cons item more =>
    cases more with
    | nil =>
      rw [renderItems, append_assoc]
      exact hfirst item _ h.1
    | cons next more =>
      rw [renderItems, append_assoc, append_assoc]
      exact hfirst item _ h.1

theorem skip_renderFields (level : Nat) (rest : List Char) (hne : fields ≠ []) :
    (skip (renderFields layout level fields ++ rest)).head? ≠ some '\x7d' := by
  cases fields with
  | nil => exact absurd rfl hne
  | cons field more =>
    cases more with
    | nil =>
      rw [renderFields, append_assoc, skip_append_blank (layout.line_blank level)]
      simp [quote, skip_cons (show isSpace '\x22' = false from rfl)]
    | cons next more =>
      rw [renderFields, append_assoc, skip_append_blank (layout.line_blank level)]
      simp [quote, skip_cons (show isSpace '\x22' = false from rfl)]

mutual

/-- **The parser reads the value that was written**, and stops behind it. -/
theorem parseValue_render : ∀ (value : Json) (level fuel : Nat) (rest : List Char),
    Tokens value → Follows rest → (render layout level value).length ≤ fuel →
      parseValue fuel (render layout level value ++ rest) = some (value, rest)
  | .null, level, fuel, rest, _, _, hfuel => by
    obtain ⟨fuel, rfl⟩ : ∃ less, fuel = less + 1 := ⟨fuel - 1, by simp [render] at hfuel; omega⟩
    rfl
  | .bool value, level, fuel, rest, _, _, hfuel => by
    cases value <;>
      obtain ⟨fuel, rfl⟩ : ∃ less, fuel = less + 1 := ⟨fuel - 1, by simp [render] at hfuel; omega⟩ <;>
      rfl
  | .number value, _, _, _, h, _, _ => absurd h (by simp [Tokens])
  | .otherNumber digits, level, fuel, rest, h, hrest, hfuel => by
    simp only [Tokens] at h
    have hnumber := parseNumber_append h hrest
    cases digits with
    | nil => exact absurd rfl h.ne_nil
    | cons first others =>
      obtain ⟨fuel, rfl⟩ : ∃ less, fuel = less + 1 := ⟨fuel - 1, by simp [render] at hfuel; omega⟩
      obtain ⟨hspace, -, hbracket, hquote, hbrace⟩ := of_isNumberChar (h.characters first (by simp))
      rw [render, cons_append, parseValue, skip_cons hspace]
      simp only [hquote, hbracket, hbrace, h.characters first (by simp), if_false, if_true]
      exact hnumber
  | .string text, level, fuel, rest, _, _, hfuel => by
    obtain ⟨fuel, rfl⟩ : ∃ less, fuel = less + 1 :=
      ⟨fuel - 1, by simp [render, quote] at hfuel; omega⟩
    exact parseValue_string fuel text rest
  | .array [], level, fuel, rest, h, _, hfuel => by
    obtain ⟨fuel, rfl⟩ : ∃ less, fuel = less + 1 := ⟨fuel - 1, by simp [render] at hfuel; omega⟩
    rfl
  | .array (first :: items), level, fuel, rest, h, _, hfuel => by
    simp only [Tokens] at h
    simp only [render, length_cons, length_append] at hfuel
    obtain ⟨fuel, rfl⟩ : ∃ less, fuel = less + 1 := ⟨fuel - 1, by omega⟩
    have hitems := parseItems_render (first :: items) (level + 1) fuel (layout.line level) rest h
      (by simp) (layout.line_blank level) (by omega)
    simp only [render, cons_append, append_assoc]
    exact parseValue_array (skip_renderItems layout _ _ h (by simp)) hitems
  | .object [], level, fuel, rest, h, _, hfuel => by
    obtain ⟨fuel, rfl⟩ : ∃ less, fuel = less + 1 := ⟨fuel - 1, by simp [render] at hfuel; omega⟩
    rfl
  | .object (first :: fields), level, fuel, rest, h, _, hfuel => by
    simp only [Tokens] at h
    simp only [render, length_cons, length_append] at hfuel
    obtain ⟨fuel, rfl⟩ : ∃ less, fuel = less + 1 := ⟨fuel - 1, by omega⟩
    have hfields := parseFields_render (first :: fields) (level + 1) fuel (layout.line level) rest h
      (by simp) (layout.line_blank level) (by omega)
    simp only [render, cons_append, append_assoc]
    exact parseValue_object (skip_renderFields layout _ _ (by simp)) hfields

theorem parseItems_render : ∀ (items : List Json) (level fuel : Nat) (blanks rest : List Char),
    TokensItems items → items ≠ [] → (∀ c ∈ blanks, isSpace c = true) →
      (renderItems layout level items).length + 1 ≤ fuel →
        parseItems fuel (renderItems layout level items ++ (blanks ++ ']' :: rest)) =
          some (items, rest)
  | [], _, _, _, _, _, hne, _, _ => absurd rfl hne
  | [item], level, fuel, blanks, rest, h, _, hblanks, hfuel => by
    simp only [renderItems, length_append] at hfuel
    obtain ⟨fuel, rfl⟩ : ∃ less, fuel = less + 1 := ⟨fuel - 1, by omega⟩
    have hvalue := parseValue_render item level fuel (blanks ++ ']' :: rest) h.1
      (follows_append hblanks rfl) (by omega)
    refine parseItems_last hblanks ?_
    rw [renderItems, append_assoc, parseValue_blank (layout.line_blank level), hvalue]
  | item :: next :: more, level, fuel, blanks, rest, h, _, hblanks, hfuel => by
    simp only [renderItems, length_append, length_cons] at hfuel
    obtain ⟨fuel, rfl⟩ : ∃ less, fuel = less + 1 := ⟨fuel - 1, by omega⟩
    have hvalue := parseValue_render item level fuel
      (',' :: (renderItems layout level (next :: more) ++ (blanks ++ ']' :: rest))) h.1
      (follows_cons rfl) (by omega)
    have hmore := parseItems_render (next :: more) level fuel blanks rest h.2 (by simp) hblanks
      (by omega)
    refine parseItems_more ?_ hmore
    rw [renderItems, append_assoc, append_assoc, cons_append,
      parseValue_blank (layout.line_blank level), hvalue]

theorem parseFields_render : ∀ (fields : List (List Char × Json)) (level fuel : Nat)
    (blanks rest : List Char), TokensFields fields → fields ≠ [] →
      (∀ c ∈ blanks, isSpace c = true) →
        (renderFields layout level fields).length + 1 ≤ fuel →
          parseFields fuel (renderFields layout level fields ++ (blanks ++ '\x7d' :: rest)) =
            some (fields, rest)
  | [], _, _, _, _, _, hne, _, _ => absurd rfl hne
  | [field], level, fuel, blanks, rest, h, _, hblanks, hfuel => by
    simp only [renderFields, length_append, length_cons] at hfuel
    obtain ⟨fuel, rfl⟩ : ∃ less, fuel = less + 1 := ⟨fuel - 1, by omega⟩
    have hvalue := parseValue_render field.2 level fuel (blanks ++ '\x7d' :: rest) h.1
      (follows_append hblanks rfl) (by omega)
    simp only [renderFields, append_assoc, cons_append]
    exact parseFields_last (layout.line_blank level) layout.colon_blank hblanks hvalue
  | field :: next :: more, level, fuel, blanks, rest, h, _, hblanks, hfuel => by
    simp only [renderFields, length_append, length_cons] at hfuel
    obtain ⟨fuel, rfl⟩ : ∃ less, fuel = less + 1 := ⟨fuel - 1, by omega⟩
    have hvalue := parseValue_render field.2 level fuel
      (',' :: (renderFields layout level (next :: more) ++ (blanks ++ '\x7d' :: rest))) h.1
      (follows_cons rfl) (by omega)
    have hmore := parseFields_render (next :: more) level fuel blanks rest h.2 (by simp) hblanks
      (by omega)
    simp only [renderFields, append_assoc, cons_append]
    exact parseFields_more (layout.line_blank level) layout.colon_blank hvalue hmore

end

/-- **A text of a value denotes the value**, whatever its layout. -/
theorem parse_render (h : Tokens value) (hblanks : ∀ c ∈ blanks, isSpace c = true) :
    parse (render layout 0 value ++ blanks) = some value := by
  have hfollows : Follows blanks := by
    intro c hhead
    have hspace := hblanks c (mem_of_mem_head? hhead)
    by_contra hnumber
    rw [(of_isNumberChar (by simpa using hnumber)).1] at hspace
    cases hspace
  have hvalue := parseValue_render layout value 0 (render layout 0 value ++ blanks).length blanks h
    hfollows (by simp)
  have hskip : skip blanks = [] := by
    have hall := skip_append_blank hblanks []
    rw [append_nil] at hall
    exact hall
  rw [parse, hvalue]
  simp [hskip]

end Read

end Json
