/-
Malm.Authoring.EscapeTheorems — what a generated string means to the program that reads
it (`text.rs`, `config_file/generic.rs`).

The scanner of the target language, fed with what an escaper writes for a ch,
is back where it was and has read that ch. The shell is a run through the
tokenizer, which keeps every ch with its role.
-/
import Malm.Authoring.Escape
import Malm.Lib.StringLiterals
import Malm.Lib.PosixShell

namespace Malm.Authoring

open Transducer StringLiterals PosixShell Bytes List

/-! ## 1. Control characters -/

variable {ch : Char}

theorem isControl_lt (h : Text.isControl ch = true) : ch.toNat < 160 := by
  simp only [Text.isControl, Bool.or_eq_true, Bool.and_eq_true, decide_eq_true_eq] at h
  omega

theorem feed_json_hexText : ∀ code < 160,
    feed jsonStep (.digits none 0 0) (hexText 4 code) = some (.text, [Char.ofNat code]) := by
  decide +kernel

theorem feed_toml_hexText : ∀ code < 160,
    feed tomlStep (.digits 3 0) ((hexText 4 code).map Char.toUpper) =
      some (.text, [Char.ofNat code]) := by
  decide +kernel

theorem feed_lua_hexText : ∀ code < 160,
    feed luaStep (.byte none) (hexText 2 code) = some (.text, [code.toUInt8]) := by
  decide +kernel

theorem of_not_isControl (h : ¬ Text.isControl ch = true) :
    ¬ ch.toNat < 0x20 ∧ ch.toNat ≠ 0x7f := by
  simp only [Text.isControl, Bool.or_eq_true, Bool.and_eq_true, decide_eq_true_eq] at h
  omega

/-- Without a shared escape it is no quote, no backslash and no end of a line. -/
theorem of_escapeShared_eq_none (h : escapeShared ch = none) :
    ch ≠ '\x22' ∧ ch ≠ '\x5c' ∧ ch ≠ '\n' ∧ ch ≠ '\x0d' := by
  unfold escapeShared at h
  split_ifs at h with hquote hback hline hreturn
  exact ⟨hquote, hback, hline, hreturn⟩

/-! ## 2. One character -/

/-- **JSON reads back each character.** -/
theorem feed_jsonEscape (ch : Char) :
    feed jsonStep .text (writeEscapeChar jsonControl ch) = some (.text, [ch]) := by
  unfold writeEscapeChar
  cases hshared : escapeShared ch with
  | some escape =>
    unfold escapeShared at hshared
    split_ifs at hshared <;> subst_vars <;> cases hshared <;> rfl
  | none =>
    obtain ⟨hquote, hback, -, -⟩ := of_escapeShared_eq_none hshared
    by_cases hcontrol : Text.isControl ch = true
    · have hcode := feed_json_hexText ch.toNat (isControl_lt hcontrol)
      rw [Char.ofNat_toNat] at hcode
      simp only [hcontrol, if_true, jsonControl]
      have hopen : feed jsonStep .text ['\x5c', 'u'] = some (.digits none 0 0, []) := rfl
      exact feed_append hopen hcode
    · simp only [hcontrol, Bool.false_eq_true, if_false]
      exact feed_json_plain hquote hback (of_not_isControl hcontrol).1

/-- **TOML reads back each character.** -/
theorem feed_tomlChar (ch : Char) :
    feed tomlStep .text (tomlChar ch) = some (.text, [ch]) := by
  unfold tomlChar
  split_ifs with hquote hback hline hreturn htab hcontrol
  · subst hquote; rfl
  · subst hback; rfl
  · subst hline; rfl
  · subst hreturn; rfl
  · subst htab; rfl
  · have hlow : ch.toNat < 160 := by
      obtain hlow | rfl := hcontrol
      · omega
      · decide
    have hcode := feed_toml_hexText ch.toNat hlow
    rw [Char.ofNat_toNat] at hcode
    have hopen : feed tomlStep .text ['\x5c', 'u'] = some (.digits 3 0, []) := rfl
    exact feed_append hopen hcode
  · refine feed_toml_plain hquote hback ?_
    intro hrefused
    obtain ⟨hlow, -⟩ | hdelete := hrefused
    · exact hcontrol (.inl hlow)
    · exact hcontrol (.inr (Char.toNat_inj.mp hdelete))

/-- The UTF-8 bytes, except that a control character above ASCII is one byte. -/
def luaMeaning (character : Char) : List UInt8 :=
  if 0x80 ≤ character.toNat ∧ character.toNat < 0xa0 then [character.toNat.toUInt8]
  else utf8 [character]

theorem utf8_ascii : ∀ code < 128, utf8 [Char.ofNat code] = [code.toUInt8] := by
  decide +kernel

theorem luaMeaning_ascii (h : ch.toNat < 128) :
    luaMeaning ch = [ch.toNat.toUInt8] := by
  have hutf8 := utf8_ascii ch.toNat h
  rw [Char.ofNat_toNat] at hutf8
  rw [luaMeaning, if_neg (by omega), hutf8]

theorem luaMeaning_control (h : Text.isControl ch = true) :
    luaMeaning ch = [ch.toNat.toUInt8] := by
  by_cases hlow : ch.toNat < 128
  · exact luaMeaning_ascii hlow
  · have hhigh := isControl_lt h
    rw [luaMeaning, if_pos (by omega)]

/-- **Lua reads each character as its meaning.** -/
theorem feed_luaEscape (ch : Char) :
    feed luaStep .text (writeEscapeChar luaControl ch) =
      some (.text, luaMeaning ch) := by
  unfold writeEscapeChar
  cases hshared : escapeShared ch with
  | some escape =>
    unfold escapeShared at hshared
    split_ifs at hshared <;> subst_vars <;> cases hshared <;> rfl
  | none =>
    obtain ⟨hquote, hback, hline, hreturn⟩ := of_escapeShared_eq_none hshared
    by_cases hcontrol : Text.isControl ch = true
    · have hlow := isControl_lt hcontrol
      simp only [hcontrol, if_true, luaControl, if_pos (show ch.toNat ≤ 0xff by omega),
        luaMeaning_control hcontrol]
      have hopen : feed luaStep .text ['\x5c', 'x'] = some (.byte none, []) := rfl
      exact feed_append hopen (feed_lua_hexText ch.toNat hlow)
    · have hrange : ¬ (0x80 ≤ ch.toNat ∧ ch.toNat < 0xa0) := by
        simp only [Text.isControl, Bool.or_eq_true, Bool.and_eq_true, decide_eq_true_eq] at hcontrol
        omega
      simp only [hcontrol, Bool.false_eq_true, if_false, luaMeaning, if_neg hrange]
      exact feed_lua_plain hquote hback hline hreturn

/-! ## 3. Strings -/

theorem readJson_jsonEscape (v rest : Text) :
    readJson ('\x22' :: (jsonEscape v ++ '\x22' :: rest)) = some (v, rest) := by
  have hscan : scan jsonStep .text (jsonEscape v ++ '\x22' :: rest) =
      some (v.flatMap fun ch => [ch], rest) :=
    scan_flatMap (fun ch _ => feed_jsonEscape ch) rfl
  simpa [readJson] using hscan

theorem readToml_tomlString (v rest : Text) :
    readToml (tomlString v ++ rest) = some (v, rest) := by
  have hscan : scan tomlStep .text (v.flatMap tomlChar ++ '\x22' :: rest) =
      some (v.flatMap fun ch => [ch], rest) :=
    scan_flatMap (fun ch _ => feed_tomlChar ch) rfl
  simpa [readToml, tomlString] using hscan

theorem readLua_luaEscape (v rest : Text) :
    readLua ('\x22' :: (luaEscape v ++ '\x22' :: rest)) =
      some (v.flatMap luaMeaning, rest) :=
  scan_flatMap (fun ch _ => feed_luaEscape ch) rfl

theorem length_luaMeaning_le (ch : Char) :
    (luaMeaning ch).length ≤ (utf8 [ch]).length := by
  unfold luaMeaning
  split
  · have hpos := ch.utf8Size_pos
    rw [utf8_length]
    simp only [length_singleton, map_cons, map_nil, sum_cons, sum_nil]
    omega
  · exact le_rfl

theorem length_luaMeaning_lt (h : 0x80 ≤ ch.toNat ∧ ch.toNat < 0xa0) :
    (luaMeaning ch).length < (utf8 [ch]).length := by
  have hlow : ¬ ch.toNat ≤ 0x7f := by omega
  have hhigh : ch.toNat ≤ 0x7ff := by omega
  have hsize : ch.utf8Size = 2 := by
    simp [Char.utf8Size, UInt32.le_iff_toNat_le, hlow, hhigh]
  rw [utf8_length, luaMeaning, if_pos h]
  simp [hsize]

/-- **Lua reads back the bytes of exactly the strings without such characters.** -/
theorem flatMap_luaMeaning_eq (v : Text) :
    v.flatMap luaMeaning = utf8 v ↔
      ∀ ch ∈ v, ¬ (0x80 ≤ ch.toNat ∧ ch.toNat < 0xa0) := by
  constructor
  · intro heq ch hcharacter hrange
    have hlt : (v.map fun other => (luaMeaning other).length).sum <
        (v.map fun other => (utf8 [other]).length).sum :=
      sum_lt_sum _ _ (fun other _ => length_luaMeaning_le other)
        ⟨ch, hcharacter, length_luaMeaning_lt hrange⟩
    have hlen := congrArg length heq
    rw [utf8_length, length_flatMap] at hlen
    simp only [utf8_length, map_cons, map_nil, sum_cons, sum_nil, Nat.add_zero] at hlt
    omega
  · intro hplain
    have hmeaning : ∀ ch ∈ v, luaMeaning ch = utf8 [ch] := by
      intro ch hcharacter
      rw [luaMeaning, if_neg (hplain ch hcharacter)]
    rw [flatMap_congr hmeaning]
    simp [utf8]

/-- **What all three languages read back**: strings without control characters above ASCII. -/
theorem escaped_strings_read_back (value : Text) :
    (∀ rest : Text,
      readToml (tomlString value ++ rest) = some (value, rest) ∧
      readJson ('\x22' :: (jsonEscape value ++ '\x22' :: rest)) = some (value, rest) ∧
      readLua ('\x22' :: (luaEscape value ++ '\x22' :: rest)) = some (utf8 value, rest)) ↔
      ∀ ch ∈ value, ¬ (0x80 ≤ ch.toNat ∧ ch.toNat < 0xa0) := by
  rw [← flatMap_luaMeaning_eq]
  constructor
  · intro h
    obtain ⟨-, -, hlua⟩ := h []
    rw [readLua_luaEscape] at hlua
    exact congrArg Prod.fst (Option.some.inj hlua)
  · intro hmeaning rest
    refine ⟨readToml_tomlString value rest, readJson_jsonEscape value rest, ?_⟩
    rw [readLua_luaEscape, hmeaning]

/-- The next-line character becomes one byte in Lua, which is not its UTF-8. -/
theorem lua_next_line_is_one_byte :
    readLua ('\x22' :: (luaEscape ['\u0085'] ++ ['\x22'])) = some ([0x85], []) ∧
      ¬ ∀ value rest : Text,
        readToml (tomlString value ++ rest) = some (value, rest) ∧
        readJson ('\x22' :: (jsonEscape value ++ '\x22' :: rest)) = some (value, rest) ∧
        readLua ('\x22' :: (luaEscape value ++ '\x22' :: rest)) = some (utf8 value, rest) := by
  refine ⟨by decide +kernel, ?_⟩
  intro h
  obtain ⟨-, -, hlua⟩ := h ['\u0085'] []
  exact absurd hlua (by decide +kernel)

/-! ## 4. Shell words -/

theorem isShellSafe_ascii (h : isShellSafe ch = true) : ch.toNat < 128 := by
  simp only [isShellSafe, isAsciiAlphanumeric, Bool.or_eq_true, Bool.and_eq_true,
    decide_eq_true_eq] at h
  obtain ((⟨-, hle⟩ | ⟨-, hle⟩) | ⟨-, hle⟩) | hmem := h
  · exact lt_of_le_of_lt (UInt32.le_iff_toNat_le.mp hle) (by decide)
  · exact lt_of_le_of_lt (UInt32.le_iff_toNat_le.mp hle) (by decide)
  · exact lt_of_le_of_lt (UInt32.le_iff_toNat_le.mp hle) (by decide)
  · simp only [mem_cons, not_mem_nil, or_false] at hmem
    obtain rfl | rfl | rfl | rfl | rfl | rfl | rfl | rfl := hmem <;> decide

theorem shellSafe_codes : ∀ code < 128, isShellSafe (Char.ofNat code) = true →
    isOrdinary (Char.ofNat code) = true ∧ (Piece.mk (Char.ofNat code) .bare).expands = false := by
  decide +kernel

theorem isOrdinary_of_isShellSafe (h : isShellSafe ch = true) :
    isOrdinary ch = true := by
  have hcode := shellSafe_codes ch.toNat (isShellSafe_ascii h)
  rw [Char.ofNat_toNat] at hcode
  exact (hcode h).1

theorem expands_of_isShellSafe (h : isShellSafe ch = true) :
    (Piece.mk ch .bare).expands = false := by
  have hcode := shellSafe_codes ch.toNat (isShellSafe_ascii h)
  rw [Char.ofNat_toNat] at hcode
  exact (hcode h).2

/-- The pieces of a character inside of single quotes. -/
def shellPieces (character : Char) : List Piece :=
  if character = '\x27' then
    [⟨'\x27', .mark⟩, ⟨'\x5c', .mark⟩, ⟨'\x27', .quoted⟩, ⟨'\x27', .mark⟩]
  else [⟨character, .quoted⟩]

theorem feed_shellChar (ch : Char) (before : List Piece) :
    feed step (.single before) (shellChar ch) =
      some (.single (before ++ shellPieces ch), []) := by
  unfold shellChar shellPieces
  split
  · simp [feed, step, wordStep, isBlank, isOperator]
  · next hquote => simp [feed, step, hquote]

theorem quoteRemoval_shellPieces (value : Text) :
    quoteRemoval (value.flatMap shellPieces) = value := by
  induction value with
  | nil => rfl
  | cons ch rest ih =>
    rw [flatMap_cons, quoteRemoval_append, ih]
    unfold shellPieces
    split
    · next hquote => subst hquote; rfl
    · rfl

theorem expands_shellPieces {piece : Piece} (h : piece ∈ shellPieces ch) :
    piece.expands = false := by
  unfold shellPieces at h
  split at h
  · simp only [mem_cons, not_mem_nil, or_false] at h
    obtain rfl | rfl | rfl | rfl := h <;> rfl
  · obtain rfl := mem_singleton.mp h
    rfl

/-- **Shell quoting is exact.** A shell reads one word, the string, and expands nothing of it. -/
theorem shell_word_is_one_word (value : Text) :
    ∃ word, tokenize (shellWord value) = some [.word word] ∧ quoteRemoval word = value ∧
      ∀ piece ∈ word, piece.expands = false := by
  unfold shellWord
  split
  · next hsafe =>
    obtain ⟨hne, hall⟩ := hsafe
    rw [all_eq_true] at hall
    refine ⟨value.map fun ch => ⟨ch, .bare⟩, ?_, ?_, ?_⟩
    · refine tokenize_word (feed_bare hne ?_)
      exact fun ch hcharacter => isOrdinary_of_isShellSafe (hall ch hcharacter)
    · exact quoteRemoval_bare value
    · intro piece hpiece
      obtain ⟨ch, hcharacter, rfl⟩ := mem_map.mp hpiece
      exact expands_of_isShellSafe (hall ch hcharacter)
  · have hopen : feed step .between ['\x27'] =
        some (.single [⟨'\x27', .mark⟩], []) := rfl
    have hbody : feed step (.single [⟨'\x27', .mark⟩]) (value.flatMap shellChar) =
        some (.single ([⟨'\x27', .mark⟩] ++ value.flatMap shellPieces), []) :=
      feed_single feed_shellChar [⟨'\x27', .mark⟩]
    have hclose : feed step (.single ([⟨'\x27', .mark⟩] ++ value.flatMap shellPieces))
        ['\x27'] = some (.plain ([⟨'\x27', .mark⟩] ++ value.flatMap shellPieces ++
          [⟨'\x27', .mark⟩]), []) := rfl
    refine ⟨_, tokenize_word (feed_append hopen (feed_append hbody hclose)), ?_, ?_⟩
    · rw [quoteRemoval_append, quoteRemoval_append, quoteRemoval_shellPieces]
      simp [quoteRemoval]
    · intro piece hpiece
      simp only [mem_append, mem_singleton, mem_flatMap] at hpiece
      obtain (rfl | ⟨ch, -, hcharacter⟩) | rfl := hpiece
      · rfl
      · exact expands_shellPieces hcharacter
      · rfl

end Malm.Authoring
