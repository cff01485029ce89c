/-
Malm.Authoring.TemplatePieces — a template written as a list of pieces (`text.rs`).

A piece is plain text or a literal directive around a JSON string. The scanner for a
closing delimiter runs through the JSON string in step with the scanner of JSON
strings: it is inside of quotes all along.
-/
import Malm.Authoring.TemplateTheorems

namespace Malm.Authoring

open Pack Transducer StringLiterals List Function Option

variable {formats : TextFormats}

/-! ## 1. Opening delimiters -/

/-- The end of a text and the start of what follows make one opening delimiter. -/
def Combines (text rest : Text) : Prop :=
  text.getLast? = some '\x7b' ∧ rest.head? = some '\x7b'

variable {rest text : Text} {next : JsonState} {written : List Char} {ch : Char}
  {s : JsonState}

theorem findOpen_cons_eq_none {first : Char} :
    findOpen (first :: rest) = none ↔
      ¬ (first = '\x7b' ∧ rest.head? = some '\x7b') ∧ findOpen rest = none := by
  rw [findOpen]
  split
  · next h => simp [h]
  · next h => simp [h]

theorem findOpen_append_eq_none {first snd : Text} (hfirst : findOpen first = none)
    (hsecond : findOpen snd = none) (hcombines : ¬ Combines first snd) :
    findOpen (first ++ snd) = none := by
  induction first with
  | nil => exact hsecond
  | cons ch rest ih =>
    obtain ⟨hopen, hrest⟩ := findOpen_cons_eq_none.mp hfirst
    cases rest with
    | nil => exact findOpen_cons_eq_none.mpr ⟨by simpa [Combines] using hcombines, hsecond⟩
    | cons next tail =>
      refine findOpen_cons_eq_none.mpr ⟨by simpa using hopen, ih hrest ?_⟩
      simpa [Combines] using hcombines

theorem findOpen_append {after : Text} (htext : findOpen text = none)
    (hlast : text.getLast? ≠ some '\x7b') :
    findOpen (text ++ '\x7b' :: '\x7b' :: after) = some (text, after) := by
  induction text with
  | nil => simp [findOpen]
  | cons ch rest ih =>
    obtain ⟨hopen, hrest⟩ := findOpen_cons_eq_none.mp htext
    cases rest with
    | nil =>
      have hne : ch ≠ '\x7b' := by simpa using hlast
      simp [findOpen, hne]
    | cons next tail =>
      have hfound := ih hrest (by simpa using hlast)
      rw [cons_append, findOpen, if_neg (by simpa using hopen), hfound]
      rfl

/-! ## 2. Closing delimiters -/

theorem findDirectiveClose_plain
    (h : ∀ ch ∈ text, ch ≠ '\x22' ∧ ch ≠ '\x7d') (rest : Text) :
    findDirectiveClose false false (text ++ rest) =
      (findDirectiveClose false false rest).map (· + text.length) := by
  induction text with
  | nil => simp
  | cons ch tail ih =>
    obtain ⟨hquote, hclose⟩ := h ch (by simp)
    rw [cons_append, findDirectiveClose]
    simp only [Bool.false_eq_true, if_false, and_false, hquote, hclose, false_and,
      ih fun other hother => h other (by simp [hother])]
    simp [comp_def, Nat.add_assoc]

def isEscaping : JsonState → Bool
  | .escape | .pairEscape _ => true
  | _ => false

theorem jsonUnit_go {high : Option Nat} {unit : Nat} (h : jsonUnit high unit = .go next written) :
    isEscaping next = false := by
  cases high <;> simp only [jsonUnit] at h <;> split_ifs at h <;> cases h <;> rfl

theorem jsonStep_escape_go (h : jsonStep .escape ch = .go next written) :
    isEscaping next = false := by
  simp only [jsonStep] at h
  cases hescape : StringLiterals.jsonEscape ch with
  | some meant => simp only [hescape] at h; cases h; rfl
  | none =>
    simp only [hescape] at h
    split_ifs at h
    cases h
    rfl

theorem jsonStep_digits_go {high : Option Nat} {count v : Nat}
    (h : jsonStep (.digits high count v) ch = .go next written) :
    isEscaping next = false ∧ ch ≠ '\x22' ∧ ch ≠ '\x5c' := by
  simp only [jsonStep] at h
  cases hdigit : hexDigit ch with
  | none => simp [hdigit] at h
  | some digit =>
    refine ⟨?_, (by rintro rfl; cases hdigit), (by rintro rfl; cases hdigit)⟩
    simp only [hdigit] at h
    split_ifs at h
    · cases h; rfl
    · exact jsonUnit_go h

theorem findDirectiveClose_step (h : jsonStep s ch = .go next written) (rest : Text) :
    findDirectiveClose true (isEscaping s) (ch :: rest) =
      (findDirectiveClose true (isEscaping next) rest).map (· + 1) := by
  cases s with
  | text =>
    simp only [jsonStep] at h
    split_ifs at h with hquote hback hcontrol
    · cases h
      simp [findDirectiveClose, isEscaping, hback]
    · cases h
      simp [findDirectiveClose, isEscaping, hquote, hback]
  | escape =>
    rw [jsonStep_escape_go h]
    simp [findDirectiveClose, isEscaping]
  | digits high count v =>
    obtain ⟨hnext, hquote, hback⟩ := jsonStep_digits_go h
    rw [hnext]
    simp [findDirectiveClose, isEscaping, hquote, hback]
  | pair high =>
    simp only [jsonStep] at h
    split_ifs at h with hback
    cases h
    simp [findDirectiveClose, isEscaping, hback]
  | pairEscape high =>
    simp only [jsonStep] at h
    split_ifs at h
    cases h
    simp [findDirectiveClose, isEscaping]

/-- **The scanners keep step** through the inside of a JSON string. -/
theorem findDirectiveClose_feed {body : Text}
    (h : feed jsonStep s body = some (next, written)) (rest : Text) :
    findDirectiveClose true (isEscaping s) (body ++ rest) =
      (findDirectiveClose true (isEscaping next) rest).map (· + body.length) := by
  induction body generalizing s written with
  | nil =>
    obtain ⟨rfl, -⟩ : s = next ∧ ([] : List Char) = written := by simpa using h
    simp
  | cons ch tail ih =>
    rw [feed] at h
    cases hstep : jsonStep s ch with
    | go mid output =>
      simp only [hstep, map_eq_some_iff, Prod.exists, Prod.mk.injEq] at h
      obtain ⟨last, more, htail, rfl, -⟩ := h
      rw [cons_append, findDirectiveClose_step hstep, ih htail]
      simp [comp_def, Nat.add_assoc]
    | close output => simp [hstep] at h
    | refuse => simp [hstep] at h

theorem jsonStep_close (h : jsonStep s ch = .close written) :
    s = .text ∧ ch = '\x22' ∧ written = [] := by
  cases s with
  | text =>
    simp only [jsonStep] at h
    split_ifs at h with hquote
    cases h
    exact ⟨rfl, hquote, rfl⟩
  | escape =>
    simp only [jsonStep] at h
    cases hescape : StringLiterals.jsonEscape ch with
    | some meant => simp [hescape] at h
    | none => simp only [hescape] at h; split_ifs at h
  | digits high count v =>
    simp only [jsonStep] at h
    cases hdigit : StringLiterals.hexDigit ch with
    | none => simp [hdigit] at h
    | some digit =>
      simp only [hdigit] at h
      split_ifs at h
      cases high <;> simp only [jsonUnit] at h <;> split_ifs at h
  | pair high => simp only [jsonStep] at h; split_ifs at h
  | pairEscape high => simp only [jsonStep] at h; split_ifs at h

theorem readJson_eq_some {literal : Text} (h : readJson literal = some (text, rest)) :
    ∃ body, literal = '\x22' :: (body ++ '\x22' :: rest) ∧
      feed jsonStep .text body = some (.text, text) := by
  cases literal with
  | nil => cases h
  | cons first tail =>
    simp only [readJson, StringLiterals.read] at h
    split_ifs at h with hquote
    obtain ⟨body, quote, last, before, closing, rfl, hfeed, hclose, rfl⟩ := scan_eq_some h
    obtain ⟨rfl, rfl, rfl⟩ := jsonStep_close hclose
    exact ⟨body, by rw [hquote], by rw [hfeed, append_nil]⟩

theorem findDirectiveClose_quote (inString : Bool) (rest : Text) :
    findDirectiveClose inString false ('\x22' :: rest) =
      (findDirectiveClose (!inString) false rest).map (· + 1) := by
  simp [findDirectiveClose]

theorem findDirectiveClose_literal {literal : Text} (h : readJson literal = some (text, []))
    (rest : Text) :
    findDirectiveClose false false (literal ++ rest) =
      (findDirectiveClose false false rest).map (· + literal.length) := by
  obtain ⟨body, rfl, hfeed⟩ := readJson_eq_some h
  have hinside := findDirectiveClose_feed hfeed ('\x22' :: rest)
  simp only [isEscaping] at hinside
  rw [cons_append, findDirectiveClose_quote, append_assoc, singleton_append,
    Bool.not_false, hinside, findDirectiveClose_quote]
  simp only [Option.map_map, comp_def, Bool.not_true, length_cons, length_append, length_nil]
  congr 1
  funext index
  omega

/-! ## 3. Literal directives -/

theorem dropWhile_blank {blanks : Text} (h : ∀ ch ∈ blanks, isWhitespace ch = true) :
    (blanks ++ rest).dropWhile isWhitespace = rest.dropWhile isWhitespace := by
  induction blanks with
  | nil => rfl
  | cons ch tail ih =>
    rw [cons_append, dropWhile_cons_of_pos (h ch (by simp))]
    exact ih fun other hother => h other (by simp [hother])

theorem trim_append {before after inner : Text} {first last : Char}
    (hbefore : ∀ ch ∈ before, isWhitespace ch = true)
    (hafter : ∀ ch ∈ after, isWhitespace ch = true)
    (hfirst : isWhitespace first = false) (hlast : isWhitespace last = false) :
    trim (before ++ (first :: (inner ++ last :: after))) = first :: (inner ++ [last]) := by
  have hreverse : ∀ ch ∈ after.reverse, isWhitespace ch = true := by
    simpa using hafter
  unfold trim
  rw [dropWhile_blank hbefore, dropWhile_cons_of_neg (by simp [hfirst])]
  have hshape : (first :: (inner ++ last :: after)).reverse =
      after.reverse ++ (last :: (inner.reverse ++ [first])) := by simp
  rw [hshape, dropWhile_blank hreverse, dropWhile_cons_of_neg (by simp [hlast])]
  simp

def literalRaw (before gap argument after : Text) : Text :=
  before ++ (['l', 'i', 't', 'e', 'r', 'a', 'l'] ++ (gap ++ (argument ++ after)))

section Directive

variable {before gap arg after text : Text}
  (hbefore : ∀ ch ∈ before, isWhitespace ch = true)
  (hgap : ∀ ch ∈ gap, isWhitespace ch = true)
  (hafter : ∀ ch ∈ after, isWhitespace ch = true)
  (harg : readJson arg = some (text, []))

include hbefore hgap hafter harg

theorem findDirectiveClose_literalRaw (rest : Text) :
    findDirectiveClose false false
        (literalRaw before gap arg after ++ '\x7d' :: '\x7d' :: rest) =
      some (literalRaw before gap arg after).length := by
  have hblank : ∀ {blanks : Text}, (∀ ch ∈ blanks, isWhitespace ch = true) →
      ∀ ch ∈ blanks, ch ≠ '\x22' ∧ ch ≠ '\x7d' := by
    intro blanks hblanks ch hchar
    have hwhite := hblanks ch hchar
    exact ⟨(by rintro rfl; cases hwhite), (by rintro rfl; cases hwhite)⟩
  have hword : ∀ ch ∈ ['l', 'i', 't', 'e', 'r', 'a', 'l'],
      ch ≠ '\x22' ∧ ch ≠ '\x7d' := by simp
  have hend : findDirectiveClose false false ('\x7d' :: '\x7d' :: rest) = some 0 := by
    simp [findDirectiveClose]
  simp only [literalRaw, append_assoc]
  rw [findDirectiveClose_plain (hblank hbefore), findDirectiveClose_plain hword,
    findDirectiveClose_plain (hblank hgap), findDirectiveClose_literal harg,
    findDirectiveClose_plain (hblank hafter), hend]
  simp only [map_some, length_append]
  congr 1
  omega

theorem parseDirective_literalRaw (hne : gap ≠ [])
    (hserde : formats.parseJsonString arg = some text) :
    parseDirective formats (literalRaw before gap arg after) = .ok (.literal text) := by
  obtain ⟨body, rfl, -⟩ := readJson_eq_some harg
  have hquote : isWhitespace '\x22' = false := by decide
  have hletter : isWhitespace 'l' = false := by decide
  have hraw : literalRaw before gap ('\x22' :: (body ++ ['\x22'])) after =
      before ++ ('l' :: ((['i', 't', 'e', 'r', 'a', 'l'] ++ (gap ++ '\x22' :: body)) ++
        '\x22' :: after)) := by
    simp [literalRaw]
  have htrim : trim (before ++ ('l' :: ((['i', 't', 'e', 'r', 'a', 'l'] ++
      (gap ++ '\x22' :: body)) ++ '\x22' :: after))) =
        'l' :: ((['i', 't', 'e', 'r', 'a', 'l'] ++ (gap ++ '\x22' :: body)) ++ ['\x22']) :=
    trim_append hbefore hafter hletter hquote
  have hargumentTrim : trim (gap ++ ('\x22' :: (body ++ ['\x22']))) =
      '\x22' :: (body ++ ['\x22']) :=
    trim_append hgap (by simp) hquote hquote
  have hshape : 'l' :: (['i', 't', 'e', 'r', 'a', 'l'] ++ (gap ++ '\x22' :: body) ++ ['\x22']) =
      "literal".toList ++ (gap ++ '\x22' :: (body ++ ['\x22'])) := by
    simp
  have hhead : (gap ++ '\x22' :: (body ++ ['\x22'])).head?.any isWhitespace = true := by
    cases gap with
    | nil => exact absurd rfl hne
    | cons first tail => simpa using hgap first (by simp)
  have hdrop : ("literal".toList ++ (gap ++ '\x22' :: (body ++ ['\x22']))).drop 7 =
      gap ++ '\x22' :: (body ++ ['\x22']) := rfl
  have hfound : literalArgument ("literal".toList ++ (gap ++ '\x22' :: (body ++ ['\x22']))) =
      some ('\x22' :: (body ++ ['\x22'])) := by
    rw [literalArgument, hdrop, hargumentTrim, if_pos ⟨by simp, hhead⟩]
  rw [parseDirective, hraw, htrim, hshape]
  simp only [hfound, hserde]

end Directive

/-! ## 4. Pieces -/

/-- A piece: plain text, or a literal directive with the blanks around its parts. -/
inductive TemplatePiece where
  | plain (text : Text)
  | literal (before gap argument after text : Text)

namespace TemplatePiece

def source : TemplatePiece → Text
  | plain text => text
  | literal before gap arg after _ =>
    '\x7b' :: '\x7b' :: (literalRaw before gap arg after ++ ['\x7d', '\x7d'])

def result : TemplatePiece → Text
  | plain text => text
  | literal _ _ _ _ text => text

end TemplatePiece

/-- No delimiter opens in plain text, and every argument is the JSON string of its text. -/
def PiecesOk : List TemplatePiece → Prop
  | [] => True
  | .plain text :: rest =>
    findOpen text = none ∧ ¬ Combines text (rest.flatMap TemplatePiece.source) ∧ PiecesOk rest
  | .literal before gap arg after text :: rest =>
    (∀ ch ∈ before ++ gap ++ after, isWhitespace ch = true) ∧ gap ≠ [] ∧
      readJson arg = some (text, []) ∧ PiecesOk rest

theorem parseSegments_literal {text raw rest : Text} {parsed : Directive} {segs : List Segment}
    {fuel : Nat} (htext : findOpen text = none) (hlast : text.getLast? ≠ some '\x7b')
    (hclose : findDirectiveClose false false (raw ++ '\x7d' :: '\x7d' :: rest) = some raw.length)
    (hparsed : parseDirective formats raw = .ok parsed)
    (hrest : parseSegments formats fuel rest = .ok segs) :
    parseSegments formats (fuel + 1)
        (text ++ '\x7b' :: '\x7b' :: (raw ++ '\x7d' :: '\x7d' :: rest)) =
      .ok ((if text = [] then [] else [.text text]) ++ .directive raw parsed :: segs) := by
  have hopen : findOpen (text ++ '\x7b' :: '\x7b' :: (raw ++ '\x7d' :: '\x7d' :: rest)) =
      some (text, raw ++ '\x7d' :: '\x7d' :: rest) := findOpen_append htext hlast
  generalize htemplate : text ++ '\x7b' :: '\x7b' :: (raw ++ '\x7d' :: '\x7d' :: rest) = template
  rw [htemplate] at hopen
  cases template with
  | nil => simp at htemplate
  | cons first tail =>
    have hdrop : (raw ++ '\x7d' :: '\x7d' :: rest).drop (raw.length + 2) = rest := by
      rw [← drop_drop, drop_left]
      rfl
    simp only [parseSegments, hopen, hclose, take_left, hdrop, hparsed, hrest]
    rfl

theorem parseSegments_plain {text : Text} {fuel : Nat} (htext : findOpen text = none)
    (hfuel : text.length ≤ fuel) :
    parseSegments formats fuel text = .ok (if text = [] then [] else [.text text]) := by
  cases text with
  | nil => cases fuel <;> rfl
  | cons first tail =>
    cases fuel with
    | zero => simp at hfuel
    | succ fuel => simp [parseSegments, htext]

theorem plain_append {front text rest : Text} (hfront : findOpen front = none)
    (htext : findOpen text = none) (hcombines : ¬ Combines front (text ++ rest))
    (hrest : ¬ Combines text rest) :
    findOpen (front ++ text) = none ∧ ¬ Combines (front ++ text) rest := by
  cases text with
  | nil => simpa using ⟨hfront, hcombines⟩
  | cons first tail =>
    refine ⟨findOpen_append_eq_none hfront htext (by simpa [Combines] using hcombines), ?_⟩
    simpa [Combines] using hrest

/-- **The pieces behind plain text** are parsed to segments with their texts. -/
theorem parse_pieces (lookup : Text → Option Value) {pieces : List TemplatePiece}
    (hserde : ∀ arg text, readJson arg = some (text, []) →
      formats.parseJsonString arg = some text) (hpieces : PiecesOk pieces) :
    ∀ (front : Text) (fuel : Nat), findOpen front = none →
      ¬ Combines front (pieces.flatMap TemplatePiece.source) →
        (front ++ pieces.flatMap TemplatePiece.source).length ≤ fuel →
          ∃ segs texts,
            parseSegments formats fuel (front ++ pieces.flatMap TemplatePiece.source) =
              .ok segs ∧
            segs.mapM (segmentText formats lookup) = .ok texts ∧
              texts.flatten = front ++ pieces.flatMap TemplatePiece.result := by
  induction pieces with
  | nil =>
    intro front fuel hfront _ hfuel
    rw [flatMap_nil, append_nil] at hfuel ⊢
    refine ⟨_, if front = [] then [] else [front], parseSegments_plain hfront hfuel, ?_, ?_⟩
    · split <;> rfl
    · split
      · next hempty => simp [hempty]
      · simp
  | cons piece rest ih =>
    intro front fuel hfront hcombines hfuel
    cases piece with
    | plain text =>
      obtain ⟨htext, hnext, hrest⟩ := hpieces
      obtain ⟨hplain, hjoin⟩ := plain_append hfront htext hcombines hnext
      obtain ⟨segs, texts, hparse, htexts, hflatten⟩ :=
        ih hrest (front ++ text) fuel hplain hjoin (by simpa [TemplatePiece.source] using hfuel)
      exact ⟨segs, texts, by simpa [TemplatePiece.source] using hparse, htexts,
        by simpa [TemplatePiece.result] using hflatten⟩
    | literal before gap arg after text =>
      obtain ⟨hblanks, hne, harg, hrest⟩ := hpieces
      have hbefore : ∀ ch ∈ before, isWhitespace ch = true :=
        fun ch h => hblanks ch (by simp [h])
      have hgap : ∀ ch ∈ gap, isWhitespace ch = true :=
        fun ch h => hblanks ch (by simp [h])
      have hafter : ∀ ch ∈ after, isWhitespace ch = true :=
        fun ch h => hblanks ch (by simp [h])
      have hlast : front.getLast? ≠ some '\x7b' := by
        intro hlast
        exact hcombines ⟨hlast, rfl⟩
      have hsource : front ++ (.literal before gap arg after text :: rest).flatMap
          TemplatePiece.source = front ++ '\x7b' :: '\x7b' ::
            (literalRaw before gap arg after ++
              '\x7d' :: '\x7d' :: rest.flatMap TemplatePiece.source) := by
        simp [TemplatePiece.source]
      rw [hsource] at hfuel ⊢
      obtain ⟨fuel, rfl⟩ : ∃ less, fuel = less + 1 := by
        refine ⟨fuel - 1, ?_⟩
        simp only [length_append, length_cons] at hfuel
        omega
      obtain ⟨segs, texts, hparse, htexts, hflatten⟩ := ih hrest [] fuel rfl
        (by simp [Combines]) (by
          simp only [length_append, length_cons, nil_append] at hfuel ⊢
          omega)
      have hsegs : ∀ (raw : Text), (.directive raw (.literal text) :: segs).mapM
          (segmentText formats lookup) = .ok (text :: texts) := by
        intro raw
        rw [mapM_cons, htexts]
        rfl
      refine ⟨_, (if front = [] then [] else [front]) ++ text :: texts,
        parseSegments_literal hfront hlast
          (findDirectiveClose_literalRaw hbefore hgap hafter harg _)
          (parseDirective_literalRaw hbefore hgap hafter harg hne (hserde _ _ harg))
          hparse, ?_, ?_⟩
      · split
        · exact hsegs _
        · rw [singleton_append, mapM_cons, hsegs]
          rfl
      · split
        · next hempty => simp [hempty, hflatten, TemplatePiece.result]
        · simp [hflatten, TemplatePiece.result]

/-- **Template literals and plain text are preserved**, whatever the texts contain. -/
theorem literal_pieces_render (lookup : Text → Option Value) {pieces : List TemplatePiece}
    {maxBytes : Nat} (hserde : ∀ arg text, readJson arg = some (text, []) →
      formats.parseJsonString arg = some text) (hpieces : PiecesOk pieces)
    (hbudget : Text.byteLen (pieces.flatMap TemplatePiece.result) ≤ maxBytes) :
    renderTemplateWithLimit formats (pieces.flatMap TemplatePiece.source) lookup maxBytes =
      .ok (pieces.flatMap TemplatePiece.result) := by
  obtain ⟨segments, texts, hparse, htexts, hflatten⟩ :=
    parse_pieces lookup hserde hpieces [] _ rfl (by simp [Combines]) le_rfl
  rw [nil_append] at hparse hflatten
  have hrender : segments.foldlM (renderSegment formats lookup maxBytes) [] =
      .ok ([] ++ texts.flatten) :=
    foldlM_renderSegment htexts (by simpa [hflatten] using hbudget)
  simp only [renderTemplateWithLimit, parseTemplateWith, hparse]
  rw [← hflatten]
  exact hrender

/-- Text with both delimiters, a quote and a backslash in it, behind an open brace. -/
theorem literal_pieces_render_braces :
    renderTemplateWithLimit stringFormats
      ([.plain "a".toList,
        .literal [] [' '] "\"\x7b\x7b \\\" \\\\ \x7d\x7d\"".toList [' ']
          "\x7b\x7b \" \\ \x7d\x7d".toList].flatMap TemplatePiece.source) (fun _ => none) 100 =
      .ok ([.plain "a".toList,
        .literal [] [' '] "\"\x7b\x7b \\\" \\\\ \x7d\x7d\"".toList [' ']
          "\x7b\x7b \" \\ \x7d\x7d".toList].flatMap TemplatePiece.result) :=
  literal_pieces_render (fun _ => none)
    (by intro arg text h; simp [stringFormats, h])
    ⟨rfl, by simp [Combines], by simp; decide, by simp, rfl, trivial⟩ (by decide)

end Malm.Authoring
