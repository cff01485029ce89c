/-
Malm.Config.JsonTransformTheorems — compact and pretty output denote the document root
(`malm-config/src/transform.rs`).

The writer appends the text of one JSON value in one of two layouts (`writeValue_appends`),
and the JSON grammar reads a value back whatever its layout.
-/
import Malm.Config.JsonTransform
import Malm.Lib.JsonText

namespace Malm.Config

open Bytes Checks TypedValue Json

variable {floatText : FiniteFloat → Text} {response : TransformResponse}

/-! ## 1. The JSON form of a value -/

section Form

variable (floatText : FiniteFloat → Text)

mutual

/-- What a value denotes: maps are objects, lists arrays, and a number is its text. -/
def TypedValue.toJson : TypedValue → Json
  | null => .null
  | boolean value => .bool value
  | integer value => .otherNumber (toString value.toInt).toList
  | unsigned value => .otherNumber (toString value.toNat).toList
  | float value => .otherNumber (JsonWriter.jsonFloat floatText value)
  | string value => .string value
  | path value => .string value.val
  | list values => .array (toJsonItems values)
  | record values => .object (toJsonEntries values)
  | collection values => .object (toJsonEntries values)

def TypedValue.toJsonItems : List TypedValue → List Json
  | [] => []
  | value :: rest => value.toJson :: toJsonItems rest

def TypedValue.toJsonEntries : List (RichKey × TypedValue) → List (Text × Json)
  | [] => []
  | (key, value) :: rest => (key.val, value.toJson) :: toJsonEntries rest

end

end Form

mutual

/-- The entries of every map inside are in key order. -/
def TypedValue.Ordered : TypedValue → Prop
  | list values => OrderedItems values
  | record values => (values.map Prod.fst).Pairwise (· < ·) ∧ OrderedEntries values
  | collection values => (values.map Prod.fst).Pairwise (· < ·) ∧ OrderedEntries values
  | _ => True

def TypedValue.OrderedItems : List TypedValue → Prop
  | [] => True
  | value :: rest => value.Ordered ∧ OrderedItems rest

def TypedValue.OrderedEntries : List (RichKey × TypedValue) → Prop
  | [] => True
  | (_, value) :: rest => value.Ordered ∧ OrderedEntries rest

end

mutual

/-- The keys of every object inside of a value ascend. -/
def KeysAscend : Json → Prop
  | .array items => KeysAscendItems items
  | .object fields => (fields.map Prod.fst).Pairwise (· < ·) ∧ KeysAscendFields fields
  | _ => True

def KeysAscendItems : List Json → Prop
  | [] => True
  | item :: rest => KeysAscend item ∧ KeysAscendItems rest

def KeysAscendFields : List (Text × Json) → Prop
  | [] => True
  | field :: rest => KeysAscend field.2 ∧ KeysAscendFields rest

end

theorem map_fst_toJsonEntries (floatText : FiniteFloat → Text)
    (vs : List (RichKey × TypedValue)) :
    (toJsonEntries floatText vs).map Prod.fst =
      (vs.map Prod.fst).map Subtype.val := by
  induction vs with
  | nil => rfl
  | cons e rest ih => simp [toJsonEntries, ih]

section Keys

variable (floatText : FiniteFloat → Text)

mutual

theorem keysAscend_toJson : ∀ v : TypedValue, v.Ordered →
    KeysAscend (v.toJson floatText)
  | .null, _ => trivial
  | .boolean _, _ => trivial
  | .integer _, _ => trivial
  | .unsigned _, _ => trivial
  | .float _, _ => trivial
  | .string _, _ => trivial
  | .path _, _ => trivial
  | .list vs, h => keysAscend_toJsonItems vs h
  | .record vs, h =>
    ⟨by rw [map_fst_toJsonEntries]; exact h.1.map _ fun _ _ hlt => hlt,
      keysAscend_toJsonEntries vs h.2⟩
  | .collection vs, h =>
    ⟨by rw [map_fst_toJsonEntries]; exact h.1.map _ fun _ _ hlt => hlt,
      keysAscend_toJsonEntries vs h.2⟩

theorem keysAscend_toJsonItems : ∀ vs : List TypedValue, TypedValue.OrderedItems vs →
    KeysAscendItems (toJsonItems floatText vs)
  | [], _ => trivial
  | v :: rest, h => ⟨keysAscend_toJson v h.1, keysAscend_toJsonItems rest h.2⟩

theorem keysAscend_toJsonEntries : ∀ vs : List (RichKey × TypedValue),
    TypedValue.OrderedEntries vs → KeysAscendFields (toJsonEntries floatText vs)
  | [], _ => trivial
  | (_, v) :: rest, h => ⟨keysAscend_toJson v h.1, keysAscend_toJsonEntries rest h.2⟩

end

end Keys

/-! ## 2. Numbers -/

section Numbers

theorem numberToken_jsonFloat {v : FiniteFloat} (h : Json.NumberToken (floatText v)) :
    Json.NumberToken (JsonWriter.jsonFloat floatText v) := by
  simp only [JsonWriter.jsonFloat]
  split
  · exact h
  · next hplain =>
    refine h.append_zero ?_
    simpa using hplain

mutual

theorem tokens_toJson (hfloat : ∀ v, Json.NumberToken (floatText v)) :
    ∀ v : TypedValue, Json.Tokens (v.toJson floatText)
  | .null => trivial
  | .boolean _ => trivial
  | .integer v => numberToken_int v.toInt
  | .unsigned v => numberToken_int v.toNat
  | .float v => numberToken_jsonFloat (hfloat v)
  | .string _ => trivial
  | .path _ => trivial
  | .list vs => tokens_toJsonItems hfloat vs
  | .record vs => tokens_toJsonEntries hfloat vs
  | .collection vs => tokens_toJsonEntries hfloat vs

theorem tokens_toJsonItems (hfloat : ∀ v, Json.NumberToken (floatText v)) :
    ∀ vs : List TypedValue, Json.TokensItems (toJsonItems floatText vs)
  | [] => trivial
  | v :: rest => ⟨tokens_toJson hfloat v, tokens_toJsonItems hfloat rest⟩

theorem tokens_toJsonEntries (hfloat : ∀ v, Json.NumberToken (floatText v)) :
    ∀ vs : List (RichKey × TypedValue),
      Json.TokensFields (toJsonEntries floatText vs)
  | [] => trivial
  | (_, v) :: rest => ⟨tokens_toJson hfloat v, tokens_toJsonEntries hfloat rest⟩

end

end Numbers

/-! ## 3. What the writer appends -/

def JsonWriter.Appends (writer : JsonWriter Unit) (text : Text) : Prop :=
  ∀ output after, writer output = .ok ((), after) → after = output ++ utf8 text

namespace JsonWriter.Appends

variable {first snd : JsonWriter Unit} {before behind : Text}

theorem pure : Appends (pure ()) [] := by
  intro output after h
  obtain ⟨-, rfl⟩ := Prod.mk.inj (Except.ok.inj h)
  exact (List.append_nil _).symm

theorem seq (hfirst : Appends first before) (hsecond : Appends snd behind) :
    Appends (first >>= fun _ => snd) (before ++ behind) := by
  intro output after h
  have hrun : (first output >>= fun run => snd run.2) = .ok ((), after) := h
  rw [bind_ok] at hrun
  obtain ⟨⟨⟨⟩, middle⟩, hbefore, hafter⟩ := hrun
  rw [hsecond _ _ hafter, hfirst _ _ hbefore, utf8_append, List.append_assoc]

theorem text (written : Text) : Appends (appendText written) written := by
  intro output after h
  simp only [appendText, append, bind_ok, exists_unit, reject_ok,
    pure_ok, Prod.mk.injEq, true_and] at h
  exact h.2.symm

theorem of_eq (h : Appends first before) (heq : before = behind) : Appends first behind := heq ▸ h

theorem forM {write : Char → JsonWriter Unit} {written : Char → Text}
    (h : ∀ c, Appends (write c) (written c)) (v : Text) :
    Appends (v.forM write) (v.flatMap written) := by
  induction v with
  | nil => exact pure
  | cons c rest ih => exact (h c).seq ih

end JsonWriter.Appends

open JsonWriter

open Appends


/-- The blanks that the writer puts between tokens. -/
def jsonLayout (pretty : Bool) : Json.Layout where
  line depth := if pretty then '\n' :: (List.replicate depth [' ', ' ']).flatten else []
  colon := if pretty then [' '] else []
  line_blank := by
    intro depth character hmem
    cases pretty with
    | false => cases hmem
    | true =>
      obtain rfl | hblank := List.mem_cons.mp hmem
      · rfl
      · obtain ⟨pair, hpair, hcharacter⟩ := List.mem_flatten.mp hblank
        obtain rfl := List.eq_of_mem_replicate hpair
        obtain rfl | rfl : character = ' ' ∨ character = ' ' := by simpa using hcharacter
        all_goals rfl
  colon_blank := by
    intro character hmem
    cases pretty with
    | false => cases hmem
    | true =>
      obtain rfl := List.mem_singleton.mp hmem
      rfl

theorem indent_appends (depth : Nat) :
    Appends (indent depth) (List.replicate depth [' ', ' ']).flatten := by
  induction depth with
  | zero => exact pure
  | succ depth ih => exact (text _).seq ih

theorem separator_appends (pretty : Bool) (depth : Nat) :
    Appends (separator pretty depth) ((jsonLayout pretty).line depth) := by
  cases pretty with
  | false => exact pure
  | true => exact (text _).seq (indent_appends depth)

theorem writeChar_appends (c : Char) :
    Appends (writeChar c) (escape c) := by
  have hhigh : c.toNat >>> 4 = c.toNat / 16 := Nat.shiftRight_eq_div_pow _ 4
  have hlow : c.toNat &&& 0x0f = c.toNat % 16 := Nat.and_two_pow_sub_one_eq_mod _ 4
  unfold writeChar escape
  rw [hhigh, hlow]
  simp only [Nat.lt_succ_iff.symm]
  split_ifs <;> exact text _

theorem writeString_appends (v : Text) : Appends (writeString v) (quote v) :=
  (text _).seq ((forM writeChar_appends v).seq (text _))

section Values

variable (floatText : FiniteFloat → Text) (pretty : Bool)

/-- The items that the loop has still to write, with the comma before them. -/
def itemsText (depth : Nat) (first : Bool) (values : List TypedValue) : Text :=
  if values = [] then []
  else (if first then [] else [',']) ++
    Json.renderItems (jsonLayout pretty) depth (TypedValue.toJsonItems floatText values)

/-- The entries that the loop has still to write, with the comma before them. -/
def entriesText (depth : Nat) (first : Bool) (values : List (RichKey × TypedValue)) : Text :=
  if values = [] then []
  else (if first then [] else [',']) ++
    Json.renderFields (jsonLayout pretty) depth (TypedValue.toJsonEntries floatText values)

theorem comma_appends (first : Bool) : Appends (comma first) (if first then [] else [',']) := by
  cases first
  · exact text _
  · exact pure

theorem close_appends {α : Type} (depth : Nat) (vs : List α) (bracket : Text) :
    Appends (do
      lastSeparator pretty depth vs.isEmpty
      appendText bracket)
      ((if vs = [] then [] else (jsonLayout pretty).line depth) ++ bracket) := by
  cases vs with
  | nil => exact pure.seq (text _)
  | cons first rest => exact (separator_appends pretty depth).seq (text _)

theorem render_list (depth : Nat) (vs : List TypedValue) :
    ['['] ++ (itemsText floatText pretty (depth + 1) true vs ++
        ((if vs = [] then [] else (jsonLayout pretty).line depth) ++ [']'])) =
      render (jsonLayout pretty) depth (.array (toJsonItems floatText vs)) := by
  cases vs with
  | nil => rfl
  | cons first rest => simp [itemsText, toJsonItems, render]

theorem render_map (depth : Nat) (vs : List (RichKey × TypedValue)) :
    ['\x7b'] ++ (entriesText floatText pretty (depth + 1) true vs ++
        ((if vs = [] then [] else (jsonLayout pretty).line depth) ++ ['\x7d'])) =
      render (jsonLayout pretty) depth
        (.object (toJsonEntries floatText vs)) := by
  cases vs with
  | nil => rfl
  | cons first rest => simp [entriesText, toJsonEntries, render]

mutual

/-- **The writer appends the JSON form in its layout.** -/
theorem writeValue_appends : ∀ (v : TypedValue) (depth : Nat),
    Appends (writeValue floatText pretty depth v)
      (render (jsonLayout pretty) depth (v.toJson floatText))
  | .null, _ => text _
  | .boolean true, _ => text _
  | .boolean false, _ => text _
  | .integer _, _ => text _
  | .unsigned _, _ => text _
  | .float _, _ => text _
  | .string v, _ => writeString_appends v
  | .path v, _ => writeString_appends v.val
  | .list vs, depth =>
    ((text _).seq ((writeItems_appends vs (depth + 1) true).seq
      (close_appends pretty depth vs [']']))).of_eq (render_list floatText pretty depth vs)
  | .record vs, depth =>
    ((text _).seq ((writeEntries_appends vs (depth + 1) true).seq
      (close_appends pretty depth vs ['\x7d']))).of_eq (render_map floatText pretty depth vs)
  | .collection vs, depth =>
    ((text _).seq ((writeEntries_appends vs (depth + 1) true).seq
      (close_appends pretty depth vs ['\x7d']))).of_eq (render_map floatText pretty depth vs)

theorem writeItems_appends : ∀ (vs : List TypedValue) (depth : Nat) (first : Bool),
    Appends (writeItems floatText pretty depth first vs)
      (itemsText floatText pretty depth first vs)
  | [], _, _ => pure
  | value :: rest, depth, first => by
    refine ((comma_appends first).seq ((separator_appends pretty depth).seq
      ((writeValue_appends value depth).seq (writeItems_appends rest depth false)))).of_eq ?_
    cases rest <;> simp [itemsText, toJsonItems, renderItems]

theorem writeEntries_appends : ∀ (vs : List (RichKey × TypedValue)) (depth : Nat)
    (first : Bool), Appends (writeEntries floatText pretty depth first vs)
      (entriesText floatText pretty depth first vs)
  | [], _, _ => pure
  | (key, value) :: rest, depth, first => by
    have hcolon : Appends (appendText (if pretty then [':', ' '] else [':']))
        (':' :: (jsonLayout pretty).colon) := by
      cases pretty <;> exact text _
    refine ((comma_appends first).seq ((separator_appends pretty depth).seq
      ((writeString_appends key.val).seq (hcolon.seq ((writeValue_appends value depth).seq
        (writeEntries_appends rest depth false)))))).of_eq ?_
    cases rest <;> simp [entriesText, toJsonEntries, renderFields]

end

end Values

/-! ## 4. What the output denotes -/

/-- The output: the text of the root in the layout asked for, and the end of a line. -/
theorem canonicalJsonTransform_output {req : TransformRequest}
    (h : canonicalJsonTransform floatText req = .ok response) :
    ∃ pretty, requestedPretty req = .ok pretty ∧
      response.output = utf8 (render (jsonLayout pretty) 0
        (req.document.root.toJson floatText) ++ ['\n']) := by
  simp only [canonicalJsonTransform, bind_ok, exists_unit] at h
  obtain ⟨-, pretty, hpretty, ⟨⟨⟩, output⟩, hwrite, hnew⟩ := h
  have houtput := (writeValue_appends floatText pretty req.document.root 0).seq
    (text ['\n']) _ _ hwrite
  simp only [TransformResponse.new, mapError_ok, bind_ok, exists_unit, pure_ok] at hnew
  obtain ⟨diagnostics, -, -, -, rfl⟩ := hnew
  exact ⟨pretty, hpretty, houtput⟩

theorem parse_output (hfloat : ∀ v, Json.NumberToken (floatText v)) {req : TransformRequest}
    (h : canonicalJsonTransform floatText req = .ok response) :
    ∃ text, response.output = utf8 text ∧
      parse text = some (req.document.root.toJson floatText) := by
  obtain ⟨pretty, -, houtput⟩ := canonicalJsonTransform_output h
  refine ⟨_, houtput, ?_⟩
  exact parse_render (jsonLayout pretty) (tokens_toJson hfloat _) (by simp [isSpace])

/-- **Compact and pretty JSON denote the same value.** The outputs for one root are accepted and
read as its JSON form, whose objects have the keys of the maps in ascending order. -/
theorem canonical_json_denotes_root {floatText : FiniteFloat → Text}
    (hfloat : ∀ value, Json.NumberToken (floatText value))
    {compact pretty : TransformRequest} {compactResponse prettyResponse : TransformResponse}
    (hroot : pretty.document.root = compact.document.root)
    (hcompact : canonicalJsonTransform floatText compact = .ok compactResponse)
    (hpretty : canonicalJsonTransform floatText pretty = .ok prettyResponse) :
    ∃ compactText prettyText,
      compactResponse.output = utf8 compactText ∧ prettyResponse.output = utf8 prettyText ∧
      parse compactText = some (compact.document.root.toJson floatText) ∧
      parse prettyText = some (compact.document.root.toJson floatText) ∧
      (compact.document.root.Ordered →
        KeysAscend (compact.document.root.toJson floatText)) := by
  obtain ⟨compactText, hcompactText, hcompactParse⟩ := parse_output hfloat hcompact
  obtain ⟨prettyText, hprettyText, hprettyParse⟩ := parse_output hfloat hpretty
  rw [hroot] at hprettyParse
  exact ⟨compactText, prettyText, hcompactText, hprettyText, hcompactParse, hprettyParse,
    keysAscend_toJson floatText _⟩

/-- A root with a list, a nested empty map and a string that has to be escaped. -/
def escapedRequest (pretty : Bool) : TransformRequest where
  contractVersion := formatTransformVersion
  document :=
    { version := richConfigIrVersion
      root := .record
        [(⟨['a'], by decide⟩, .list [.integer 1, .boolean true, .collection []]),
          (⟨['b'], by decide⟩, .string ['\x22', '\n', '\x01'])]
      sourceDocuments := .empty
      includes := []
      provenance := .empty }
  options := SortedMap.empty.insert prettyName ⟨prettyName, .boolean pretty⟩
  resources := .empty

theorem canonical_json_denotes_escaped_root :
    ∃ compactResponse prettyResponse compactText prettyText,
      compactResponse.output = utf8 compactText ∧ prettyResponse.output = utf8 prettyText ∧
      canonicalJsonTransform (fun _ => ['0']) (escapedRequest false) = .ok compactResponse ∧
      canonicalJsonTransform (fun _ => ['0']) (escapedRequest true) = .ok prettyResponse ∧
      parse compactText = parse prettyText := by
  have hfloat : ∀ value : FiniteFloat, Json.NumberToken ['0'] :=
    fun _ => ⟨rfl, by simp [isNumberChar]⟩
  have hcompact : okAnd (canonicalJsonTransform (fun _ => ['0']) (escapedRequest false))
      (fun _ => true) = true := by decide +kernel
  have hpretty : okAnd (canonicalJsonTransform (fun _ => ['0']) (escapedRequest true))
      (fun _ => true) = true := by decide +kernel
  obtain ⟨compactResponse, hcompact, -⟩ := okAnd_iff.mp hcompact
  obtain ⟨prettyResponse, hpretty, -⟩ := okAnd_iff.mp hpretty
  have hroot : (escapedRequest true).document.root = (escapedRequest false).document.root := rfl
  obtain ⟨compactText, prettyText, hcompactText, hprettyText, hleft, hright, -⟩ :=
    canonical_json_denotes_root hfloat hroot hcompact hpretty
  exact ⟨compactResponse, prettyResponse, compactText, prettyText, hcompactText, hprettyText,
    hcompact, hpretty, hleft.trans hright.symm⟩

end Malm.Config
